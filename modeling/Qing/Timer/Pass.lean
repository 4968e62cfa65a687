import Qing.Timer.Engine

/-!
# One call of `Update`

`Pass.update` is `Update` as one thread runs it from its call to its return, with the
callbacks it calls. A thread alone never waits for a mutex, so the locking is left out,
and so is the overflow of `_cur_timer_id`; what a callback does is a list of calls of
`Register` and `UnRegister` (it does not call `Update`). The clock is 64 bits of a count that
may go on without end, so nothing is assumed of its readings. A `Pass` carries, next to the
engine, what has been done so far: how often the clock was read, which entries were met, which
callbacks were called. The engine can do what a pass does (`path_of_update`, in `Solo.lean`).

The loops have a number of turns to go, and answer `none` if it runs out.
-/

namespace Qing

/-- A call that a callback makes. -/
inductive CallbackOp (Fp : Type*)
  | register (unit : IntervalUnit) (runOnce : Bool) (intervalTime : Int32) (fp : Fp)
  | unRegister (timerId : ℤ)

/-- What a call of `Update` meets outside of the engine. -/
structure Outside (Fp : Type*) where
  countTick : UInt64
  /-- What `get_clock` reads, reading by reading. -/
  clock : ℕ → UInt64
  /-- The table that the `try_lock`s of `Register` leave the timer of an id to. -/
  place : ℤ → Tab
  /-- What a callback does, called after so many others. -/
  calls : ℕ → Fp → List (CallbackOp Fp)

variable {Fp : Type*}

/-- A turn of a loop of `Update`: the entry as it was met, and the number of the reading
that its due test makes. -/
structure Visit (Fp : Type*) where
  tab : Tab
  timerId : ℤ
  timer : ETimer Fp
  reading : ℕ

/-- A callback that was called, and how often the clock had been read when it
returned. -/
structure Called (Fp : Type*) where
  tab : Tab
  timerId : ℤ
  fp : Fp
  returned : ℕ

structure Pass (Fp : Type*) where
  engine : TimerThread Fp
  readings : ℕ := 0
  visits : List (Visit Fp) := []
  called : List (Called Fp) := []

namespace Pass

def getClock (o : Outside Fp) (p : Pass Fp) : UInt64 × Pass Fp :=
  (o.clock p.readings,
    { p with
      engine := { p.engine with clock := o.clock p.readings }
      readings := p.readings + 1 })

/-- `Register` or `RegisterByMilSec`, called by a callback. -/
def register (o : Outside Fp) (unit : IntervalUnit) (runOnce : Bool) (intervalTime : Int32)
    (fp : Fp) (p : Pass Fp) : Pass Fp :=
  let timerId := p.engine.curTimerId + 1
  let timer := ETimer.declare runOnce timerId fp
  let r := getClock o { p with engine := { p.engine with curTimerId := timerId } }
  { r.2 with
    engine := r.2.engine.insert (o.place timerId) (timer.opened unit intervalTime fp r.1) }

def unRegister (timerId : ℤ) (p : Pass Fp) : Pass Fp :=
  if ((p.engine.timers .timers2).find? timerId).isSome then
    { p with engine := p.engine.mark .timers2 timerId }
  else if ((p.engine.timers .timers1).find? timerId).isSome then
    { p with engine := p.engine.mark .timers1 timerId }
  else p

def apply (o : Outside Fp) (p : Pass Fp) : CallbackOp Fp → Pass Fp
  | .register unit runOnce intervalTime fp => p.register o unit runOnce intervalTime fp
  | .unRegister timerId => p.unRegister timerId

/-- The callback `fp` of an entry, from its call to its return. -/
def callback (o : Outside Fp) (tab : Tab) (timerId : ℤ) (fp : Fp) (p : Pass Fp) : Pass Fp :=
  let p' := (o.calls p.called.length fp).foldl (apply o) p
  { p' with called := p'.called ++ [⟨tab, timerId, fp, p'.readings⟩] }

def visit (tab : Tab) (timerId : ℤ) (timer : ETimer Fp) (p : Pass Fp) : Pass Fp :=
  { p with visits := p.visits ++ [⟨tab, timerId, timer, p.readings⟩] }

def erase (tab : Tab) (timerId : ℤ) (p : Pass Fp) : Pass Fp :=
  { p with engine := p.engine.erase tab timerId }

/-- The two lines after the call of `_fp`. -/
def rearm (o : Outside Fp) (tab : Tab) (timerId : ℤ) (p : Pass Fp) : Pass Fp :=
  let r := p.getClock o
  { r.2 with engine := r.2.engine.rearm tab timerId r.1 }

/-- One turn of a loop of `Update`, with where its iterator goes. -/
def turn (o : Outside Fp) (tab : Tab) (k : ℤ) (p : Pass Fp) : Option (Pass Fp × Option ℤ) :=
  ((p.engine.timers tab).find? k).bind fun timer =>
    let p₀ := p.visit tab k timer
    if timer.needDelete then some (p₀.erase tab k, (p.engine.timers tab).next? k)
    else
      let r := p₀.getClock o
      if timer.due o.countTick r.1 then
        let p' := (r.2.callback o tab k timer.fp).rearm o tab k
        ((p'.engine.timers tab).find? k).map fun timer' =>
          (if timer'.runOnce then p'.erase tab k else p', (p'.engine.timers tab).next? k)
      else some (r.2, (r.2.engine.timers tab).next? k)

def loop (o : Outside Fp) (tab : Tab) : ℕ → Option ℤ → Pass Fp → Option (Pass Fp)
  | _, none, p => some p
  | 0, some _, _ => none
  | n + 1, some k, p => (p.turn o tab k).bind fun r => loop o tab n r.2 r.1

def update (o : Outside Fp) (n : ℕ) (p : Pass Fp) : Option (Pass Fp) :=
  (loop o .timers1 n (p.engine.timers .timers1).first? p).bind fun p' =>
    loop o .timers2 n (p'.engine.timers .timers2).first? p'

end Pass

/-! ## What a callback leaves of an entry -/

namespace ETimer

/-- `UnRegister` may have marked the timer. -/
def UpToMark (timer timer' : ETimer Fp) : Prop := timer' = timer ∨ timer' = timer.mark

variable {timer timer' timer'' : ETimer Fp}

theorem UpToMark.refl (timer : ETimer Fp) : timer.UpToMark timer := Or.inl rfl

theorem UpToMark.trans (h : timer.UpToMark timer') (h' : timer'.UpToMark timer'') :
    timer.UpToMark timer'' := by
  rcases h with rfl | rfl
  · exact h'
  · rcases h' with rfl | rfl
    · exact Or.inr rfl
    · exact Or.inr rfl

theorem UpToMark.eq (h : timer.UpToMark timer') (hmark : timer'.needDelete = false) :
    timer' = timer := by
  rcases h with rfl | rfl
  · rfl
  · cases hmark

theorem UpToMark.due_eq (h : timer.UpToMark timer') (countTick now : UInt64) :
    timer'.due countTick now = timer.due countTick now := by
  rcases h with rfl | rfl <;> rfl

theorem UpToMark.fp_eq (h : timer.UpToMark timer') : timer'.fp = timer.fp := by
  rcases h with rfl | rfl <;> rfl

theorem UpToMark.runOnce_eq (h : timer.UpToMark timer') : timer'.runOnce = timer.runOnce := by
  rcases h with rfl | rfl <;> rfl

theorem UpToMark.rearm (h : timer.UpToMark timer') (now : UInt64) :
    (timer.rearm now).UpToMark (timer'.rearm now) := by
  rcases h with rfl | rfl
  · exact Or.inl rfl
  · exact Or.inr rfl

end ETimer

/-- Every entry of `m` is still in `m'`, and is what it was up to its mark. -/
def Kept (m m' : TimerMap Fp) : Prop :=
  ∀ k timer, m.find? k = some timer → ∃ timer', m'.find? k = some timer' ∧ timer.UpToMark timer'

section Kept

variable {m m' m'' : TimerMap Fp}

theorem Kept.refl (m : TimerMap Fp) : Kept m m :=
  fun _ timer hk => ⟨timer, hk, ETimer.UpToMark.refl timer⟩

theorem Kept.trans (h : Kept m m') (h' : Kept m' m'') : Kept m m'' := by
  intro k timer hk
  obtain ⟨timer', hk', hmark⟩ := h k timer hk
  obtain ⟨timer'', hk'', hmark'⟩ := h' k timer' hk'
  exact ⟨timer'', hk'', hmark.trans hmark'⟩

theorem kept_mark (m : TimerMap Fp) (k : ℤ) : Kept m (m.modify k ETimer.mark) := by
  intro j timer hj
  rw [OrderedMap.find?_modify, hj]
  split_ifs
  · exact ⟨timer.mark, rfl, Or.inr rfl⟩
  · exact ⟨timer, rfl, ETimer.UpToMark.refl timer⟩

theorem kept_insert (m : TimerMap Fp) (k : ℤ) (v : ETimer Fp) : Kept m (m.insert k v) := by
  intro j timer hj
  refine ⟨timer, ?_, ETimer.UpToMark.refl timer⟩
  rw [OrderedMap.find?_insert]
  split_ifs with hk
  · rw [← hk, hj, Option.getD_some]
  · exact hj

end Kept

namespace TimerThread

variable {g : TimerThread Fp} {tab tab' : Tab}

theorem timers_setTimers_eq (m : TimerMap Fp) :
    (g.setTimers tab m).timers tab' = if tab' = tab then m else g.timers tab' :=
  Function.update_apply g.timers tab m tab'

end TimerThread

namespace Pass

variable {o : Outside Fp} {p : Pass Fp} {tab : Tab} {k : ℤ} {timer : ETimer Fp}

theorem timers_unRegister (id : ℤ) (p : Pass Fp) (tab : Tab) :
    ((p.unRegister id).engine.timers tab = p.engine.timers tab ∨
      (p.unRegister id).engine.timers tab = (p.engine.timers tab).modify id ETimer.mark) ∧
    (p.unRegister id).readings = p.readings ∧ (p.unRegister id).visits = p.visits ∧
      (p.unRegister id).called = p.called := by
  rw [unRegister]
  have hmark : ∀ tab', (p.engine.mark tab' id).timers tab = p.engine.timers tab ∨
      (p.engine.mark tab' id).timers tab = (p.engine.timers tab).modify id ETimer.mark := by
    intro tab'
    rw [TimerThread.mark, TimerThread.timers_setTimers_eq]
    split_ifs with h
    · exact Or.inr (by rw [h])
    · exact Or.inl rfl
  split_ifs
  · exact ⟨hmark _, rfl, rfl, rfl⟩
  · exact ⟨hmark _, rfl, rfl, rfl⟩
  · exact ⟨Or.inl rfl, rfl, rfl, rfl⟩

theorem timers_register (unit : IntervalUnit) (runOnce : Bool) (i : Int32) (fp : Fp)
    (p : Pass Fp) (tab : Tab) :
    (p.register o unit runOnce i fp).engine.timers tab =
      if tab = o.place (p.engine.curTimerId + 1) then
        (p.engine.timers tab).insert (p.engine.curTimerId + 1)
          ((ETimer.declare runOnce (p.engine.curTimerId + 1) fp).opened unit i fp
            (o.clock p.readings))
      else p.engine.timers tab := by
  rw [register, TimerThread.insert, TimerThread.timers_setTimers_eq, ETimer.opened_timerId]
  split_ifs with h
  · rw [h]
    rfl
  · rfl

theorem apply_kept (op : CallbackOp Fp) (p : Pass Fp) (tab : Tab) :
    Kept (p.engine.timers tab) ((p.apply o op).engine.timers tab) := by
  cases op with
  | register unit runOnce i fp =>
      rw [apply, timers_register]
      split_ifs
      · exact kept_insert _ _ _
      · exact Kept.refl _
  | unRegister id =>
      rcases (timers_unRegister id p tab).1 with h | h
      · rw [apply, h]
        exact Kept.refl _
      · rw [apply, h]
        exact kept_mark _ _

theorem apply_log (op : CallbackOp Fp) (p : Pass Fp) :
    p.readings ≤ (p.apply o op).readings ∧ (p.apply o op).visits = p.visits ∧
      (p.apply o op).called = p.called := by
  cases op with
  | register unit runOnce i fp => exact ⟨Nat.le_succ _, rfl, rfl⟩
  | unRegister id =>
      obtain ⟨-, hreadings, hvisits, hcalled⟩ := timers_unRegister id p .timers1
      exact ⟨hreadings.ge, hvisits, hcalled⟩

theorem foldl_apply (ops : List (CallbackOp Fp)) (p : Pass Fp) :
    (∀ tab, Kept (p.engine.timers tab) ((ops.foldl (apply o) p).engine.timers tab)) ∧
      p.readings ≤ (ops.foldl (apply o) p).readings ∧
      (ops.foldl (apply o) p).visits = p.visits ∧
      (ops.foldl (apply o) p).called = p.called := by
  induction ops generalizing p with
  | nil => exact ⟨fun tab => Kept.refl _, le_rfl, rfl, rfl⟩
  | cons op ops ih =>
      obtain ⟨hkept, hreadings, hvisits, hcalled⟩ := ih (p.apply o op)
      obtain ⟨hreadings', hvisits', hcalled'⟩ := apply_log (o := o) op p
      exact ⟨fun tab => (apply_kept op p tab).trans (hkept tab), hreadings'.trans hreadings,
        hvisits.trans hvisits', hcalled.trans hcalled'⟩

/-! ## What a turn does -/

theorem turn_of_marked (h : (p.engine.timers tab).find? k = some timer)
    (hmark : timer.needDelete = true) :
    p.turn o tab k = some ((p.visit tab k timer).erase tab k, (p.engine.timers tab).next? k) := by
  rw [turn, h, Option.bind_some, if_pos hmark]

theorem turn_of_early (h : (p.engine.timers tab).find? k = some timer)
    (hmark : timer.needDelete = false) (hdue : timer.due o.countTick (o.clock p.readings) = false) :
    p.turn o tab k =
      some (((p.visit tab k timer).getClock o).2, (p.engine.timers tab).next? k) := by
  rw [turn, h, Option.bind_some, if_neg (Bool.eq_false_iff.mp hmark)]
  exact if_neg (Bool.eq_false_iff.mp hdue)

/-- The state in which the callback of a turn returns, before the return is put down. -/
def ran (o : Outside Fp) (tab : Tab) (k : ℤ) (timer : ETimer Fp) (p : Pass Fp) : Pass Fp :=
  (o.calls p.called.length timer.fp).foldl (apply o) ((p.visit tab k timer).getClock o).2

/-- The state at the end of a turn whose callback was called, an expired entry not yet
erased. -/
def fired (o : Outside Fp) (tab : Tab) (k : ℤ) (timer : ETimer Fp) (p : Pass Fp) : Pass Fp :=
  (((p.visit tab k timer).getClock o).2.callback o tab k timer.fp).rearm o tab k

theorem timers_fired (o : Outside Fp) (tab : Tab) (k : ℤ) (timer : ETimer Fp) (p : Pass Fp)
    (tab' : Tab) :
    (p.fired o tab k timer).engine.timers tab' =
      if tab' = tab then ((p.ran o tab k timer).engine.timers tab).modify k
        (ETimer.rearm (o.clock (p.ran o tab k timer).readings))
      else (p.ran o tab k timer).engine.timers tab' :=
  TimerThread.timers_setTimers_eq _

theorem log_fired (o : Outside Fp) (tab : Tab) (k : ℤ) (timer : ETimer Fp) (p : Pass Fp) :
    p.readings < (p.ran o tab k timer).readings ∧
      (p.fired o tab k timer).readings = (p.ran o tab k timer).readings + 1 ∧
      (p.fired o tab k timer).visits = p.visits ++ [⟨tab, k, timer, p.readings⟩] ∧
      (p.fired o tab k timer).called =
        p.called ++ [⟨tab, k, timer.fp, (p.ran o tab k timer).readings⟩] := by
  obtain ⟨-, hreadings, hvisits, hcalled⟩ :=
    foldl_apply (o := o) (o.calls p.called.length timer.fp) ((p.visit tab k timer).getClock o).2
  exact ⟨hreadings, rfl, hvisits, congrArg (· ++ _) hcalled⟩

theorem find?_ran (o : Outside Fp) (h : (p.engine.timers tab).find? k = some timer) :
    ∃ timer', timer.UpToMark timer' ∧
      ((p.ran o tab k timer).engine.timers tab).find? k = some timer' := by
  obtain ⟨hkept, -⟩ := foldl_apply (o := o) (o.calls p.called.length timer.fp)
    ((p.visit tab k timer).getClock o).2
  obtain ⟨timer', hfind, hupTo⟩ := hkept tab k timer h
  exact ⟨timer', hupTo, hfind⟩

theorem find?_fired {timer' : ETimer Fp}
    (h : ((p.ran o tab k timer).engine.timers tab).find? k = some timer') :
    ((p.fired o tab k timer).engine.timers tab).find? k =
      some (timer'.rearm (o.clock (p.ran o tab k timer).readings)) := by
  rw [timers_fired, if_pos rfl, OrderedMap.find?_modify, if_pos rfl, h, Option.map_some]

theorem turn_of_due (h : (p.engine.timers tab).find? k = some timer)
    (hmark : timer.needDelete = false) (hdue : timer.due o.countTick (o.clock p.readings) = true) :
    p.turn o tab k =
      some (if timer.runOnce then (p.fired o tab k timer).erase tab k else p.fired o tab k timer,
        ((p.fired o tab k timer).engine.timers tab).next? k) := by
  obtain ⟨timer', hupTo, hran⟩ := find?_ran o h
  have hfind := find?_fired hran
  have hrunOnce : (timer'.rearm (o.clock (p.ran o tab k timer).readings)).runOnce =
      timer.runOnce := hupTo.runOnce_eq
  rw [turn, h, Option.bind_some, if_neg (Bool.eq_false_iff.mp hmark), ← hrunOnce]
  refine (if_pos hdue).trans ?_
  change ((((p.fired o tab k timer).engine.timers tab).find? k).map _) = _
  rw [hfind, Option.map_some]
  rfl

end Pass

end Qing
