import Qing.Timer.Deadlock

/-!
# One table or two

`OneTable` is the engine with a single map: what a caller may take the two tables
to be. `Serial` are the runs that call one operation after the other, whose
callbacks do nothing and whose clock stands still within an `Update`; the table
each `Register` ends up in is whatever its `try_lock`s answer. After such a run the
two tables together are the reference map, and every `Update` has fired what the
reference fired (`serial_refines`).
-/

namespace Qing

variable {Fp : Type*} {countTick : UInt64}

/-- A call of the engine, with what it reads of the clock. -/
inductive Op (Fp : Type*)
  | register (unit : IntervalUnit) (runOnce : Bool) (intervalTime : Int32) (fp : Fp)
      (now : UInt64)
  | unRegister (timerId : ℤ)
  | update (now : UInt64)

/-! ## The reference engine -/

/-- One turn of the loop of `Update`: what becomes of the entry, and whether its
callback is called. -/
def visit (countTick now : UInt64) (k : ℤ) (timer : ETimer Fp) : Option (ETimer Fp) × List ℤ :=
  if timer.needDelete then (none, [])
  else if timer.due countTick now then
    (if timer.runOnce then none else some (timer.rearm now), [k])
  else (some timer, [])

structure OneTable (Fp : Type*) where
  timers : TimerMap Fp
  curTimerId : ℤ

namespace OneTable

def init : OneTable Fp := ⟨OrderedMap.empty, 0⟩

/-- The three operations over one map, with the ids they fire. -/
def apply (countTick : UInt64) (r : OneTable Fp) : Op Fp → OneTable Fp × List ℤ
  | .register unit runOnce intervalTime fp now =>
      let id := r.curTimerId + 1
      let timer := (ETimer.declare runOnce id fp).opened unit intervalTime fp now
      (⟨r.timers.insert id timer, id⟩, [])
  | .unRegister timerId => (⟨r.timers.modify timerId ETimer.mark, r.curTimerId⟩, [])
  | .update now =>
      let w := OrderedMap.walk (visit countTick now) (r.timers.entries.length + 1) r.timers
        r.timers.first?
      (⟨w.1, r.curTimerId⟩, w.2)

def run (countTick : UInt64) (ops : List (Op Fp)) : OneTable Fp × List (List ℤ) :=
  ops.foldl (fun p op => ((p.1.apply countTick op).1, p.2 ++ [(p.1.apply countTick op).2]))
    (init, [])

theorem run_append (ops : List (Op Fp)) (op : Op Fp) :
    run countTick (ops ++ [op]) =
      (((run countTick ops).1.apply countTick op).1,
        (run countTick ops).2 ++ [((run countTick ops).1.apply countTick op).2]) := by
  rw [run, List.foldl_append]
  rfl

end OneTable

/-! ## Serial runs of the engine -/

def Op.act : Op Fp → Act Fp
  | register unit runOnce intervalTime fp _ => .register unit runOnce intervalTime fp
  | unRegister timerId => .unRegister timerId
  | update _ => .update

/-- What `get_clock` may read during the call. -/
def Op.Reads (now : UInt64) : Op Fp → Prop
  | register _ _ _ _ now' | update now' => now = now'
  | unRegister _ => True

/-- Thread `t` goes on with the call, a callback returning at once. -/
def Op.Continues (op : Op Fp) (t : ThreadId) (a : ThreadId × Act Fp) : Prop :=
  a.1 = t ∧ (a.2 = .callbackReturn ∨ ∃ now acquired, a.2 = .run now acquired ∧ op.Reads now)

def Event.fired? : Event Fp → Option ℤ
  | fired _ _ k _ => some k
  | _ => none

def State.Idle (s : State Fp) : Prop := ∀ u, s.loc u = {}

/-- The engine after calls made one after the other, each with what it fired. -/
inductive Serial (countTick : UInt64) : List (Op Fp × List ℤ) → State Fp → Prop
  | init : Serial countTick [] State.init
  | call {w : List (Op Fp × List ℤ)} {s s' : State Fp} {tr : List (Event Fp)} (op : Op Fp)
      (t : ThreadId) (rest : List (ThreadId × Act Fp)) (h : Serial countTick w s)
      (hrest : ∀ a ∈ rest, op.Continues t a)
      (hexec : System.exec (State.next countTick) ((t, op.act) :: rest) s = some (s', tr))
      (hidle : s'.Idle) :
      Serial countTick (w ++ [(op, tr.filterMap Event.fired?)]) s'

theorem Serial.run {w : List (Op Fp × List ℤ)} {s : State Fp} (h : Serial countTick w s) :
    s.Idle ∧ ∃ tr, (engineSystem Fp countTick).Run tr s := by
  induction h with
  | init => exact ⟨fun _ => rfl, [], State.init, rfl, System.Path.refl _⟩
  | call op t rest _ _ hexec hidle ih =>
      obtain ⟨-, tr, hrun⟩ := ih
      exact ⟨hidle, _, hrun.append (System.exec_path hexec)⟩

section Local

variable {t : ThreadId} {s s' : State Fp} {op : Op Fp} {e : Event Fp}

theorem State.next_eq {a : Act Fp} (h : s.next countTick (t, a) = some (s', e)) :
    ∃ g' l', (s.loc t).next countTick t s.engine a = some (g', l', e) ∧
      s'.engine = g' ∧ s'.loc t = l' := by
  obtain ⟨⟨g', l', e'⟩, hnext, heq⟩ := Option.map_eq_some_iff.mp h
  obtain ⟨rfl, rfl⟩ := Prod.mk.inj heq
  exact ⟨g', l', hnext, rfl, State.put_loc_self s t g' l'⟩

/-- What the code of a thread preserves while it goes on with a call, the call
preserves. -/
theorem call_preserve {Q : TimerThread Fp → Local Fp → List (Event Fp) → Prop}
    (hstep : ∀ g l tr a g' l' e, op.Continues t (t, a) → Q g l tr →
      l.next countTick t g a = some (g', l', e) → Q g' l' (tr ++ [e]))
    {rest : List (ThreadId × Act Fp)} (hrest : ∀ a ∈ rest, op.Continues t a)
    {tr : List (Event Fp)} (hs : Q s.engine (s.loc t) [])
    (hexec : System.exec (State.next countTick) rest s = some (s', tr)) :
    Q s'.engine (s'.loc t) tr := by
  refine System.exec_preserve (P := fun s tr => Q s.engine (s.loc t) tr) ?_ hrest hs hexec
  rintro s tr ⟨u, a⟩ s' e hok hs hnext
  obtain rfl : u = t := hok.1
  obtain ⟨g', l', hlocal, rfl, hl⟩ := State.next_eq hnext
  rw [hl]
  exact hstep _ _ _ a _ _ e hok hs hlocal

end Local

/-! ## One call of `Register` -/

/-- Where a call of `Register` stands, with the tables it has made of `m`. -/
inductive Registering (m : Tab → TimerMap Fp) (unit : IntervalUnit) (i : Int32)
    (d timer : ETimer Fp) : (Tab → TimerMap Fp) → Option (CallPc Fp) → Prop
  | opening : Registering m unit i d timer m (some (.opening unit i d))
  | tryLock (tab : Tab) : Registering m unit i d timer m (some (.tryLock tab timer))
  | inserting (tab : Tab) : Registering m unit i d timer m (some (.inserting tab timer))
  | unlocking (tab : Tab) : Registering m unit i d timer
      (Function.update m tab ((m tab).insert timer.timerId timer)) (some (.unlocking tab timer))
  | returning (tab : Tab) : Registering m unit i d timer
      (Function.update m tab ((m tab).insert timer.timerId timer)) (some (.returning timer))
  | returned (tab : Tab) : Registering m unit i d timer
      (Function.update m tab ((m tab).insert timer.timerId timer)) none

section Calls

variable {t : ThreadId} {g g' : TimerThread Fp} {l l' : Local Fp} {e : Event Fp}
  {m : Tab → TimerMap Fp} {c : CallPc Fp} {c' : Option (CallPc Fp)} {now : UInt64}
  {acquired : Bool}

theorem Registering.next {unit : IntervalUnit} {i : Int32} {d timer : ETimer Fp}
    (h : Registering m unit i d timer g.timers (some c))
    (htimer : timer = d.opened unit i d.fp now)
    (hnext : c.next t now acquired g = some (g', c', e)) :
    Registering m unit i d timer g'.timers c' ∧ g'.curTimerId = g.curTimerId ∧
      e.fired? = none := by
  generalize hm : g.timers = m' at h
  cases h with
  | opening =>
      simp only [CallPc.next, Option.map_eq_some_iff, Prod.mk.injEq] at hnext
      obtain ⟨g₁, hclock, rfl, rfl, rfl⟩ := hnext
      obtain ⟨-, rfl⟩ := TimerThread.getClock_eq_some_iff.mp hclock
      subst hm
      rw [← htimer]
      exact ⟨.tryLock .timers2, rfl, rfl⟩
  | tryLock tab =>
      simp only [CallPc.next] at hnext
      split_ifs at hnext with hacq
      · simp only [Option.map_eq_some_iff, Prod.mk.injEq] at hnext
        obtain ⟨g₁, hlock, rfl, rfl, rfl⟩ := hnext
        obtain ⟨htimers, hcur, -⟩ := TimerThread.lock_fields hlock
        rw [htimers, hm]
        exact ⟨.inserting tab, hcur, rfl⟩
      · obtain ⟨rfl, rfl, rfl⟩ := by simpa using hnext
        rw [hm]
        exact ⟨.tryLock tab.other, rfl, rfl⟩
  | inserting tab =>
      subst hm
      obtain ⟨rfl, rfl, rfl⟩ := by simpa [CallPc.next] using hnext
      exact ⟨.unlocking tab, rfl, rfl⟩
  | unlocking tab =>
      simp only [CallPc.next, Option.map_eq_some_iff, Prod.mk.injEq] at hnext
      obtain ⟨g₁, hlock, rfl, rfl, rfl⟩ := hnext
      obtain ⟨htimers, hcur, -⟩ := TimerThread.unlock_fields hlock
      rw [htimers, hm]
      exact ⟨.returning tab, hcur, rfl⟩
  | returning tab =>
      obtain ⟨rfl, rfl, rfl⟩ := by simpa [CallPc.next] using hnext
      rw [hm]
      exact ⟨.returned tab, rfl, rfl⟩

/-! ## One call of `UnRegister` -/

/-- Where a call of `UnRegister` stands, with the tables it has made of `m`. -/
inductive UnRegistering (m : Tab → TimerMap Fp) (id : ℤ) :
    (Tab → TimerMap Fp) → Option (CallPc Fp) → Prop
  | locking (tab : Tab) (h : tab = .timers1 → (m .timers2).find? id = none) :
      UnRegistering m id m (some (.locking tab id))
  | finding (tab : Tab) (h : tab = .timers1 → (m .timers2).find? id = none) :
      UnRegistering m id m (some (.finding tab id))
  | found (tab : Tab) (h : ((m tab).find? id).isSome) : UnRegistering m id
      (Function.update m tab ((m tab).modify id ETimer.mark)) (some (.leaving tab id true))
  | missed (tab : Tab) (h : tab = .timers1 → (m .timers2).find? id = none)
      (hself : (m tab).find? id = none) : UnRegistering m id m (some (.leaving tab id false))
  | marked (tab : Tab) (h : ((m tab).find? id).isSome) : UnRegistering m id
      (Function.update m tab ((m tab).modify id ETimer.mark)) none
  | absent (h : ∀ tab, (m tab).find? id = none) : UnRegistering m id m none

theorem UnRegistering.next {id : ℤ} (h : UnRegistering m id g.timers (some c))
    (hnext : c.next t now acquired g = some (g', c', e)) :
    UnRegistering m id g'.timers c' ∧ g'.curTimerId = g.curTimerId ∧ e.fired? = none := by
  generalize hm : g.timers = m' at h
  cases h with
  | locking tab h =>
      simp only [CallPc.next, Option.map_eq_some_iff, Prod.mk.injEq] at hnext
      obtain ⟨g₁, hlock, rfl, rfl, rfl⟩ := hnext
      obtain ⟨htimers, hcur, -⟩ := TimerThread.lock_fields hlock
      rw [htimers, hm]
      exact ⟨.finding tab h, hcur, rfl⟩
  | finding tab h =>
      subst hm
      simp only [CallPc.next] at hnext
      split_ifs at hnext with hfound
      · obtain ⟨rfl, rfl, rfl⟩ := by simpa using hnext
        exact ⟨.found tab hfound, rfl, rfl⟩
      · obtain ⟨rfl, rfl, rfl⟩ := by simpa using hnext
        exact ⟨.missed tab h (by simpa using hfound), rfl, rfl⟩
  | found tab h =>
      simp only [CallPc.next, Bool.true_or, if_true, Option.map_eq_some_iff,
        Prod.mk.injEq] at hnext
      obtain ⟨g₁, hlock, rfl, rfl, rfl⟩ := hnext
      obtain ⟨htimers, hcur, -⟩ := TimerThread.unlock_fields hlock
      rw [htimers, hm]
      exact ⟨.marked tab h, hcur, rfl⟩
  | missed tab h hself =>
      simp only [CallPc.next, Option.map_eq_some_iff] at hnext
      obtain ⟨g₁, hlock, hnext⟩ := hnext
      obtain ⟨htimers, hcur, -⟩ := TimerThread.unlock_fields hlock
      cases tab with
      | timers1 =>
          obtain ⟨rfl, rfl, rfl⟩ := by simpa using hnext
          rw [htimers, hm]
          refine ⟨.absent fun tab => ?_, hcur, rfl⟩
          cases tab with
          | timers1 => exact hself
          | timers2 => exact h rfl
      | timers2 =>
          obtain ⟨rfl, rfl, rfl⟩ := by simpa using hnext
          rw [htimers, hm]
          exact ⟨.locking .timers1 fun _ => hself, hcur, rfl⟩

end Calls

/-! ## One call of `Update` -/

/-- The tables when the loop over `tab` starts, and what has been fired by then. -/
def startOfLoop (body : ℤ → ETimer Fp → Option (ETimer Fp) × List ℤ) (m : Tab → TimerMap Fp) :
    Tab → (Tab → TimerMap Fp) × List ℤ
  | .timers1 => (m, [])
  | .timers2 => (Function.update m .timers1 ((m .timers1).filterMap fun k v => (body k v).1),
      (m .timers1).entries.flatMap fun e => (body e.1 e.2).2)

/-- The tables when the loop over `tab` ends, and what has been fired by then. -/
def endOfLoop (body : ℤ → ETimer Fp → Option (ETimer Fp) × List ℤ) (m : Tab → TimerMap Fp) :
    Tab → (Tab → TimerMap Fp) × List ℤ
  | .timers1 => startOfLoop body m .timers2
  | .timers2 => (fun tab => (m tab).filterMap fun k v => (body k v).1,
      ((m .timers1).entries ++ (m .timers2).entries).flatMap fun e => (body e.1 e.2).2)

/-- Where a call of `Update` stands, with the tables it has made of `m` and the ids
it has fired. -/
def Updating (countTick now : UInt64) (m m' : Tab → TimerMap Fp) (out : List ℤ) :
    UpdatePc → Prop
  | .locking tab => (m', out) = startOfLoop (visit countTick now) m tab
  | .looping tab it => ∃ post m₁ out₁, it = post.head?.map Prod.fst ∧
      OrderedMap.Walked (visit countTick now) (m tab) post m₁ out₁ ∧
      m' = Function.update (startOfLoop (visit countTick now) m tab).1 tab m₁ ∧
      out = (startOfLoop (visit countTick now) m tab).2 ++ out₁
  | .callback tab k | .rearming tab k => ∃ timer post m₁ out₁,
      visit countTick now k timer =
        (if timer.runOnce then none else some (timer.rearm now), [k]) ∧
      OrderedMap.Walked (visit countTick now) (m tab) ((k, timer) :: post) m₁ out₁ ∧
      m' = Function.update (startOfLoop (visit countTick now) m tab).1 tab m₁ ∧
      out = (startOfLoop (visit countTick now) m tab).2 ++ (out₁ ++ [k])
  | .outside => (m', out) = endOfLoop (visit countTick now) m .timers2

section Update

variable {t : ThreadId} {g g' : TimerThread Fp} {e : Event Fp} {m : Tab → TimerMap Fp}
  {out : List ℤ} {u u' : UpdatePc} {now : UInt64}

theorem visit_of_marked {k : ℤ} {timer : ETimer Fp} (h : timer.needDelete = true) :
    visit countTick now k timer = (none, []) := by
  rw [visit, if_pos h]

theorem visit_of_due {k : ℤ} {timer : ETimer Fp} (h : timer.needDelete = false)
    (hdue : timer.due countTick now = true) :
    visit countTick now k timer =
      (if timer.runOnce then none else some (timer.rearm now), [k]) := by
  rw [visit, h, if_neg Bool.false_ne_true, if_pos hdue]

theorem visit_of_early {k : ℤ} {timer : ETimer Fp} (h : timer.needDelete = false)
    (hdue : timer.due countTick now = false) :
    visit countTick now k timer = (some timer, []) := by
  rw [visit, h, hdue, if_neg Bool.false_ne_true, if_neg Bool.false_ne_true]

theorem endOfLoop_eq (body : ℤ → ETimer Fp → Option (ETimer Fp) × List ℤ)
    (m : Tab → TimerMap Fp) (tab : Tab) :
    endOfLoop body m tab =
      (Function.update (startOfLoop body m tab).1 tab
        ((m tab).filterMap fun k v => (body k v).1),
        (startOfLoop body m tab).2 ++ (m tab).entries.flatMap fun e => (body e.1 e.2).2) := by
  cases tab with
  | timers1 => rfl
  | timers2 =>
      refine Prod.ext (funext fun tab => ?_) ?_
      · cases tab <;> rfl
      · exact List.flatMap_append

theorem Updating.endLoop {tab : Tab}
    (h : Updating countTick now m g.timers out (.looping tab none)) :
    (g.timers, out) = endOfLoop (visit countTick now) m tab := by
  obtain ⟨post, m₁, out₁, hit, hwalked, hm, hout⟩ := h
  obtain rfl : post = [] := by
    cases post with
    | nil => rfl
    | cons d post => cases hit
  obtain ⟨rfl, rfl⟩ := hwalked.finish
  rw [endOfLoop_eq, hm, hout]

theorem Updating.entry {tab : Tab} {k : ℤ} {timer : ETimer Fp}
    (h : Updating countTick now m g.timers out (.looping tab (some k)))
    (hfind : (g.timers tab).find? k = some timer) :
    ∃ post m₁ out₁,
      OrderedMap.Walked (visit countTick now) (m tab) ((k, timer) :: post) m₁ out₁ ∧
      g.timers = Function.update (startOfLoop (visit countTick now) m tab).1 tab m₁ ∧
      (g.timers tab).next? k = post.head?.map Prod.fst ∧
      out = (startOfLoop (visit countTick now) m tab).2 ++ out₁ := by
  obtain ⟨post, m₁, out₁, hit, hwalked, hm, hout⟩ := h
  have hself : g.timers tab = m₁ := by rw [hm, Function.update_self]
  rw [hself] at hfind ⊢
  cases post with
  | nil => cases hit
  | cons d post =>
      obtain ⟨k', v⟩ := d
      obtain rfl : k = k' := Option.some.inj hit
      obtain rfl : v = timer := Option.some.inj (hwalked.find?.symm.trans hfind)
      exact ⟨post, m₁, out₁, hwalked, hm, hwalked.next?, hout⟩

theorem TimerThread.timers_setTimers {S : Tab → TimerMap Fp} {tab : Tab} {m₁ m₂ : TimerMap Fp}
    (h : g.timers = Function.update S tab m₁) :
    (g.setTimers tab m₂).timers = Function.update S tab m₂ := by
  simp only [setTimers]
  rw [h, Function.update_idem]

/-- A turn of a loop. A timer that is due stays where it is until its callback returns. -/
theorem Updating.next_looping {tab : Tab} {k : ℤ}
    (h : Updating countTick now m g.timers out (.looping tab (some k)))
    (hnext : (UpdatePc.looping tab (some k)).next countTick t now g = some (g', u', e)) :
    Updating countTick now m g'.timers (out ++ e.fired?.toList) u' ∧
      g'.curTimerId = g.curTimerId := by
  simp only [UpdatePc.next, Option.bind_eq_some_iff] at hnext
  obtain ⟨timer, hfind, hnext⟩ := hnext
  obtain ⟨post, m₁, out₁, hwalked, hm, hit, rfl⟩ := h.entry hfind
  have hself : g.timers tab = m₁ := by rw [hm, Function.update_self]
  split_ifs at hnext with hmark hdue
  · obtain ⟨rfl, rfl, rfl⟩ := by simpa using hnext
    have hvisit : visit countTick now k timer = (none, []) := visit_of_marked hmark
    have hstep := hwalked.erase (by rw [hvisit])
    rw [hvisit, List.append_nil] at hstep
    refine ⟨⟨post, m₁.erase k, out₁, hit, hstep, ?_, ?_⟩, rfl⟩
    · rw [← hself]
      exact TimerThread.timers_setTimers hm
    · exact List.append_nil _
  · rw [Bool.not_eq_true] at hmark
    obtain ⟨g₁, hclock, hnext⟩ := Option.map_eq_some_iff.mp hnext
    obtain ⟨-, rfl⟩ := TimerThread.getClock_eq_some_iff.mp hclock
    obtain ⟨rfl, rfl, rfl⟩ := by simpa using hnext
    refine ⟨⟨timer, post, m₁, out₁, visit_of_due hmark hdue, hwalked, hm, ?_⟩, rfl⟩
    exact List.append_assoc _ _ _
  · rw [Bool.not_eq_true] at hmark hdue
    obtain ⟨g₁, hclock, hnext⟩ := Option.map_eq_some_iff.mp hnext
    obtain ⟨-, rfl⟩ := TimerThread.getClock_eq_some_iff.mp hclock
    obtain ⟨rfl, rfl, rfl⟩ := by simpa using hnext
    have hvisit := visit_of_early (k := k) hmark hdue
    have hstep := hwalked.keep (by rw [hvisit])
    rw [hvisit, List.append_nil] at hstep
    exact ⟨⟨post, m₁, out₁, hit, hstep, hm, List.append_nil _⟩, rfl⟩

theorem Updating.next_rearming {tab : Tab} {k : ℤ}
    (h : Updating countTick now m g.timers out (.rearming tab k))
    (hnext : (UpdatePc.rearming tab k).next countTick t now g = some (g', u', e)) :
    Updating countTick now m g'.timers (out ++ e.fired?.toList) u' ∧
      g'.curTimerId = g.curTimerId := by
  obtain ⟨timer, post, m₁, out₁, hvisit, hwalked, hm, rfl⟩ := h
  have hself : g.timers tab = m₁ := by rw [hm, Function.update_self]
  have hfind : (g.timers tab).find? k = some timer := by
    rw [hself]
    exact hwalked.find?
  simp only [UpdatePc.next, hfind, Option.bind_some, Option.map_eq_some_iff,
    Prod.mk.injEq] at hnext
  obtain ⟨g₁, hclock, rfl, rfl, rfl⟩ := hnext
  obtain ⟨-, rfl⟩ := TimerThread.getClock_eq_some_iff.mp hclock
  have hit : (g.timers tab).next? k = post.head?.map Prod.fst := by
    rw [hself]
    exact hwalked.next?
  have hrearm : (({ g with clock := now } : TimerThread Fp).rearm tab k now).timers =
      Function.update (startOfLoop (visit countTick now) m tab).1 tab
        (m₁.modify k (ETimer.rearm now)) := by
    rw [← hself]
    exact TimerThread.timers_setTimers hm
  cases honce : timer.runOnce with
  | true =>
      rw [honce, if_pos rfl] at hvisit
      have hstep := hwalked.erase (by rw [hvisit])
      rw [hvisit] at hstep
      refine ⟨⟨post, m₁.erase k, out₁ ++ [k], hit, hstep, ?_, List.append_nil _⟩, rfl⟩
      rw [← OrderedMap.erase_modify m₁ k (ETimer.rearm now)]
      have hself' : (({ g with clock := now } : TimerThread Fp).rearm tab k now).timers tab =
          m₁.modify k (ETimer.rearm now) := by rw [hrearm, Function.update_self]
      rw [if_pos rfl, TimerThread.erase, hself']
      exact TimerThread.timers_setTimers hrearm
  | false =>
      rw [honce, if_neg Bool.false_ne_true] at hvisit
      have hstep := hwalked.modify (g := ETimer.rearm now) (by rw [hvisit]) rfl
      rw [hvisit] at hstep
      exact ⟨⟨post, _, out₁ ++ [k], hit, hstep, hrearm, List.append_nil _⟩, rfl⟩

theorem Updating.next (h : Updating countTick now m g.timers out u)
    (hnext : u.next countTick t now g = some (g', u', e)) :
    Updating countTick now m g'.timers (out ++ e.fired?.toList) u' ∧
      g'.curTimerId = g.curTimerId := by
  cases u with
  | outside | callback => cases hnext
  | locking tab =>
      simp only [UpdatePc.next, Option.map_eq_some_iff, Prod.mk.injEq] at hnext
      obtain ⟨g₁, hlock, rfl, rfl, rfl⟩ := hnext
      obtain ⟨htimers, hcur, -⟩ := TimerThread.lock_fields hlock
      obtain ⟨hm, rfl⟩ := Prod.mk.inj h
      refine ⟨⟨(m tab).entries, m tab, [], ?_, OrderedMap.Walked.start _ _, ?_, rfl⟩, hcur⟩
      · rw [htimers, hm]
        cases tab <;> rfl
      · rw [htimers, hm]
        cases tab <;> exact (Function.update_eq_self _ _).symm
  | looping tab it =>
      cases it with
      | none =>
          simp only [UpdatePc.next, Option.map_eq_some_iff] at hnext
          obtain ⟨g₁, hlock, hnext⟩ := hnext
          obtain ⟨htimers, hcur, -⟩ := TimerThread.unlock_fields hlock
          have hend := h.endLoop
          cases tab with
          | timers1 =>
              obtain ⟨rfl, rfl, rfl⟩ := by simpa using hnext
              rw [htimers]
              exact ⟨(congrArg _ (List.append_nil out)).trans hend, hcur⟩
          | timers2 =>
              obtain ⟨rfl, rfl, rfl⟩ := by simpa using hnext
              rw [htimers]
              exact ⟨(congrArg _ (List.append_nil out)).trans hend, hcur⟩
      | some k => exact h.next_looping hnext
  | rearming tab k => exact h.next_rearming hnext

end Update

/-! ## What a whole call does -/

section Whole

variable {t : ThreadId} {s s' : State Fp} {op : Op Fp} {rest : List (ThreadId × Act Fp)}
  {tr : List (Event Fp)}

theorem exec_call {P : (Tab → TimerMap Fp) → Option (CallPc Fp) → Prop}
    (hnext : ∀ (g g' : TimerThread Fp) c c' now acquired e, op.Reads now →
      P g.timers (some c) → c.next t now acquired g = some (g', c', e) →
        P g'.timers c' ∧ g'.curTimerId = g.curTimerId ∧ e.fired? = none)
    (hrest : ∀ a ∈ rest, op.Continues t a) (hup : (s.loc t).update = .outside)
    (hat : P s.engine.timers (s.loc t).call)
    (hexec : System.exec (State.next countTick) rest s = some (s', tr)) :
    P s'.engine.timers (s'.loc t).call ∧ s'.engine.curTimerId = s.engine.curTimerId ∧
      tr.filterMap Event.fired? = [] := by
  have hend := call_preserve (Q := fun g l tr => l.update = .outside ∧
    P g.timers l.call ∧ g.curTimerId = s.engine.curTimerId ∧ tr.filterMap Event.fired? = [])
    ?_ hrest ⟨hup, hat, rfl, rfl⟩ hexec
  · exact hend.2
  · rintro g l tr a g' l' e hok ⟨hup, hat, hcur, hfired⟩ hlocal
    rcases hok.2 with rfl | ⟨now, acquired, rfl, hreads⟩
    · cases hc : l.call <;> simp [Local.next, hc, hup] at hlocal
    · cases hc : l.call with
      | none => simp [Local.next, hc, hup, UpdatePc.next] at hlocal
      | some c =>
          simp only [Local.next, hc, Option.map_eq_some_iff, Prod.mk.injEq] at hlocal
          obtain ⟨⟨g₁, c', e₁⟩, hcall, rfl, rfl, rfl⟩ := hlocal
          rw [hc] at hat
          obtain ⟨hat', hcur', hfired'⟩ := hnext g g₁ c c' now acquired e₁ hreads hat hcall
          refine ⟨hup, hat', hcur'.trans hcur, ?_⟩
          rw [List.filterMap_append, hfired]
          simp [hfired']

theorem exec_register {unit : IntervalUnit} {runOnce : Bool} {i : Int32} {fp : Fp}
    {now : UInt64} (hidle : s.loc t = {}) (hidle' : s'.loc t = {})
    (hrest : ∀ a ∈ rest, (Op.register unit runOnce i fp now).Continues t a)
    (hexec : System.exec (State.next countTick) ((t, .register unit runOnce i fp) :: rest) s =
      some (s', tr)) :
    ∃ tab timer, timer = (ETimer.declare runOnce (s.engine.curTimerId + 1) fp).opened unit i fp
        now ∧
      s'.engine.timers = Function.update s.engine.timers tab
        ((s.engine.timers tab).insert timer.timerId timer) ∧
      s'.engine.curTimerId = s.engine.curTimerId + 1 ∧ tr.filterMap Event.fired? = [] := by
  obtain ⟨s₁, e, tr', hnext, hgoes, rfl⟩ := System.exec_cons hexec
  obtain ⟨g', l', hlocal, hg, hl⟩ := State.next_eq hnext
  simp only [Local.next] at hlocal
  split_ifs at hlocal
  simp only [Option.some.injEq, Prod.mk.injEq] at hlocal
  obtain ⟨rfl, rfl, rfl⟩ := hlocal
  have hend := exec_call (P := Registering s.engine.timers unit i
    (ETimer.declare runOnce (s.engine.curTimerId + 1) fp)
    ((ETimer.declare runOnce (s.engine.curTimerId + 1) fp).opened unit i fp now))
    (fun g g' c c' now' acquired e hreads hat hcall => hat.next (by rw [← hreads]; rfl) hcall)
    hrest (by rw [hl, hidle]) (by rw [hl, hg]; exact .opening) hgoes
  obtain ⟨hat, hcur, hfired⟩ := hend
  rw [hidle'] at hat
  generalize hm : s'.engine.timers = m' at hat
  cases hat with
  | returned tab =>
      refine ⟨tab, _, rfl, rfl, ?_, hfired⟩
      rw [hcur, hg]

theorem exec_unRegister {id : ℤ} (hidle : s.loc t = {}) (hidle' : s'.loc t = {})
    (hrest : ∀ a ∈ rest, (Op.unRegister id : Op Fp).Continues t a)
    (hexec : System.exec (State.next countTick) ((t, .unRegister id) :: rest) s =
      some (s', tr)) :
    ((∃ tab, ((s.engine.timers tab).find? id).isSome ∧
        s'.engine.timers = Function.update s.engine.timers tab
          ((s.engine.timers tab).modify id ETimer.mark)) ∨
      (∀ tab, (s.engine.timers tab).find? id = none) ∧ s'.engine.timers = s.engine.timers) ∧
    s'.engine.curTimerId = s.engine.curTimerId ∧ tr.filterMap Event.fired? = [] := by
  obtain ⟨s₁, e, tr', hnext, hgoes, rfl⟩ := System.exec_cons hexec
  obtain ⟨g', l', hlocal, hg, hl⟩ := State.next_eq hnext
  simp only [Local.next] at hlocal
  split_ifs at hlocal
  simp only [Option.some.injEq, Prod.mk.injEq] at hlocal
  obtain ⟨rfl, rfl, rfl⟩ := hlocal
  have hend := exec_call (P := UnRegistering s.engine.timers id)
    (fun g g' c c' now' acquired e _ hat hcall => hat.next hcall)
    hrest (by rw [hl, hidle])
    (by rw [hl, hg]; exact .locking .timers2 fun htab => by cases htab) hgoes
  obtain ⟨hat, hcur, hfired⟩ := hend
  rw [hidle'] at hat
  refine ⟨?_, by rw [hcur, hg], hfired⟩
  generalize hm : s'.engine.timers = m' at hat
  cases hat with
  | marked tab h => exact Or.inl ⟨tab, h, rfl⟩
  | absent h => exact Or.inr ⟨h, rfl⟩

theorem exec_update {now : UInt64} (hidle : s.loc t = {}) (hidle' : s'.loc t = {})
    (hrest : ∀ a ∈ rest, (Op.update now : Op Fp).Continues t a)
    (hexec : System.exec (State.next countTick) ((t, .update) :: rest) s = some (s', tr)) :
    (s'.engine.timers, tr.filterMap Event.fired?) =
        endOfLoop (visit countTick now) s.engine.timers .timers2 ∧
      s'.engine.curTimerId = s.engine.curTimerId := by
  obtain ⟨s₁, e, tr', hnext, hgoes, rfl⟩ := System.exec_cons hexec
  obtain ⟨g', l', hlocal, hg, hl⟩ := State.next_eq hnext
  simp only [Local.next, hidle] at hlocal
  obtain ⟨rfl, rfl, rfl⟩ := by simpa using hlocal
  have hend := call_preserve (Q := fun g l tr => l.call = none ∧
    Updating countTick now s.engine.timers g.timers (tr.filterMap Event.fired?) l.update ∧
      g.curTimerId = s.engine.curTimerId)
    ?_ hrest ⟨by rw [hl], by rw [hl, hg]; rfl, by rw [hg]⟩ hgoes
  · obtain ⟨-, hat, hcur⟩ := hend
    rw [hidle'] at hat
    exact ⟨hat, hcur⟩
  · rintro g l tr a g' l' e hok ⟨hc, hat, hcur⟩ hlocal
    rw [List.filterMap_append]
    rcases hok.2 with rfl | ⟨now', acquired, rfl, rfl⟩
    · cases hu : l.update with
      | callback tab k =>
          obtain ⟨rfl, rfl, rfl⟩ := by simpa [Local.next, hc, hu] using hlocal
          rw [hu] at hat
          have hnone : [(Event.internal : Event Fp)].filterMap Event.fired? = [] := rfl
          rw [hnone, List.append_nil]
          exact ⟨rfl, hat, hcur⟩
      | outside | locking | looping | rearming => simp [Local.next, hc, hu] at hlocal
    · simp only [Local.next, hc, Option.map_eq_some_iff, Prod.mk.injEq] at hlocal
      obtain ⟨⟨g₁, u', e₁⟩, hupdate, rfl, rfl, rfl⟩ := hlocal
      obtain ⟨hat', hcur'⟩ := hat.next hupdate
      refine ⟨rfl, ?_, hcur'.trans hcur⟩
      cases he : e₁.fired? <;> simpa [he] using hat'

end Whole

/-! ## The refinement -/

/-- The map `r` has the entries of both tables. -/
def Unites (m : Tab → TimerMap Fp) (r : TimerMap Fp) : Prop :=
  ∀ k timer, r.find? k = some timer ↔ ∃ tab, (m tab).find? k = some timer

section Unites

variable {m m' : Tab → TimerMap Fp} {r : TimerMap Fp} {k : ℤ}

theorem Unites.find_none (h : Unites m r) (hnone : ∀ tab, (m tab).find? k = none) :
    r.find? k = none := by
  cases hf : r.find? k with
  | none => rfl
  | some timer =>
      obtain ⟨tab, htab⟩ := (h k timer).mp hf
      rw [hnone tab] at htab
      cases htab

theorem Unites.insert (h : Unites m r) {timer : ETimer Fp}
    (hnone : ∀ tab, (m tab).find? timer.timerId = none) (tab : Tab) :
    Unites (Function.update m tab ((m tab).insert timer.timerId timer))
      (r.insert timer.timerId timer) := by
  have hr : r.find? timer.timerId = none := h.find_none hnone
  intro k timer'
  rw [OrderedMap.find?_insert, hr]
  rcases eq_or_ne k timer.timerId with rfl | hne
  · rw [if_pos rfl]
    constructor
    · intro heq
      refine ⟨tab, ?_⟩
      rw [Function.update_self, OrderedMap.find?_insert, if_pos rfl, hnone tab, heq]
    · rintro ⟨tab', hf⟩
      rcases eq_or_ne tab' tab with rfl | htab
      · rwa [Function.update_self, OrderedMap.find?_insert, if_pos rfl, hnone tab'] at hf
      · rw [Function.update_of_ne htab, hnone tab'] at hf
        cases hf
  · rw [if_neg hne, h]
    refine exists_congr fun tab' => ?_
    rcases eq_or_ne tab' tab with rfl | htab
    · rw [Function.update_self, OrderedMap.find?_insert, if_neg hne]
    · rw [Function.update_of_ne htab]

theorem Unites.mark (h : Unites m r) {tab : Tab} (hk : ((m tab).find? k).isSome)
    (hdisj : ∀ tab', ((m tab').find? k).isSome → tab' = tab) :
    Unites (Function.update m tab ((m tab).modify k ETimer.mark)) (r.modify k ETimer.mark) := by
  intro j timer
  rw [OrderedMap.find?_modify]
  rcases eq_or_ne j k with rfl | hne
  · rw [if_pos rfl]
    obtain ⟨old, hold⟩ := Option.isSome_iff_exists.mp hk
    have hr : r.find? j = some old := (h j old).mpr ⟨tab, hold⟩
    rw [hr]
    constructor
    · intro heq
      refine ⟨tab, ?_⟩
      rw [Function.update_self, OrderedMap.find?_modify, if_pos rfl, hold, heq]
    · rintro ⟨tab', hf⟩
      rcases eq_or_ne tab' tab with rfl | htab
      · rwa [Function.update_self, OrderedMap.find?_modify, if_pos rfl, hold] at hf
      · rw [Function.update_of_ne htab] at hf
        exact absurd (hdisj tab' (Option.isSome_of_eq_some hf)) htab
  · rw [if_neg hne, h]
    refine exists_congr fun tab' => ?_
    rcases eq_or_ne tab' tab with rfl | htab
    · rw [Function.update_self, OrderedMap.find?_modify, if_neg hne]
    · rw [Function.update_of_ne htab]

theorem Unites.filterMap (h : Unites m r) (g : ℤ → ETimer Fp → Option (ETimer Fp)) :
    Unites (fun tab => (m tab).filterMap g) (r.filterMap g) := by
  intro k timer
  simp only [OrderedMap.find?_filterMap, Option.bind_eq_some_iff, h k]
  constructor
  · rintro ⟨old, ⟨tab, hold⟩, hg⟩
    exact ⟨tab, old, hold, hg⟩
  · rintro ⟨tab, old, hold, hg⟩
    exact ⟨old, ⟨tab, hold⟩, hg⟩

theorem Unites.entries_perm (h : Unites m r)
    (hdisj : ∀ k, ((m .timers1).find? k).isSome → (m .timers2).find? k = none) :
    r.entries.Perm ((m .timers1).entries ++ (m .timers2).entries) := by
  refine OrderedMap.perm_of_union (fun k timer => ?_) hdisj
  rw [h]
  constructor
  · rintro ⟨tab, hf⟩
    cases tab with
    | timers1 => exact Or.inl hf
    | timers2 => exact Or.inr hf
  · rintro (hf | hf)
    · exact ⟨.timers1, hf⟩
    · exact ⟨.timers2, hf⟩

end Unites

/-- After every serial run the two tables together are the reference map, and every
`Update` has fired what the reference fired. -/
theorem refines_of_serial {w : List (Op Fp × List ℤ)} {s : State Fp}
    (h : Serial countTick w s) :
    Unites s.engine.timers (OneTable.run countTick (w.map Prod.fst)).1.timers ∧
      (OneTable.run countTick (w.map Prod.fst)).1.curTimerId = s.engine.curTimerId ∧
      List.Forall₂ List.Perm (w.map Prod.snd) (OneTable.run countTick (w.map Prod.fst)).2 := by
  induction h with
  | init => exact ⟨fun k timer => by simp [OneTable.run, OneTable.init, State.init,
      TimerThread.init], rfl, List.Forall₂.nil⟩
  | @call w s s' tr op t rest hserial hrest hexec hidle ih =>
      obtain ⟨hunites, hcur, hfired⟩ := ih
      obtain ⟨hidle₀, tr₀, hrun⟩ := hserial.run
      obtain ⟨a, -, -, href⟩ := ledger_of_run hrun
      have hdisj : ∀ k, ((s.engine.timers .timers1).find? k).isSome →
          (s.engine.timers .timers2).find? k = none := by
        intro k hk
        by_contra hsome
        cases href.disjoint k .timers1 .timers2 hk (Option.isSome_iff_ne_none.mpr hsome)
      rw [List.map_append, List.map_append, List.map_singleton, List.map_singleton,
        OneTable.run_append]
      generalize OneTable.run countTick (w.map Prod.fst) = ref at hunites hcur hfired
      suffices hcall : Unites s'.engine.timers (ref.1.apply countTick op).1.timers ∧
          (ref.1.apply countTick op).1.curTimerId = s'.engine.curTimerId ∧
          (tr.filterMap Event.fired?).Perm (ref.1.apply countTick op).2 by
        refine ⟨hcall.1, hcall.2.1, ?_⟩
        exact List.rel_append hfired (List.Forall₂.cons hcall.2.2 List.Forall₂.nil)
      cases op with
      | register unit runOnce i fp now =>
          obtain ⟨tab, timer, htimer, htimers, hcur', hnone⟩ :=
            exec_register (hidle₀ t) (hidle t) hrest hexec
          have hid : timer.timerId = s.engine.curTimerId + 1 := by
            rw [htimer, ETimer.opened_timerId]
            rfl
          have hfresh : ∀ tab, (s.engine.timers tab).find? timer.timerId = none := by
            rw [hid]
            exact href.find_none_of_lt (Int.lt_succ s.engine.curTimerId)
          have happly : ref.1.apply countTick (.register unit runOnce i fp now) =
              (⟨ref.1.timers.insert timer.timerId timer, s.engine.curTimerId + 1⟩, []) := by
            rw [OneTable.apply, hcur, ← htimer, hid]
          rw [happly, htimers, hcur', hnone]
          exact ⟨hunites.insert hfresh tab, rfl, List.Perm.refl []⟩
      | unRegister id =>
          obtain ⟨hcase, hcur', hnone⟩ := exec_unRegister (hidle₀ t) (hidle t) hrest hexec
          rw [hcur', hnone]
          refine ⟨?_, hcur, List.Perm.refl []⟩
          rcases hcase with ⟨tab, hk, htimers⟩ | ⟨habs, htimers⟩
          · rw [htimers]
            exact hunites.mark hk fun tab' hk' => href.disjoint id tab' tab hk' hk
          · have hsame := OrderedMap.modify_of_absent (hunites.find_none habs) ETimer.mark
            rw [htimers, OneTable.apply, hsame]
            exact hunites
      | update now =>
          obtain ⟨hend, hcur'⟩ := exec_update (hidle₀ t) (hidle t) hrest hexec
          obtain ⟨htimers, hfiredNow⟩ := Prod.mk.inj hend
          rw [hcur', hfiredNow, htimers, OneTable.apply, OrderedMap.walk_entries]
          refine ⟨hunites.filterMap _, hcur, ?_⟩
          exact ((hunites.entries_perm hdisj).flatMap_right _).symm

theorem forall₂_perm_of_common {fired fired' ref : List (List ℤ)}
    (h : List.Forall₂ List.Perm fired ref) (h' : List.Forall₂ List.Perm fired' ref) :
    List.Forall₂ List.Perm fired fired' := by
  induction h generalizing fired' with
  | nil =>
      cases h'
      exact List.Forall₂.nil
  | cons hp _ ih =>
      cases h' with
      | cons hq hrest => exact List.Forall₂.cons (hp.trans hq.symm) (ih hrest)

/-- The engine with two tables refines the one with a single map: after every serial
run, whatever tables its timers landed in, the tables together are the reference
map, and every call has fired the same timers as the reference. Two serial runs of
the same calls fire the same timers. -/
theorem serial_refines {w : List (Op Fp × List ℤ)} {s : State Fp} (h : Serial countTick w s) :
    Unites s.engine.timers (OneTable.run countTick (w.map Prod.fst)).1.timers ∧
    List.Forall₂ List.Perm (w.map Prod.snd) (OneTable.run countTick (w.map Prod.fst)).2 ∧
    ∀ w' s', Serial countTick w' s' → w'.map Prod.fst = w.map Prod.fst →
      List.Forall₂ List.Perm (w.map Prod.snd) (w'.map Prod.snd) := by
  obtain ⟨hunites, -, hfired⟩ := refines_of_serial h
  refine ⟨hunites, hfired, fun w' s' h' hops => ?_⟩
  obtain ⟨-, -, hfired'⟩ := refines_of_serial h'
  rw [hops] at hfired'
  exact forall₂_perm_of_common hfired hfired'

/-- Thread `t` going on with a call at the clock reading `now`: `some` is a run of its
code with that answer of `try_lock`, `none` the return of a callback. -/
def goOn (t : ThreadId) (now : UInt64) (answers : List (Option Bool)) :
    List (ThreadId × Act Fp) :=
  answers.map fun b => (t, b.elim .callbackReturn (.run now))

theorem continues_goOn {op : Op Fp} {now : UInt64} (h : op.Reads now) (t : ThreadId)
    (answers : List (Option Bool)) : ∀ a ∈ goOn t now answers, op.Continues t a := by
  intro a ha
  obtain ⟨b, -, rfl⟩ := List.mem_map.mp ha
  cases b with
  | none => exact ⟨rfl, Or.inl rfl⟩
  | some b => exact ⟨rfl, Or.inr ⟨now, b, rfl, h⟩⟩

def sampleRegister : Op Unit := .register .milsec false 1 () 5

def sampleUpdate : Op Unit := .update 1005

/-- A timer is registered while `_timers2` is not to be had. -/
def execRegister : Option (State Unit × List (Event Unit)) :=
  System.exec (State.next 1000000) ((0, sampleRegister.act) :: goOn 0 5
    [some true, some false, some true, some true, some true, some true]) State.init

def afterRegister : State Unit := execRegister.elim State.init Prod.fst

def execUpdate : Option (State Unit × List (Event Unit)) :=
  System.exec (State.next 1000000) ((0, sampleUpdate.act) :: goOn 0 1005
    [some true, some true, none, some true, some true, some true, some true]) afterRegister

def afterUpdate : State Unit := execUpdate.elim State.init Prod.fst

/-- A timer that landed in `_timers1` fires when the reference says. -/
theorem serial_refines_sample :
    (afterUpdate.engine.timers .timers1).keys = [1] ∧
      List.Forall₂ List.Perm [[], [1]]
        (OneTable.run 1000000 [sampleRegister, sampleUpdate]).2 := by
  have hregister : afterRegister.Idle := by
    intro n
    cases n <;> rfl
  have hupdate : afterUpdate.Idle := by
    intro n
    cases n <;> rfl
  have hreads : sampleRegister.Reads 5 := rfl
  have hreads' : sampleUpdate.Reads 1005 := rfl
  have hexec : execRegister = some (afterRegister, execRegister.elim [] Prod.snd) := rfl
  have hexec' : execUpdate = some (afterUpdate, execUpdate.elim [] Prod.snd) := rfl
  have h₁ := Serial.call sampleRegister 0 _ Serial.init (continues_goOn hreads 0 _) hexec
    hregister
  have h₂ := Serial.call sampleUpdate 0 _ h₁ (continues_goOn hreads' 0 _) hexec' hupdate
  exact ⟨rfl, (serial_refines h₂).2.1⟩

end Qing
