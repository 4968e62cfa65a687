import Mathlib.Logic.Relation
import Qing.Timer.Sweep

/-!
# A pass is what a thread alone does

`Pass.update` runs through `Update` in one stretch and without the mutexes. Each of its
parts is a sequence of steps of the engine that one thread takes (`Solo`), if it finds
the two mutexes free or its own, and so a pass that returns is a path of the engine from
the state before it to one with the tables of the pass (`path_of_update`). What is shown
of a pass is in this way shown of a thread of the engine; for the sweeps under callbacks
that cancel this is `path_of_sweep`.
-/

namespace Qing

variable {Fp : Type*} {countTick : UInt64} {t : ThreadId}

/-- The engine with its mutexes in these states. -/
def TimerThread.under (g : TimerThread Fp) (mutex : Tab → RecursiveMutex ThreadId) :
    TimerThread Fp :=
  { g with mutex }

/-- The thread `t` gets from the one place to the other by steps of its own. -/
def Solo (countTick : UInt64) (t : ThreadId) :
    TimerThread Fp × Local Fp → TimerThread Fp × Local Fp → Prop :=
  Relation.ReflTransGen fun x y => ∃ a e, x.2.next countTick t x.1 a = some (y.1, y.2, e)

/-- The thread can take either mutex. -/
def Ready (t : ThreadId) (m : Tab → RecursiveMutex ThreadId) : Prop :=
  ∀ tab, ((m tab).lock t).isSome

section Solo

variable {g g' : TimerThread Fp} {l l' : Local Fp} {x : TimerThread Fp × Local Fp}
  {m : Tab → RecursiveMutex ThreadId} {m₁ : RecursiveMutex ThreadId} {tab : Tab}
  {u u' : UpdatePc} {c : CallPc Fp} {c' : Option (CallPc Fp)} {now : UInt64} {e : Event Fp}

theorem Solo.step {a : Act Fp} (h : l.next countTick t g a = some (g', l', e))
    (hrest : Solo countTick t (g', l') x) : Solo countTick t (g, l) x :=
  Relation.ReflTransGen.head ⟨a, e, h⟩ hrest

theorem Solo.call (now : UInt64) (acquired : Bool)
    (h : c.next t now acquired g = some (g', c', e))
    (hrest : Solo countTick t (g', ⟨u, c'⟩) x) : Solo countTick t (g, ⟨u, some c⟩) x := by
  apply Solo.step (a := .run now acquired) (e := e) _ hrest
  change (c.next t now acquired g).map _ = _
  rw [h]
  rfl

/-- The thread runs on in `Update`. -/
theorem Solo.update (h : u.next countTick t now g = some (g', u', e))
    (hrest : Solo countTick t (g', ⟨u', none⟩) x) : Solo countTick t (g, ⟨u, none⟩) x := by
  apply Solo.step (a := .run now false) (e := e) _ hrest
  change (u.next countTick t now g).map _ = _
  rw [h]
  rfl

theorem lock_under (h : (m tab).lock t = some m₁) :
    (g.under m).lock t tab = some (g.under (Function.update m tab m₁)) := by
  rw [TimerThread.lock, TimerThread.under, h]
  rfl

theorem unlock_under (h : (m tab).lock t = some m₁) :
    (g.under (Function.update m tab m₁)).unlock t tab = some (g.under m) := by
  have hunlock : (g.under (Function.update m tab m₁)).unlock t tab =
      ((Function.update m tab m₁ tab).unlock t).map fun m' =>
        g.under (Function.update (Function.update m tab m₁) tab m') := rfl
  rw [hunlock, Function.update_self, RecursiveMutex.unlock_of_lock h, Option.map_some,
    Function.update_idem, Function.update_eq_self]

theorem Ready.update (hm : Ready t m) (h : (m tab).lock t = some m₁) :
    Ready t (Function.update m tab m₁) := by
  intro tab'
  rw [Function.update_apply]
  split_ifs
  · exact RecursiveMutex.lock_isSome_of_lock h
  · exact hm tab'

end Solo

/-- The clock does not wrap, as the engine takes it. -/
def Outside.Forward (o : Outside Fp) : Prop := ∀ n, o.clock n ≤ o.clock (n + 1)

/-- The clock has not been read beyond the readings to come. -/
def Pass.Timely (o : Outside Fp) (p : Pass Fp) : Prop :=
  o.Forward ∧ p.engine.clock ≤ o.clock p.readings

/-- With its mutexes in the states `m`, the engine gets from the one pass to the other by
steps of the thread `t`, which moves from the one place to the other. The ids that are
taken on the way are at most the last one. -/
structure Alone (o : Outside Fp) (t : ThreadId) (m : Tab → RecursiveMutex ThreadId)
    (x y : Pass Fp × Local Fp) : Prop where
  timely : x.1.Timely o → y.1.Timely o
  curTimerId : x.1.engine.curTimerId ≤ y.1.engine.curTimerId
  solo : x.1.Timely o → y.1.engine.curTimerId ≤ intMax →
    Solo o.countTick t (x.1.engine.under m, x.2) (y.1.engine.under m, y.2)

section Alone

variable {o : Outside Fp} {p p' : Pass Fp} {m : Tab → RecursiveMutex ThreadId} {tab : Tab} {k : ℤ}
  {timer : ETimer Fp} {x y z : Pass Fp × Local Fp}

theorem Alone.refl (x : Pass Fp × Local Fp) : Alone o t m x x :=
  ⟨id, le_rfl, fun _ _ => Relation.ReflTransGen.refl⟩

theorem Alone.trans (h : Alone o t m x y) (h' : Alone o t m y z) : Alone o t m x z where
  timely htime := h'.timely (h.timely htime)
  curTimerId := h.curTimerId.trans h'.curTimerId
  solo htime hmax :=
    (h.solo htime (h'.curTimerId.trans hmax)).trans (h'.solo (h.timely htime) hmax)

theorem getClock_under (h : p.Timely o) :
    (p.engine.under m).getClock (o.clock p.readings) =
      some ((p.getClock o).2.engine.under m) := if_pos h.2

theorem Pass.Timely.getClock (h : p.Timely o) : (p.getClock o).2.Timely o := ⟨h.1, h.1 _⟩

/-! ## What a callback calls -/

theorem alone_register (hm : Ready t m) (unit : IntervalUnit) (runOnce : Bool) (i : Int32)
    (fp : Fp) : Alone o t m (p, ⟨.callback tab k, none⟩)
      (p.register o unit runOnce i fp, ⟨.callback tab k, none⟩) where
  timely htime := htime.getClock
  curTimerId := (Int.lt_succ _).le
  solo htime hmax := by
    let timerId := p.engine.curTimerId + 1
    let timer := ETimer.declare runOnce timerId fp
    let opened := timer.opened unit i fp (o.clock p.readings)
    let taken : Pass Fp := { p with engine := { p.engine with curTimerId := timerId } }
    let read := (taken.getClock o).2
    let registered := p.register o unit runOnce i fp
    obtain ⟨m₁, hlock⟩ := Option.isSome_iff_exists.mp (hm (o.place timerId))
    have hregister : Local.next o.countTick t (p.engine.under m) ⟨.callback tab k, none⟩
        (.register unit runOnce i fp) =
          some (taken.engine.under m, ⟨.callback tab k, some (.opening unit i timer)⟩,
            .took t timerId) := if_pos ⟨rfl, Int.lt_of_add_one_le hmax⟩
    have hopen : (CallPc.opening unit i timer).next t (o.clock p.readings) false
        (taken.engine.under m) =
          some (read.engine.under m, some (.tryLock .timers2 opened),
            .opened t opened (intervalUs unit i)) := by
      rw [CallPc.next, getClock_under (p := taken) htime]
      rfl
    have hlocking : (CallPc.tryLock (o.place timerId) opened).next t 0 true
        (read.engine.under m) =
          some (read.engine.under (Function.update m (o.place timerId) m₁),
            some (.inserting (o.place timerId) opened), .internal) := by
      rw [CallPc.next, if_pos rfl, lock_under hlock]
      rfl
    have hunlocking : (CallPc.unlocking (o.place timerId) opened).next t 0 false
        (registered.engine.under (Function.update m (o.place timerId) m₁)) =
          some (registered.engine.under m, some (.returning opened), .internal) := by
      rw [CallPc.next, unlock_under hlock]
      rfl
    have hrest : Solo o.countTick t
        (read.engine.under m, ⟨.callback tab k, some (.tryLock (o.place timerId) opened)⟩)
        (registered.engine.under m, ⟨.callback tab k, none⟩) :=
      Solo.call _ _ hlocking (Solo.call 0 false rfl
        (Solo.call _ _ hunlocking (Solo.call 0 false rfl
          Relation.ReflTransGen.refl)))
    refine Solo.step hregister (Solo.call _ _ hopen ?_)
    cases hplace : o.place timerId with
    | timers1 =>
        rw [hplace] at hrest
        exact Solo.call 0 false rfl hrest
    | timers2 =>
        rw [hplace] at hrest
        exact hrest

theorem solo_find {g : TimerThread Fp} {u : UpdatePc} {tab : Tab} {id : ℤ} {found : Bool}
    (hm : Ready t m) (hfound : ((g.timers tab).find? id).isSome = found) :
    Solo o.countTick t (g.under m, ⟨u, some (.locking tab id)⟩)
      ((if found then g.mark tab id else g).under m,
        ⟨u, if found || tab = .timers1 then none else some (.locking .timers1 id)⟩) := by
  obtain ⟨m₁, hlock⟩ := Option.isSome_iff_exists.mp (hm tab)
  have hlocking : (CallPc.locking tab id).next t 0 false (g.under m) =
      some (g.under (Function.update m tab m₁), some (.finding tab id), .internal) := by
    rw [CallPc.next, lock_under hlock]
    rfl
  have hfinding : (CallPc.finding tab id).next t 0 false (g.under (Function.update m tab m₁)) =
      some ((if found then g.mark tab id else g).under (Function.update m tab m₁),
        some (.leaving tab id found), if found then .marked t tab id else .internal) := by
    rw [CallPc.next, ← hfound]
    cases hfind : ((g.timers tab).find? id).isSome with
    | true => exact if_pos hfind
    | false => exact if_neg (Bool.eq_false_iff.mp hfind)
  have hleaving : (CallPc.leaving tab id found).next t 0 false
      ((if found then g.mark tab id else g).under (Function.update m tab m₁)) =
        some ((if found then g.mark tab id else g).under m,
          if found || tab = .timers1 then none else some (.locking .timers1 id),
          if found || tab = .timers1 then .unRegisterReturned t id else .internal) := by
    rw [CallPc.next, unlock_under hlock, Option.map_some]
    split_ifs <;> rfl
  exact Solo.call _ _ hlocking (Solo.call _ _ hfinding
    (Solo.call _ _ hleaving Relation.ReflTransGen.refl))

theorem engine_unRegister (id : ℤ) (p : Pass Fp) :
    (p.unRegister id).engine = p.engine ∨
      ∃ tab, (p.unRegister id).engine = p.engine.mark tab id := by
  rw [Pass.unRegister]
  split_ifs
  · exact Or.inr ⟨.timers2, rfl⟩
  · exact Or.inr ⟨.timers1, rfl⟩
  · exact Or.inl rfl

theorem alone_unRegister (hm : Ready t m) (id : ℤ) :
    Alone o t m (p, ⟨.callback tab k, none⟩) (p.unRegister id, ⟨.callback tab k, none⟩) where
  timely htime := by
    obtain ⟨-, hreadings, -⟩ := Pass.timers_unRegister id p .timers1
    rw [Pass.Timely, hreadings]
    rcases engine_unRegister id p with h | ⟨tab', h⟩
    · rwa [h]
    · rwa [h]
  curTimerId := by
    rcases engine_unRegister id p with h | ⟨tab', h⟩
    · exact h ▸ le_rfl
    · exact h ▸ le_rfl
  solo _ _ := by
    have hcall : Local.next o.countTick t (p.engine.under m) ⟨.callback tab k, none⟩
        (.unRegister id) =
          some (p.engine.under m, ⟨.callback tab k, some (.locking .timers2 id)⟩,
            .unRegisterCalled t id) := rfl
    refine Solo.step hcall ?_
    cases hfound₂ : ((p.engine.timers .timers2).find? id).isSome with
    | true =>
        rw [Pass.unRegister, if_pos hfound₂]
        exact solo_find hm hfound₂
    | false =>
        rw [Pass.unRegister, if_neg (Bool.eq_false_iff.mp hfound₂)]
        refine (solo_find hm hfound₂).trans ?_
        cases hfound₁ : ((p.engine.timers .timers1).find? id).isSome with
        | true => exact solo_find hm hfound₁
        | false => exact solo_find hm hfound₁

theorem alone_foldl (hm : Ready t m) (ops : List (CallbackOp Fp)) :
    Alone o t m (p, ⟨.callback tab k, none⟩)
      (ops.foldl (Pass.apply o) p, ⟨.callback tab k, none⟩) := by
  induction ops generalizing p with
  | nil => exact Alone.refl _
  | cons op ops ih =>
      refine Alone.trans ?_ ih
      cases op with
      | register unit runOnce i fp => exact alone_register hm unit runOnce i fp
      | unRegister id => exact alone_unRegister hm id

/-! ## The loops -/

theorem alone_erase (h : (p.engine.timers tab).find? k = some timer)
    (hmark : timer.needDelete = true) :
    Alone o t m (p, ⟨.looping tab (some k), none⟩)
      ((p.visit tab k timer).erase tab k,
        ⟨.looping tab ((p.engine.timers tab).next? k), none⟩) where
  timely htime := htime
  curTimerId := le_rfl
  solo _ _ := by
    have herase : UpdatePc.next o.countTick t 0 (p.engine.under m) (.looping tab (some k)) =
        some ((p.engine.erase tab k).under m, .looping tab ((p.engine.timers tab).next? k),
          .erased t tab k) := by
      change ((p.engine.timers tab).find? k).bind _ = _
      rw [h, Option.bind_some, if_pos hmark]
      rfl
    exact Solo.update herase Relation.ReflTransGen.refl

theorem alone_read (h : (p.engine.timers tab).find? k = some timer)
    (hmark : timer.needDelete = false) :
    Alone o t m (p, ⟨.looping tab (some k), none⟩)
      (((p.visit tab k timer).getClock o).2,
        ⟨if timer.due o.countTick (o.clock p.readings) then .callback tab k
          else .looping tab ((p.engine.timers tab).next? k), none⟩) where
  timely htime := htime.getClock
  curTimerId := le_rfl
  solo htime _ := by
    have hread : UpdatePc.next o.countTick t (o.clock p.readings) (p.engine.under m)
        (.looping tab (some k)) =
          some (((p.visit tab k timer).getClock o).2.engine.under m,
            if timer.due o.countTick (o.clock p.readings) then .callback tab k
              else .looping tab ((p.engine.timers tab).next? k),
            if timer.due o.countTick (o.clock p.readings) then
              .fired t tab k (o.clock p.readings)
            else .skipped t tab k (o.clock p.readings)) := by
      change ((p.engine.timers tab).find? k).bind _ = _
      rw [h, Option.bind_some, if_neg (Bool.eq_false_iff.mp hmark), getClock_under htime,
        Option.map_some]
      split_ifs <;> rfl
    exact Solo.update hread Relation.ReflTransGen.refl

theorem alone_callback (hm : Ready t m) (fp : Fp) :
    Alone o t m (p, ⟨.callback tab k, none⟩)
      (p.callback o tab k fp, ⟨.callback tab k, none⟩) := by
  have h : Alone o t m (p, ⟨.callback tab k, none⟩)
      ((o.calls p.called.length fp).foldl (Pass.apply o) p, ⟨.callback tab k, none⟩) :=
    alone_foldl hm _
  exact ⟨h.timely, h.curTimerId, h.solo⟩

theorem alone_rearm (h : (p.engine.timers tab).find? k = some timer) :
    Alone o t m (p, ⟨.callback tab k, none⟩)
      (if timer.runOnce then (p.rearm o tab k).erase tab k else p.rearm o tab k,
        ⟨.looping tab ((p.engine.timers tab).next? k), none⟩) where
  timely htime := by
    split_ifs
    · exact htime.getClock
    · exact htime.getClock
  curTimerId := by split_ifs <;> exact le_rfl
  solo htime _ := by
    have hreturn : Local.next o.countTick t (p.engine.under m) ⟨.callback tab k, none⟩
        .callbackReturn = some (p.engine.under m, ⟨.rearming tab k, none⟩, .internal) := rfl
    have hrearm : UpdatePc.next o.countTick t (o.clock p.readings) (p.engine.under m)
        (.rearming tab k) =
          some ((if timer.runOnce then (p.rearm o tab k).erase tab k
              else p.rearm o tab k).engine.under m,
            .looping tab ((p.engine.timers tab).next? k),
            .rearmed t tab k (o.clock p.readings) timer.runOnce) := by
      change ((p.engine.timers tab).find? k).bind _ = _
      rw [h, Option.bind_some, getClock_under htime, Option.map_some]
      split_ifs <;> rfl
    exact Solo.step hreturn (Solo.update hrearm Relation.ReflTransGen.refl)

theorem alone_turn (hm : Ready t m) {it : Option ℤ} (h : p.turn o tab k = some (p', it)) :
    Alone o t m (p, ⟨.looping tab (some k), none⟩) (p', ⟨.looping tab it, none⟩) := by
  obtain ⟨timer, hk, -⟩ := Option.bind_eq_some_iff.mp h
  cases hmark : timer.needDelete with
  | true =>
      rw [Pass.turn_of_marked hk hmark] at h
      cases h
      exact alone_erase hk hmark
  | false =>
      have hread := alone_read (o := o) (t := t) (m := m) hk hmark
      cases hdue : timer.due o.countTick (o.clock p.readings) with
      | false =>
          rw [Pass.turn_of_early hk hmark hdue] at h
          cases h
          rwa [hdue] at hread
      | true =>
          obtain ⟨timer', hupTo, hran⟩ := Pass.find?_ran o hk
          have hnext : ((p.fired o tab k timer).engine.timers tab).next? k =
              ((p.ran o tab k timer).engine.timers tab).next? k := by
            apply OrderedMap.next?_eq_of_keys _ (Option.isSome_of_eq_some hran)
            rw [Pass.timers_fired, if_pos rfl, OrderedMap.keys_modify]
          rw [Pass.turn_of_due hk hmark hdue, hnext, ← hupTo.runOnce_eq] at h
          cases h
          rw [hdue] at hread
          exact hread.trans ((alone_callback hm timer.fp).trans (alone_rearm hran))

theorem alone_loop (hm : Ready t m) {n : ℕ} {it : Option ℤ}
    (h : Pass.loop o tab n it p = some p') :
    Alone o t m (p, ⟨.looping tab it, none⟩) (p', ⟨.looping tab none, none⟩) := by
  induction n generalizing it p with
  | zero =>
      cases it with
      | none =>
          cases h
          exact Alone.refl _
      | some k => cases h
  | succ n ih =>
      cases it with
      | none =>
          cases h
          exact Alone.refl _
      | some k =>
          obtain ⟨⟨p₁, it₁⟩, hturn, hloop⟩ := Option.bind_eq_some_iff.mp h
          exact (alone_turn hm hturn).trans (ih hloop)

theorem alone_table (hm : Ready t m) {n : ℕ}
    (h : Pass.loop o tab n (p.engine.timers tab).first? p = some p') :
    Alone o t m (p, ⟨.locking tab, none⟩)
      (p', ⟨match tab with
        | .timers1 => .locking .timers2
        | .timers2 => .outside, none⟩) := by
  obtain ⟨m₁, hlock⟩ := Option.isSome_iff_exists.mp (hm tab)
  have hloop := alone_loop (t := t) (hm.update hlock) h
  refine ⟨hloop.timely, hloop.curTimerId, fun htime hmax => ?_⟩
  have hlocking : UpdatePc.next o.countTick t 0 (p.engine.under m) (.locking tab) =
      some (p.engine.under (Function.update m tab m₁),
        .looping tab (p.engine.timers tab).first?, .internal) := by
    rw [UpdatePc.next, lock_under hlock]
    rfl
  refine Solo.update hlocking ((hloop.solo htime hmax).trans ?_)
  cases tab with
  | timers1 =>
      have hunlock : UpdatePc.next o.countTick t 0
          (p'.engine.under (Function.update m .timers1 m₁)) (.looping .timers1 none) =
            some (p'.engine.under m, .locking .timers2, .internal) := by
        rw [UpdatePc.next, unlock_under hlock]
        rfl
      exact Solo.update hunlock Relation.ReflTransGen.refl
  | timers2 =>
      have hunlock : UpdatePc.next o.countTick t 0
          (p'.engine.under (Function.update m .timers2 m₁)) (.looping .timers2 none) =
            some (p'.engine.under m, .outside, .updateReturned t) := by
        rw [UpdatePc.next, unlock_under hlock]
        rfl
      exact Solo.update hunlock Relation.ReflTransGen.refl

theorem alone_update (hm : Ready t m) {n : ℕ} (h : p.update o n = some p') :
    Alone o t m (p, {}) (p', {}) := by
  obtain ⟨p₁, hloop₁, hloop₂⟩ := Option.bind_eq_some_iff.mp h
  have hrest := (alone_table hm hloop₁).trans (alone_table hm hloop₂)
  refine ⟨hrest.timely, hrest.curTimerId, fun htime hmax => ?_⟩
  have hcall : Local.next o.countTick t (p.engine.under m) {} .update =
      some (p.engine.under m, ⟨.locking .timers1, none⟩, .updateCalled t) := rfl
  exact Solo.step hcall (hrest.solo htime hmax)

end Alone

/-! ## The engine -/

/-- What a thread does alone, it does in the engine, wherever the other threads stand. -/
theorem path_of_solo {x y : TimerThread Fp × Local Fp} (h : Solo countTick t x y)
    (loc : ThreadId → Local Fp) :
    ∃ tr, (engineSystem Fp countTick).Path ⟨x.1, Function.update loc t x.2⟩ tr
      ⟨y.1, Function.update loc t y.2⟩ := by
  induction h with
  | refl => exact ⟨[], System.Path.refl _⟩
  | @tail y z _ hstep ih =>
      obtain ⟨tr, hpath⟩ := ih
      obtain ⟨a, e, hnext⟩ := hstep
      refine ⟨tr ++ [e], System.Path.tail hpath ⟨(t, a), ?_⟩⟩
      rw [State.next]
      dsimp only
      rw [Function.update_self, hnext, Option.map_some, State.put, Function.update_idem]

/-- In a state where a thread is outside of the engine and can take either mutex, the engine
can go on as a pass of that thread does, to the tables the pass ends with; the mutexes and
the other threads are then as they were. -/
theorem path_of_update {o : Outside Fp} {s : State Fp} {n : ℕ} {p : Pass Fp}
    (hloc : s.loc t = {}) (hm : Ready t s.engine.mutex) (hclock : o.Forward)
    (htime : s.engine.clock ≤ o.clock 0) (h : Pass.update o n { engine := s.engine } = some p)
    (hmax : p.engine.curTimerId ≤ intMax) :
    ∃ tr, (engineSystem Fp o.countTick).Path s tr ⟨p.engine.under s.engine.mutex, s.loc⟩ := by
  obtain ⟨tr, hpath⟩ := path_of_solo ((alone_update hm h).solo ⟨hclock, htime⟩ hmax) s.loc
  have hself : Function.update s.loc t {} = s.loc := by rw [← hloc, Function.update_eq_self]
  dsimp only at hpath
  rw [hself] at hpath
  exact ⟨tr, hpath⟩

/-! ## Sweeps of the engine -/

section Sweep

variable {o : Outside Fp} {p p' : Pass Fp} {tab : Tab} {k : ℤ} {it : Option ℤ}

theorem curTimerId_unRegister (id : ℤ) (p : Pass Fp) :
    (p.unRegister id).engine.curTimerId = p.engine.curTimerId := by
  rcases engine_unRegister id p with h | ⟨tab, h⟩
  · rw [h]
  · rw [h]
    rfl

theorem curTimerId_foldl {ops : List (CallbackOp Fp)} (hops : ∀ op ∈ ops, op.Cancels)
    (p : Pass Fp) : (ops.foldl (Pass.apply o) p).engine.curTimerId = p.engine.curTimerId := by
  induction ops generalizing p with
  | nil => rfl
  | cons op ops ih =>
      have hrest := ih (fun op' hop' => hops op' (List.mem_cons_of_mem op hop')) (p.apply o op)
      refine hrest.trans ?_
      cases op with
      | register unit runOnce i fp => exact absurd (hops _ List.mem_cons_self) id
      | unRegister id => exact curTimerId_unRegister id p

theorem curTimerId_turn (ho : o.Cancels) (h : p.turn o tab k = some (p', it)) :
    p'.engine.curTimerId = p.engine.curTimerId := by
  obtain ⟨timer, hk, -⟩ := Option.bind_eq_some_iff.mp h
  cases hmark : timer.needDelete with
  | true =>
      rw [Pass.turn_of_marked hk hmark] at h
      cases h
      rfl
  | false =>
      cases hdue : timer.due o.countTick (o.clock p.readings) with
      | false =>
          rw [Pass.turn_of_early hk hmark hdue] at h
          cases h
          rfl
      | true =>
          have hran : (p.fired o tab k timer).engine.curTimerId = p.engine.curTimerId :=
            curTimerId_foldl (ho p.called.length timer.fp) ((p.visit tab k timer).getClock o).2
          rw [Pass.turn_of_due hk hmark hdue] at h
          cases h
          split_ifs
          · exact hran
          · exact hran

theorem curTimerId_loop (ho : o.Cancels) {n : ℕ} (h : Pass.loop o tab n it p = some p') :
    p'.engine.curTimerId = p.engine.curTimerId := by
  induction n generalizing it p with
  | zero =>
      cases it with
      | none =>
          cases h
          rfl
      | some k => cases h
  | succ n ih =>
      cases it with
      | none =>
          cases h
          rfl
      | some k =>
          obtain ⟨⟨p₁, it₁⟩, hturn, hloop⟩ := Option.bind_eq_some_iff.mp h
          exact (ih hloop).trans (curTimerId_turn ho hturn)

/-- Under callbacks that only call `UnRegister`, the engine can go on as a sweep of the tables
by any thread that can take both mutexes. -/
theorem path_of_sweep (ho : o.Cancels) {s : State Fp} (hloc : s.loc t = {})
    (hm : Ready t s.engine.mutex) (hclock : o.Forward) (htime : s.engine.clock ≤ o.clock 0)
    (hmax : s.engine.curTimerId ≤ intMax) :
    ∃ tr p, (engineSystem Fp o.countTick).Path s tr ⟨p.engine.under s.engine.mutex, s.loc⟩ ∧
      Sweeps o s.engine p := by
  obtain ⟨p', p, hupdate, h₁, h₂⟩ := exists_loops ho s.engine
    (max (s.engine.timers .timers1).keys.length (s.engine.timers .timers2).keys.length) (by
      intro tab
      cases tab with
      | timers1 => exact le_max_left _ _
      | timers2 => exact le_max_right _ _)
  have hcur : p.engine.curTimerId = s.engine.curTimerId := by
    obtain ⟨p₁, hloop₁, hloop₂⟩ := Option.bind_eq_some_iff.mp hupdate
    exact (curTimerId_loop ho hloop₂).trans (curTimerId_loop ho hloop₁)
  obtain ⟨tr, hpath⟩ := path_of_update hloc hm hclock htime hupdate (hcur.trans_le hmax)
  exact ⟨tr, p, hpath, Sweeps.of_loops h₁ h₂⟩

end Sweep

end Qing
