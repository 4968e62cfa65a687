import Qing.Timer.Cancel

/-!
# The id `Register` returns

`Register` copies `++_cur_timer_id` into its timer, but returns `_cur_timer_id` as
it is when the call ends. The counter is the number of ids taken so far, so the
value is the id of the call's own timer exactly when no other call took one in
between (`returned_id_iff`).
-/

namespace Qing

variable {Fp : Type*} {countTick : UInt64}

def Event.isTook : Event Fp → Bool
  | took _ _ => true
  | _ => false

/-- The local `timer` of a call of `Register`. -/
def CallPc.timer? : CallPc Fp → Option (ETimer Fp)
  | opening _ _ timer | tryLock _ timer | inserting _ timer | unlocking _ timer
  | returning timer => some timer
  | _ => none

/-- The local `timer` of a call of `Register` that has inserted it. -/
def CallPc.inserted? : CallPc Fp → Option (ETimer Fp)
  | unlocking _ timer | returning timer => some timer
  | _ => none

/-- What the history says about the counter and about the calls of `Register` under
way. -/
structure Counted (tr : List (Event Fp)) (s : State Fp) : Prop where
  counter : s.engine.curTimerId = tr.countP Event.isTook
  took : ∀ t timer, (s.loc t).call.bind CallPc.timer? = some timer →
    .took t timer.timerId ∈ tr
  inserted : ∀ t timer, (s.loc t).call.bind CallPc.inserted? = some timer →
    ∃ tab, .inserted t tab timer ∈ tr

section Step

variable {t : ThreadId} {g g' : TimerThread Fp} {l l' : Local Fp} {e : Event Fp}

theorem Step.counter (hst : Step countTick t g l g' l' e) :
    g'.curTimerId = g.curTimerId + if e.isTook then 1 else 0 := by
  cases hst with
  | take => rfl
  | openTimer | tryLockFails | insert | returnId | callUnRegister | find | miss | callUpdate
  | erase | fire | skip | callbackReturn => exact (add_zero g.curTimerId).symm
  | tryLockTakes _ _ _ _ hlock | lockUnRegister _ _ _ _ hlock | lockUpdate _ _ _ _ hlock =>
      rw [(TimerThread.lock_fields hlock).2.1]
      exact (add_zero g.curTimerId).symm
  | unlockInserted _ _ _ _ hlock | leaveReturn _ _ _ _ _ hlock | leaveMissed _ _ _ hlock
  | endFirst _ _ _ hlock | endSecond _ _ _ hlock =>
      rw [(TimerThread.unlock_fields hlock).2.1]
      exact (add_zero g.curTimerId).symm
  | rearm _ _ timer =>
      cases timer.runOnce <;> exact (add_zero g.curTimerId).symm

theorem Step.timer (hst : Step countTick t g l g' l' e) {timer : ETimer Fp}
    (h : l'.call.bind CallPc.timer? = some timer) :
    e = .took t timer.timerId ∨
      ∃ old, l.call.bind CallPc.timer? = some old ∧ old.timerId = timer.timerId := by
  cases hst with
  | take =>
      obtain rfl := Option.some.inj h
      exact Or.inl rfl
  | openTimer unit i old now hc =>
      obtain rfl := Option.some.inj h
      exact Or.inr ⟨old, by rw [hc]; rfl, (ETimer.opened_timerId unit old i old.fp now).symm⟩
  | tryLockTakes _ old _ hc | tryLockFails _ old hc | insert _ old hc
  | unlockInserted _ old _ hc =>
      obtain rfl := Option.some.inj h
      exact Or.inr ⟨old, by rw [hc]; rfl, rfl⟩
  | returnId | callUnRegister | lockUnRegister | find | miss | leaveReturn | leaveMissed =>
      cases h
  | callUpdate | lockUpdate | endFirst | endSecond | erase | fire | skip | callbackReturn
  | rearm => exact Or.inr ⟨timer, h, rfl⟩

theorem Step.inserted (hst : Step countTick t g l g' l' e) {timer : ETimer Fp}
    (h : l'.call.bind CallPc.inserted? = some timer) :
    (∃ tab, e = .inserted t tab timer) ∨ l.call.bind CallPc.inserted? = some timer := by
  cases hst with
  | insert tab old hc =>
      obtain rfl := Option.some.inj h
      exact Or.inl ⟨tab, rfl⟩
  | unlockInserted tab old g₁ hc =>
      obtain rfl := Option.some.inj h
      exact Or.inr (by rw [hc]; rfl)
  | take | openTimer | tryLockTakes | tryLockFails | returnId | callUnRegister
  | lockUnRegister | find | miss | leaveReturn | leaveMissed => cases h
  | callUpdate | lockUpdate | endFirst | endSecond | erase | fire | skip | callbackReturn
  | rearm => exact Or.inr h

end Step

theorem Counted.step {tr : List (Event Fp)} {s s' : State Fp} {e : Event Fp}
    (h : Counted tr s) (hst : (engineSystem Fp countTick).step s e s') :
    Counted (tr ++ [e]) s' := by
  obtain ⟨t, g', l', hstep, rfl⟩ := step_of_system hst
  refine ⟨?_, ?_, ?_⟩
  · rw [State.put_engine, hstep.counter, h.counter, List.countP_append, List.countP_singleton]
    cases e.isTook <;> simp
  · intro u timer hu
    rw [List.mem_append, List.mem_singleton]
    rcases eq_or_ne u t with rfl | hne
    · rw [State.put_loc_self] at hu
      rcases hstep.timer hu with rfl | ⟨old, hold, hid⟩
      · exact Or.inr rfl
      · rw [← hid]
        exact Or.inl (h.took u old hold)
    · rw [State.put_loc_of_ne hne] at hu
      exact Or.inl (h.took u timer hu)
  · intro u timer hu
    have hold : (s.loc u).call.bind CallPc.inserted? = some timer →
        ∃ tab, .inserted u tab timer ∈ tr ++ [e] := by
      intro hu
      obtain ⟨tab, htab⟩ := h.inserted u timer hu
      exact ⟨tab, List.mem_append_left [e] htab⟩
    rcases eq_or_ne u t with rfl | hne
    · rw [State.put_loc_self] at hu
      rcases hstep.inserted hu with ⟨tab, rfl⟩ | hu
      · exact ⟨tab, List.mem_append_right tr List.mem_cons_self⟩
      · exact hold hu
    · rw [State.put_loc_of_ne hne] at hu
      exact hold hu

theorem counted_of_run {tr : List (Event Fp)} {s : State Fp}
    (h : (engineSystem Fp countTick).Run tr s) : Counted tr s := by
  refine System.Run.induction (P := fun tr s => Counted tr s) ?_ ?_ h
  · rintro s rfl
    exact ⟨rfl, nofun, nofun⟩
  · exact fun tr s e s' _ ih hst => ih.step hst

theorem took_eq {pre post : List (Event Fp)} {t : ThreadId} {k : ℤ} {s : State Fp}
    (h : (engineSystem Fp countTick).Run (pre ++ .took t k :: post) s) :
    k = pre.countP Event.isTook + 1 := by
  obtain ⟨s₁, s₂, hpre, hst, -⟩ := h.cut
  obtain ⟨u, g', l', hstep, -⟩ := step_of_system hst
  rw [← (counted_of_run hpre).counter]
  cases hstep with
  | take => rfl

/-- A call of `Register` returns the id of the timer it inserted exactly when no
other call took an id between its own `++_cur_timer_id` and its return. -/
theorem returned_id_iff {pre post : List (Event Fp)} {t : ThreadId} {timer : ETimer Fp}
    {value : ℤ} {s : State Fp}
    (h : (engineSystem Fp countTick).Run (pre ++ .registerReturned t timer value :: post) s) :
    (∃ tab, .inserted t tab timer ∈ pre) ∧
    (value = timer.timerId ↔ ∃ before since, pre = before ++ .took t timer.timerId :: since ∧
      ∀ e ∈ since, e.isTook = false) := by
  obtain ⟨s₁, s₂, hpre, hst, -⟩ := h.cut
  have hcounted := counted_of_run hpre
  obtain ⟨u, g', l', hstep, -⟩ := step_of_system hst
  cases hstep with
  | returnId _ hc =>
      refine ⟨hcounted.inserted t timer (by rw [hc]; rfl), ?_⟩
      have hvalue : ∀ before since, pre = before ++ .took t timer.timerId :: since →
          s₁.engine.curTimerId = timer.timerId + since.countP Event.isTook := by
        rintro before since rfl
        rw [hcounted.counter, took_eq hpre, List.countP_append, List.countP_cons]
        simp only [Event.isTook, if_true]
        omega
      have hnone : ∀ since : List (Event Fp),
          (∀ e ∈ since, e.isTook = false) ↔ since.countP Event.isTook = 0 := by
        intro since
        simp [List.countP_eq_zero]
      simp only [hnone]
      constructor
      · intro heq
        obtain ⟨before, since, hsplit⟩ :=
          List.mem_iff_append.mp (hcounted.took t timer (by rw [hc]; rfl))
        refine ⟨before, since, hsplit, ?_⟩
        have := hvalue before since hsplit
        omega
      · rintro ⟨before, since, hsplit, hzero⟩
        have := hvalue before since hsplit
        omega

theorem returned_id_iff_sample : (2 : ℤ) = sampleTimer.timerId := by
  have hrun : (engineSystem Unit 1000000).Run (sampleTrace.take 11 ++
      .registerReturned 0 sampleTimer 2 :: sampleTrace.drop 12) sampleState := run_sampleTrace
  refine (returned_id_iff hrun).2.mpr ⟨sampleTrace.take 6, (sampleTrace.drop 7).take 4, rfl, ?_⟩
  decide

/-- Thread 0 takes id 1, thread 1 takes id 2, and thread 0 goes on to its return. -/
def overlapActs : List (ThreadId × Act Unit) :=
  [(0, .register .milsec true 1 ()), (1, .register .milsec true 1 ()), (0, .run 5 true),
    (0, .run 5 true), (0, .run 5 true), (0, .run 5 true), (0, .run 5 true)]

def overlapState : State Unit :=
  (System.exec (State.next 1000000) overlapActs State.init).elim State.init Prod.fst

/-- Thread 0 is told id 2, which is the id of thread 1's timer. -/
theorem not_returned_own_id : ¬ ∀ (tr : List (Event Unit)) (s : State Unit),
    (engineSystem Unit 1000000).Run tr s → ∀ t timer value,
      .registerReturned t timer value ∈ tr → value = timer.timerId := by
  intro hall
  have hexec : System.exec (State.next 1000000) overlapActs State.init =
      some (overlapState, [.took 0 1, .took 1 2, .opened 0 sampleOnce 1000, .internal,
        .inserted 0 .timers2 sampleOnce, .internal, .registerReturned 0 sampleOnce 2]) := rfl
  have hown : (2 : ℤ) = 1 :=
    hall _ _ (System.run_of_exec rfl hexec) 0 sampleOnce 2 (List.mem_of_getElem? (i := 6) rfl)
  cases hown

end Qing
