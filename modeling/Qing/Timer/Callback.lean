import Qing.Timer.Fire
import Qing.Timer.Pass

/-!
# While a callback runs

`Update` calls `timer._fp()` with the mutex of the table held, and goes on to use the
reference `timer` and the iterator after it. `InTurn` says what keeps that sound from the
call of the callback to the reset of its entry: the thread still stands on the entry, and of
the entries that were in the table then none is gone or other than marked. Whatever else
happens to the table meanwhile is done by the callback itself (`callback_alone`).
-/

namespace Qing

variable {Fp : Type*} {countTick : UInt64}

/-- The table an event reads or changes the entries of, and the thread that does. -/
def Event.at? : Event Fp → Option (ThreadId × Tab)
  | inserted t tab _ | marked t tab _ | erased t tab _ | skipped t tab _ _ | fired t tab _ _
  | rearmed t tab _ _ _ => some (t, tab)
  | _ => none

theorem kept_setTimers {g : TimerThread Fp} {tab' : Tab} {m : TimerMap Fp}
    (h : Kept (g.timers tab') m) (tab : Tab) :
    Kept (g.timers tab) ((g.setTimers tab' m).timers tab) := by
  simp only [TimerThread.setTimers]
  rcases eq_or_ne tab tab' with rfl | hne
  · rwa [Function.update_self]
  · rw [Function.update_of_ne hne]
    exact Kept.refl (g.timers tab)

section Step

variable {t u : ThreadId} {g g' : TimerThread Fp} {l l' : Local Fp} {e : Event Fp} {tab : Tab}
  {k : ℤ}

theorem Step.holds_of_at? (h : Step countTick t g l g' l' e) (he : e.at? = some (u, tab)) :
    u = t ∧ 0 < l.holds tab := by
  cases h with
  | take | openTimer | tryLockTakes | tryLockFails | unlockInserted | returnId | callUnRegister
  | lockUnRegister | miss | leaveReturn | leaveMissed | callUpdate | lockUpdate | endFirst
  | endSecond | callbackReturn => cases he
  | insert _ _ hc | find _ _ hc =>
      obtain ⟨rfl, rfl⟩ := Prod.mk.inj (Option.some.inj he)
      simp [Local.holds, CallPc.holds, hc]
  | erase _ _ _ _ hu | fire _ _ _ _ _ hu | skip _ _ _ _ _ hu | rearm _ _ _ _ _ hu =>
      obtain ⟨rfl, rfl⟩ := Prod.mk.inj (Option.some.inj he)
      simp [Local.holds, UpdatePc.holds, hu]

/-- In a turn a thread runs the callback's code, which at most inserts and marks, and then
ends the turn. -/
theorem Step.in_turn (h : Step countTick t g l g' l' e) (hfi : l.firing? = some (tab, k)) :
    (∃ now once, e = .rearmed t tab k now once) ∨
      l'.firing? = some (tab, k) ∧ Kept (g.timers tab) (g'.timers tab) ∧
        (e.at? = some (t, tab) → e.isInserted = true ∨ e.isMarked = true) := by
  cases h with
  | take | openTimer | tryLockFails | returnId | callUnRegister | miss =>
      exact Or.inr ⟨hfi, Kept.refl (g.timers tab), nofun⟩
  | tryLockTakes _ _ _ _ hlock | lockUnRegister _ _ _ _ hlock =>
      rw [(TimerThread.lock_fields hlock).1]
      exact Or.inr ⟨hfi, Kept.refl (g.timers tab), nofun⟩
  | unlockInserted _ _ _ _ hlock | leaveReturn _ _ _ _ _ hlock | leaveMissed _ _ _ hlock =>
      rw [(TimerThread.unlock_fields hlock).1]
      exact Or.inr ⟨hfi, Kept.refl (g.timers tab), nofun⟩
  | insert tab' timer =>
      have hkept := kept_insert (g.timers tab') timer.timerId timer
      exact Or.inr ⟨hfi, kept_setTimers hkept tab, fun _ => Or.inl rfl⟩
  | find tab' j =>
      have hkept := kept_mark (g.timers tab') j
      exact Or.inr ⟨hfi, kept_setTimers hkept tab, fun _ => Or.inr rfl⟩
  | callbackReturn tab' j hc hu =>
      have hsame : some (tab', j) = some (tab, k) := by simpa [Local.firing?, hu] using hfi
      exact Or.inr ⟨hsame, Kept.refl (g.timers tab), nofun⟩
  | rearm tab' j timer now hc hu =>
      have hsame : some (tab', j) = some (tab, k) := by simpa [Local.firing?, hu] using hfi
      obtain ⟨rfl, rfl⟩ := Prod.mk.inj (Option.some.inj hsame)
      exact Or.inl ⟨now, timer.runOnce, rfl⟩
  | callUpdate _ hu | lockUpdate _ _ _ hu | endFirst _ _ hu | endSecond _ _ hu
  | erase _ _ _ _ hu | fire _ _ _ _ _ hu | skip _ _ _ _ _ hu =>
      simp [Local.firing?, hu] at hfi

end Step

/-- Thread `t` is in the turn in which it has called the callback of the entry `k`, the
table having been `m` then. -/
structure InTurn (t : ThreadId) (tab : Tab) (k : ℤ) (m : TimerMap Fp) (s : State Fp) : Prop where
  locks : LocksHeld s
  firing : (s.loc t).firing? = some (tab, k)
  kept : Kept m (s.engine.timers tab)

section InTurn

variable {t : ThreadId} {tab : Tab} {k : ℤ} {m : TimerMap Fp} {s s' : State Fp} {e : Event Fp}

theorem InTurn.holds (h : InTurn t tab k m s) : 0 < (s.loc t).holds tab :=
  Local.holds_of_standing? (Local.standing?_of_firing? h.firing)

theorem InTurn.holds_eq_zero (h : InTurn t tab k m s) {u : ThreadId} (hne : u ≠ t) :
    (s.loc u).holds tab = 0 := by
  by_contra hpos
  exact hne (h.locks.eq_of_holds (Nat.pos_of_ne_zero hpos) h.holds)

theorem InTurn.step (h : InTurn t tab k m s) (hstep : (engineSystem Fp countTick).step s e s') :
    (∃ now once, e = .rearmed t tab k now once) ∨
      InTurn t tab k m s' ∧ ∀ u, e.at? = some (u, tab) →
        u = t ∧ (e.isInserted = true ∨ e.isMarked = true) := by
  have hlocks : LocksHeld s' := h.locks.step hstep
  obtain ⟨v, g', l', hst, rfl⟩ := step_of_system hstep
  rcases eq_or_ne v t with rfl | hne
  · rcases hst.in_turn h.firing with hend | ⟨hfi, hkept, hat⟩
    · exact Or.inl hend
    · refine Or.inr ⟨⟨hlocks, by rwa [State.put_loc_self], h.kept.trans hkept⟩, ?_⟩
      intro u hu
      obtain rfl : u = v := (hst.holds_of_at? hu).1
      exact ⟨rfl, hat hu⟩
  · -- another thread has no part in the table
    have hfree : (s.loc v).holds tab = 0 := h.holds_eq_zero hne
    refine Or.inr ⟨⟨hlocks, ?_, ?_⟩, ?_⟩
    · rw [State.put_loc_of_ne hne.symm]
      exact h.firing
    · rw [State.put_engine, hst.timers_eq hfree]
      exact h.kept
    · intro u hu
      have hpos := (hst.holds_of_at? hu).2
      omega

theorem InTurn.path {tr : List (Event Fp)} (hpath : (engineSystem Fp countTick).Path s tr s')
    (h : InTurn t tab k m s) (hmid : ∀ now once, .rearmed t tab k now once ∉ tr) :
    InTurn t tab k m s' ∧ ∀ e ∈ tr, ∀ u, e.at? = some (u, tab) →
      u = t ∧ (e.isInserted = true ∨ e.isMarked = true) := by
  induction hpath with
  | refl => exact ⟨h, nofun⟩
  | @tail s₁ s₂ tr e _ hst ih =>
      obtain ⟨hturn, hold⟩ := ih fun now once hmem =>
        hmid now once (List.mem_append_left [e] hmem)
      rcases hturn.step hst with ⟨now, once, rfl⟩ | ⟨hturn', hnew⟩
      · exact absurd (List.mem_append_right tr List.mem_cons_self) (hmid now once)
      · refine ⟨hturn', fun v hv => ?_⟩
        rcases List.mem_append.mp hv with hv | hv
        · exact hold v hv
        · rw [List.mem_singleton.mp hv]
          exact hnew

theorem InTurn.start {now : UInt64} (hlocks : LocksHeld s)
    (hstep : (engineSystem Fp countTick).step s (.fired t tab k now) s') :
    InTurn t tab k (s.engine.timers tab) s' ∧
      ∃ timer, (s.engine.timers tab).find? k = some timer ∧ timer.needDelete = false ∧
        timer.due countTick now = true := by
  have hlocks' : LocksHeld s' := hlocks.step hstep
  obtain ⟨v, g', l', hst, rfl⟩ := step_of_system hstep
  cases hst with
  | fire _ _ timer _ hc hu hfind hmark hclock hdue =>
      refine ⟨⟨hlocks', ?_, Kept.refl (s.engine.timers tab)⟩, timer, hfind, hmark, hdue⟩
      rw [State.put_loc_self]
      rfl

end InTurn

/-- From the call of a callback to the end of its turn, in every interleaving: the thread
stands on the entry and nobody else has the table's mutex; whatever is done to the table
the callback's own thread does, and only by inserting and marking; so the entry, and every
other one that was there, stays and is at most marked. -/
theorem callback_alone {pre mid : List (Event Fp)} {t : ThreadId} {tab : Tab} {k : ℤ}
    {now : UInt64} {s₁ s₂ s : State Fp} (hpre : (engineSystem Fp countTick).Run pre s₁)
    (hfire : (engineSystem Fp countTick).step s₁ (.fired t tab k now) s₂)
    (hpath : (engineSystem Fp countTick).Path s₂ mid s)
    (hmid : ∀ now' once, .rearmed t tab k now' once ∉ mid) :
    (s.loc t).firing? = some (tab, k) ∧ (∀ u, u ≠ t → (s.loc u).holds tab = 0) ∧
      (∀ e ∈ mid, ∀ u, e.at? = some (u, tab) →
        u = t ∧ (e.isInserted = true ∨ e.isMarked = true)) ∧
      Kept (s₁.engine.timers tab) (s.engine.timers tab) ∧
      ∃ timer timer', (s₁.engine.timers tab).find? k = some timer ∧
        timer.due countTick now = true ∧ (s.engine.timers tab).find? k = some timer' ∧
        timer.UpToMark timer' := by
  obtain ⟨hstart, timer, hfind, -, hdue⟩ := InTurn.start (locksHeld_of_run hpre) hfire
  obtain ⟨hturn, hevents⟩ := hstart.path hpath hmid
  obtain ⟨timer', hfind', hupTo⟩ := hturn.kept k timer hfind
  exact ⟨hturn.firing, fun u hne => hturn.holds_eq_zero hne, hevents, hturn.kept, timer, timer',
    hfind, hdue, hfind', hupTo⟩

/-- In the run of `sampleActs` the callback cancels the other timer, and its own entry is
still there after that. -/
theorem callback_alone_sample :
    ∃ s, (engineSystem Unit 1000000).Run (sampleTrace.take 22) s ∧
      ∃ timer', (s.engine.timers .timers2).find? 1 = some timer' := by
  have hrun : (engineSystem Unit 1000000).Run (sampleTrace.take 16 ++
      .fired 0 .timers2 1 1005 :: ((sampleTrace.drop 17).take 5 ++ sampleTrace.drop 22))
      sampleState := run_sampleTrace
  obtain ⟨s₁, s₂, hpre, hfire, hrest⟩ := hrun.cut
  obtain ⟨s, hmid, -⟩ := hrest.split
  refine ⟨s, ?_, ?_⟩
  · have hall := (hpre.snoc hfire).append hmid
    exact hall
  · obtain ⟨-, -, -, -, -, timer', -, -, hfind', -⟩ := callback_alone hpre hfire hmid (by
      intro now' once
      simp [sampleTrace, sampleRegistered])
    exact ⟨timer', hfind'⟩

end Qing
