import Qing.Timer.Step

/-!
# Who holds which mutex

The mutexes are held exactly as the positions of the threads say
(`locksHeld_of_run`), so two threads are never both in the loop of `Update` over
one table, and no thread is in a table while another one is in its loop.
-/

namespace Qing

variable {Fp : Type*}

/-- Holds of the mutex of `tab` that the code around a position has taken. -/
def CallPc.holds (tab : Tab) : CallPc Fp → ℕ
  | inserting tab' _ | unlocking tab' _ | finding tab' _ | leaving tab' _ _ =>
      if tab' = tab then 1 else 0
  | _ => 0

def UpdatePc.holds (tab : Tab) : UpdatePc → ℕ
  | looping tab' _ | callback tab' _ | rearming tab' _ => if tab' = tab then 1 else 0
  | _ => 0

def Local.holds (tab : Tab) (l : Local Fp) : ℕ :=
  l.update.holds tab + l.call.elim 0 (CallPc.holds tab)

/-- Every mutex is held by whom the positions say, and as often as they say. -/
def LocksHeld (s : State Fp) : Prop :=
  ∀ tab u, (s.engine.mutex tab).holds u = (s.loc u).holds tab

variable {countTick : UInt64} {t : ThreadId} {g g' : TimerThread Fp} {l l' : Local Fp}
  {e : Event Fp}

theorem TimerThread.lock_eq {tab : Tab} (h : g.lock t tab = some g') :
    ∃ m, (g.mutex tab).lock t = some m ∧
      g' = { g with mutex := Function.update g.mutex tab m } := by
  obtain ⟨m, hm, rfl⟩ := Option.map_eq_some_iff.mp h
  exact ⟨m, hm, rfl⟩

theorem TimerThread.unlock_eq {tab : Tab} (h : g.unlock t tab = some g') :
    ∃ m, (g.mutex tab).unlock t = some m ∧
      g' = { g with mutex := Function.update g.mutex tab m } := by
  obtain ⟨m, hm, rfl⟩ := Option.map_eq_some_iff.mp h
  exact ⟨m, hm, rfl⟩

theorem TimerThread.lock_fields {tab : Tab} (h : g.lock t tab = some g') :
    g'.timers = g.timers ∧ g'.curTimerId = g.curTimerId ∧ g'.clock = g.clock := by
  obtain ⟨m, -, rfl⟩ := lock_eq h
  exact ⟨rfl, rfl, rfl⟩

theorem TimerThread.unlock_fields {tab : Tab} (h : g.unlock t tab = some g') :
    g'.timers = g.timers ∧ g'.curTimerId = g.curTimerId ∧ g'.clock = g.clock := by
  obtain ⟨m, -, rfl⟩ := unlock_eq h
  exact ⟨rfl, rfl, rfl⟩

theorem TimerThread.holds_of_lock {tab : Tab} (h : g.lock t tab = some g') (tab' : Tab)
    (u : ThreadId) :
    (g'.mutex tab').holds u =
      (g.mutex tab').holds u + if u = t ∧ tab = tab' then 1 else 0 := by
  obtain ⟨m, hm, rfl⟩ := lock_eq h
  rcases eq_or_ne tab' tab with rfl | hne
  · simp [RecursiveMutex.holds_of_lock hm]
  · simp [hne, hne.symm]

theorem TimerThread.holds_of_unlock {tab : Tab} (h : g.unlock t tab = some g') (tab' : Tab)
    (u : ThreadId) :
    (g.mutex tab').holds u =
      (g'.mutex tab').holds u + if u = t ∧ tab = tab' then 1 else 0 := by
  obtain ⟨m, hm, rfl⟩ := unlock_eq h
  rcases eq_or_ne tab' tab with rfl | hne
  · simp [RecursiveMutex.holds_of_unlock hm]
  · simp [hne, hne.symm]

theorem Local.call_of_canCall (h : l.canCall = true) : l.call = none := by
  simp only [canCall, Bool.and_eq_true, Option.isNone_iff_eq_none] at h
  exact h.1

theorem Step.holds (h : Step countTick t g l g' l' e) (tab : Tab) (u : ThreadId) :
    (g'.mutex tab).holds u + (if u = t then l.holds tab else 0) =
      (g.mutex tab).holds u + if u = t then l'.holds tab else 0 := by
  cases h with
  | take _ _ _ _ hcall | callUnRegister _ hcall =>
      simp [Local.holds, CallPc.holds, Local.call_of_canCall hcall]
  | openTimer _ _ _ _ hc | tryLockFails _ _ hc | insert _ _ hc | returnId _ hc
  | find _ _ hc | miss _ _ hc =>
      simp [Local.holds, CallPc.holds, hc, TimerThread.insert, TimerThread.mark,
        TimerThread.setTimers]
  | tryLockTakes tab' _ _ hc hlock | lockUnRegister tab' _ _ hc hlock =>
      rw [TimerThread.holds_of_lock hlock]
      by_cases hu : u = t <;> simp [Local.holds, CallPc.holds, hc, hu]
      omega
  | unlockInserted tab' _ _ hc hlock | leaveReturn tab' _ _ _ hc hlock
  | leaveMissed _ _ hc hlock =>
      rw [TimerThread.holds_of_unlock hlock tab u]
      by_cases hu : u = t <;> simp [Local.holds, CallPc.holds, hc, hu]
      omega
  | callUpdate hc hu => simp [Local.holds, UpdatePc.holds, hc, hu]
  | lockUpdate tab' _ hc hu hlock =>
      rw [TimerThread.holds_of_lock hlock]
      by_cases hut : u = t <;> simp [Local.holds, UpdatePc.holds, hc, hu, hut]
  | endFirst _ hc hu hlock | endSecond _ hc hu hlock =>
      rw [TimerThread.holds_of_unlock hlock tab u]
      by_cases hut : u = t <;> simp [Local.holds, UpdatePc.holds, hc, hu, hut]
  | erase _ _ _ hc hu | fire _ _ _ _ hc hu | skip _ _ _ _ hc hu | callbackReturn _ _ hc hu =>
      simp [Local.holds, UpdatePc.holds, hc, hu, TimerThread.erase, TimerThread.setTimers]
  | rearm _ _ timer _ hc hu =>
      by_cases hr : timer.runOnce <;>
        simp [Local.holds, UpdatePc.holds, hc, hu, hr, TimerThread.erase, TimerThread.rearm,
          TimerThread.setTimers]

theorem LocksHeld.step {s s' : State Fp} (h : LocksHeld s)
    (hstep : (engineSystem Fp countTick).step s e s') : LocksHeld s' := by
  obtain ⟨t, g', l', hst, rfl⟩ := step_of_system hstep
  intro tab u
  have hu := hst.holds tab u
  rw [h tab u] at hu
  rcases eq_or_ne u t with rfl | hne
  · simp only [if_true] at hu
    rw [State.put_engine, State.put_loc_self]
    omega
  · simpa [hne, State.put_loc_of_ne hne] using hu

theorem locksHeld_of_run {tr : List (Event Fp)} {s : State Fp}
    (h : (engineSystem Fp countTick).Run tr s) : LocksHeld s := by
  refine System.Run.induction (P := fun _ s => LocksHeld s) ?_ ?_ h
  · rintro s rfl tab u
    rfl
  · exact fun tr s e s' _ ih hst => ih.step hst

/-- A table changes only under its mutex. -/
theorem Step.timers_eq (h : Step countTick t g l g' l' e) {tab : Tab}
    (hfree : l.holds tab = 0) : g'.timers tab = g.timers tab := by
  have hset : ∀ (g : TimerThread Fp) (tab' : Tab) (m : TimerMap Fp), tab ≠ tab' →
      (g.setTimers tab' m).timers tab = g.timers tab := by
    intro g tab' m hne
    simp only [TimerThread.setTimers]
    rw [Function.update_of_ne hne]
  cases h with
  | take | openTimer | tryLockFails | returnId | callUnRegister | miss | callUpdate | fire
  | skip | callbackReturn => rfl
  | tryLockTakes _ _ _ _ hlock | lockUnRegister _ _ _ _ hlock | lockUpdate _ _ _ _ hlock =>
      rw [(TimerThread.lock_fields hlock).1]
  | unlockInserted _ _ _ _ hlock | leaveReturn _ _ _ _ _ hlock | leaveMissed _ _ _ hlock
  | endFirst _ _ _ hlock | endSecond _ _ _ hlock =>
      rw [(TimerThread.unlock_fields hlock).1]
  | insert tab' timer hc | find tab' _ hc =>
      apply hset g tab' _
      rintro rfl
      simp [Local.holds, CallPc.holds, hc] at hfree
  | erase tab' k timer hc hu =>
      apply hset g tab' _
      rintro rfl
      simp [Local.holds, UpdatePc.holds, hu] at hfree
  | rearm tab' k timer now hc hu =>
      have hne : tab ≠ tab' := by
        rintro rfl
        simp [Local.holds, UpdatePc.holds, hu] at hfree
      cases timer.runOnce with
      | true => exact (hset _ tab' _ hne).trans (hset { g with clock := now } tab' _ hne)
      | false => exact hset { g with clock := now } tab' _ hne

/-- The entry a thread in a loop of `Update` stands on. -/
def Local.standing? (l : Local Fp) : Option (Tab × ℤ) :=
  match l.update with
  | .looping tab (some k) | .callback tab k | .rearming tab k => some (tab, k)
  | _ => none

theorem Local.holds_of_standing? {tab : Tab} {k : ℤ} (h : l.standing? = some (tab, k)) :
    0 < l.holds tab := by
  unfold standing? at h
  split at h <;> simp_all [Local.holds, UpdatePc.holds]

theorem Local.of_standing?_looping {tab tab' : Tab} {k : ℤ} {it : Option ℤ}
    (hu : l.update = .looping tab it) (h : l.standing? = some (tab', k)) :
    tab = tab' ∧ it = some k := by
  rw [standing?, hu] at h
  cases it with
  | none => cases h
  | some j =>
      obtain ⟨rfl, rfl⟩ := Prod.mk.inj (Option.some.inj h)
      exact ⟨rfl, rfl⟩

theorem LocksHeld.eq_of_holds {s : State Fp} (h : LocksHeld s) {u v : ThreadId} {tab : Tab}
    (hu : 0 < (s.loc u).holds tab) (hv : 0 < (s.loc v).holds tab) : u = v :=
  RecursiveMutex.eq_of_holds (by rwa [h tab u]) (by rwa [h tab v])

theorem LocksHeld.timers_eq {s : State Fp} (h : LocksHeld s)
    (hst : Step countTick t s.engine (s.loc t) g' l' e) {u : ThreadId} (hne : u ≠ t) {tab : Tab}
    (hu : 0 < (s.loc u).holds tab) : g'.timers tab = s.engine.timers tab := by
  apply hst.timers_eq
  by_contra hpos
  exact hne (h.eq_of_holds hu (Nat.pos_of_ne_zero hpos))

end Qing
