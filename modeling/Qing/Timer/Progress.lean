import Qing.Timer.Deadlock

/-!
# Every thread can go on, or waits for one that can

Nothing but a mutex that another thread owns keeps a thread from its next step in the
engine: the entry under an iterator is always there, a mutex that the code gives back is
always one that the thread has, and `Register` goes on when a `try_lock` fails. A mutex is
waited for in three places only, so where nobody is deadlocked the waiting leads to a
thread that can go on (`ready_or_deadlocked`).
-/

namespace Qing

variable {Fp : Type*} {countTick : UInt64}

def Local.Busy (l : Local Fp) : Prop := l.update ≠ .outside ∨ l.call.isSome

/-- Thread `t` waits for thread `u`, which owns the mutex it stands at. -/
def State.Waits (s : State Fp) : ThreadId → ThreadId → Prop :=
  RecursiveMutex.WaitsFor (fun u => (s.loc u).wants) s.engine.mutex

/-- Whatever the clock reads next, and though no `try_lock` succeed, thread `t` can take its
next step, or return from the callback that it runs. -/
def State.Ready (countTick : UInt64) (s : State Fp) (t : ThreadId) : Prop :=
  ∀ now, s.engine.clock ≤ now →
    (State.next countTick (t, .run now false) s).isSome ∨
      (State.next countTick (t, .callbackReturn) s).isSome

section Next

variable {t : ThreadId} {now : UInt64} {g : TimerThread Fp}

theorem TimerThread.getClock_isSome (h : g.clock ≤ now) : (g.getClock now).isSome := by
  rw [getClock, if_pos h]
  rfl

theorem TimerThread.lock_isSome {tab : Tab} (h : ((g.mutex tab).lock t).isSome) :
    (g.lock t tab).isSome := by
  rwa [lock, Option.isSome_map]

theorem TimerThread.unlock_isSome {tab : Tab} (h : 0 < (g.mutex tab).holds t) :
    (g.unlock t tab).isSome := by
  rw [unlock, Option.isSome_map]
  exact RecursiveMutex.unlock_isSome h

theorem CallPc.next_isSome {c : CallPc Fp} (hclock : g.clock ≤ now)
    (hunlock : ∀ tab, 0 < c.holds tab → 0 < (g.mutex tab).holds t)
    (hlock : ∀ tab id, c = .locking tab id → ((g.mutex tab).lock t).isSome) :
    (c.next t now false g).isSome := by
  cases c with
  | opening unit i timer =>
      rw [next, Option.isSome_map]
      exact TimerThread.getClock_isSome hclock
  | tryLock | inserting | returning => rfl
  | unlocking tab timer =>
      rw [next, Option.isSome_map]
      exact TimerThread.unlock_isSome (hunlock tab (by simp [holds]))
  | locking tab id =>
      rw [next, Option.isSome_map]
      exact TimerThread.lock_isSome (hlock tab id rfl)
  | finding tab id =>
      rw [next]
      split_ifs <;> rfl
  | leaving tab id found =>
      rw [next, Option.isSome_map]
      exact TimerThread.unlock_isSome (hunlock tab (by simp [holds]))

/-- Only at a lock, and while a callback runs, can the code of `Update` be kept from going
on. -/
theorem UpdatePc.next_isSome {u : UpdatePc} (hclock : g.clock ≤ now) (hin : u ≠ .outside)
    (hback : ∀ tab k, u ≠ .callback tab k)
    (hunlock : ∀ tab, 0 < u.holds tab → 0 < (g.mutex tab).holds t)
    (hlock : ∀ tab, u = .locking tab → ((g.mutex tab).lock t).isSome)
    (hentry : ∀ tab k, u = .looping tab (some k) ∨ u = .rearming tab k →
      ((g.timers tab).find? k).isSome) :
    (u.next countTick t now g).isSome := by
  cases u with
  | outside => exact absurd rfl hin
  | callback tab k => exact absurd rfl (hback tab k)
  | locking tab =>
      rw [next, Option.isSome_map]
      exact TimerThread.lock_isSome (hlock tab rfl)
  | looping tab it =>
      cases it with
      | none =>
          rw [next, Option.isSome_map]
          exact TimerThread.unlock_isSome (hunlock tab (by simp [holds]))
      | some k =>
          obtain ⟨timer, hfind⟩ := Option.isSome_iff_exists.mp (hentry tab k (Or.inl rfl))
          simp only [next, hfind, Option.bind_some]
          by_cases hmark : timer.needDelete = true
          · rw [if_pos hmark]
            rfl
          · rw [if_neg hmark, Option.isSome_map]
            exact TimerThread.getClock_isSome hclock
  | rearming tab k =>
      obtain ⟨timer, hfind⟩ := Option.isSome_iff_exists.mp (hentry tab k (Or.inr rfl))
      simp only [next, hfind, Option.bind_some]
      rw [Option.isSome_map]
      exact TimerThread.getClock_isSome hclock

end Next

section Ready

variable {s : State Fp} {t u : ThreadId}

theorem State.next_isSome_iff (a : Act Fp) :
    (State.next countTick (t, a) s).isSome ↔
      ((s.loc t).next countTick t s.engine a).isSome := by
  rw [State.next, Option.isSome_map]

theorem State.lock_isSome {tab : Tab} (hwants : (s.loc t).wants = some tab)
    (hnot : ∀ u, ¬ s.Waits t u) : ((s.engine.mutex tab).lock t).isSome := by
  rw [Option.isSome_iff_ne_none, ne_eq, RecursiveMutex.lock_eq_none_iff]
  rintro ⟨u, hne, howner⟩
  exact hnot u ⟨tab, hwants, hne, (RecursiveMutex.owner?_eq_some_iff _ u).mp howner⟩

theorem Local.busy_of_holds {l : Local Fp} {tab : Tab} (h : 0 < l.holds tab) : l.Busy := by
  by_contra hidle
  obtain ⟨hu, hc⟩ := not_or.mp hidle
  rw [not_not] at hu
  rw [Option.not_isSome_iff_eq_none] at hc
  simp [holds, hu, hc, UpdatePc.holds] at h

theorem LocksHeld.busy_of_waits (hlocks : LocksHeld s) (h : s.Waits t u) :
    (s.loc u).Busy := by
  obtain ⟨tab, -, -, hholds⟩ := h
  rw [hlocks tab u] at hholds
  exact Local.busy_of_holds hholds

theorem State.ready_of_not_waits {a : ℤ → Phase Fp} (hlocks : LocksHeld s)
    (href : Refines s.engine s.loc a) (hbusy : (s.loc t).Busy) (hnot : ∀ u, ¬ s.Waits t u) :
    s.Ready countTick t := by
  intro now hclock
  have hholds : ∀ tab, 0 < (s.loc t).holds tab → 0 < (s.engine.mutex tab).holds t := by
    intro tab h
    rwa [hlocks tab t]
  rw [next_isSome_iff, next_isSome_iff]
  cases hc : (s.loc t).call with
  | some c =>
      left
      simp only [Local.next, hc, Option.isSome_map]
      refine CallPc.next_isSome hclock (fun tab h => hholds tab ?_) ?_
      · rw [Local.holds, hc, Option.elim_some]
        omega
      · rintro tab id rfl
        exact lock_isSome (by simp [Local.wants, hc]) hnot
  | none =>
      have hin : (s.loc t).update ≠ .outside := by
        rcases hbusy with hin | hcall
        · exact hin
        · rw [hc] at hcall
          cases hcall
      by_cases hback : ∃ tab k, (s.loc t).update = .callback tab k
      · obtain ⟨tab, k, hback⟩ := hback
        right
        simp [Local.next, hc, hback]
      · left
        push Not at hback
        simp only [Local.next, hc, Option.isSome_map]
        refine UpdatePc.next_isSome hclock hin hback (fun tab h => hholds tab ?_) ?_ ?_
        · rw [Local.holds]
          omega
        · intro tab hu
          exact lock_isSome (by simp [Local.wants, hc, hu]) hnot
        · intro tab k hu
          apply href.entry t tab k
          rcases hu with hu | hu <;> simp [Local.standing?, hu]

/-- A thread that waits is held up. -/
theorem State.not_ready_of_waits (h : s.Waits t u) : ¬ s.Ready countTick t := by
  obtain ⟨tab, hwants, hne, hholds⟩ := h
  intro hready
  have hnone : (s.engine.mutex tab).lock t = none := by
    rw [RecursiveMutex.lock_eq_none_iff]
    exact ⟨u, hne, (RecursiveMutex.owner?_eq_some_iff _ u).mpr hholds⟩
  have hnext := hready s.engine.clock (UInt64.le_refl _)
  rw [next_isSome_iff, next_isSome_iff] at hnext
  cases hc : (s.loc t).call with
  | some c =>
      cases c with
      | locking tab' id =>
          obtain rfl : tab' = tab := by simpa [Local.wants, hc] using hwants
          simp [Local.next, hc, CallPc.next, TimerThread.lock, hnone] at hnext
      | opening | tryLock | inserting | unlocking | returning | finding | leaving =>
          simp [Local.wants, hc] at hwants
  | none =>
      cases hu : (s.loc t).update with
      | locking tab' =>
          obtain rfl : tab' = tab := by simpa [Local.wants, hc, hu] using hwants
          simp [Local.next, hc, hu, UpdatePc.next, TimerThread.lock, hnone] at hnext
      | outside | looping | callback | rearming => simp [Local.wants, hc, hu] at hwants

end Ready

instance : Finite Tab := by
  refine Finite.of_injective (fun tab => decide (tab = .timers1)) fun tab tab' h => ?_
  cases tab <;> cases tab' <;> simp_all

/-- In every reachable state a thread in the engine can go on if and only if it waits for no
other one, and unless some threads wait for each other in a cycle, who waits for whom leads
from it to one that can go on. -/
theorem ready_or_deadlocked {tr : List (Event Fp)} {s : State Fp}
    (h : (engineSystem Fp countTick).Run tr s) {t : ThreadId} (hbusy : (s.loc t).Busy) :
    (s.Ready countTick t ↔ ∀ u, ¬ s.Waits t u) ∧
      (s.Deadlocked ∨ ∃ u, Relation.ReflTransGen s.Waits t u ∧ s.Ready countTick u) := by
  obtain ⟨a, -, hlocks, href⟩ := h.simulate ledger_simulation
  refine ⟨⟨fun hready u hwaits => State.not_ready_of_waits hwaits hready,
    State.ready_of_not_waits hlocks href hbusy⟩, ?_⟩
  by_cases hdead : s.Deadlocked
  · exact Or.inl hdead
  · right
    obtain ⟨u, hreach, hlast⟩ := RecursiveMutex.exists_last_of_acyclic (ι := Tab)
      (fun v hcycle => hdead ⟨v, hcycle⟩) t
    refine ⟨u, hreach, State.ready_of_not_waits hlocks href ?_ hlast⟩
    rcases Relation.ReflTransGen.cases_tail hreach with rfl | ⟨v, -, hwaits⟩
    · exact hbusy
    · exact hlocks.busy_of_waits hwaits

/-- Thread 1 waits in its callback, for the callback of thread 0 to return. -/
theorem ready_or_deadlocked_sample :
    (waitingState.Ready 1000000 1 ↔ ∀ u, ¬ waitingState.Waits 1 u) ∧
      (waitingState.Deadlocked ∨
        ∃ u, Relation.ReflTransGen waitingState.Waits 1 u ∧ waitingState.Ready 1000000 u) := by
  have hcalled : (engineSystem Unit 1000000).step callbacksState (.unRegisterCalled 1 2)
      waitingState := ⟨(1, .unRegister 2), rfl⟩
  exact ready_or_deadlocked (run_callbacksTrace.snoc hcalled) (Or.inr rfl)

end Qing
