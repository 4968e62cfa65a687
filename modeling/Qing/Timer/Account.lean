import Qing.Timer.Fire

/-!
# The tables and the ids they hold

In every reachable state the two tables have no id in common and keep each timer
under its own id, and between two calls of `Update` they hold exactly the ids that
were inserted and are neither fired out nor cancelled out.
-/

namespace Qing

variable {Fp : Type*} {countTick : UInt64} {g : TimerThread Fp} {loc : ThreadId → Local Fp}
  {a : ℤ → Phase Fp}

theorem Refines.kept_iff_stored (h : Refines g loc a) (k : ℤ) :
    (∃ tab, k ∈ (g.timers tab).keys) ↔ (a k).stored?.isSome := by
  simp only [OrderedMap.mem_keys_iff, Option.isSome_iff_exists, h.stored]
  exact exists_comm

/-- While nobody is in `Update` no timer is firing. -/
theorem Refines.idle (h : Refines g loc a) (hidle : ∀ t, (loc t).update = .outside) (k : ℤ)
    (timer : ETimer Fp) : a k ≠ .firing timer := by
  intro hk
  obtain ⟨t, tab, hfi⟩ := (h.firing k).mp ⟨timer, hk⟩
  rw [Local.firing?, hidle t] at hfi
  cases hfi

/-- The tables are disjoint and well keyed in every reachable state, and hold
exactly the timers they should whenever no `Update` is in progress. -/
theorem tables_account {tr : List (Event Fp)} {s : State Fp}
    (h : (engineSystem Fp countTick).Run tr s) :
    (∀ k, k ∈ (s.engine.timers .timers1).keys → k ∉ (s.engine.timers .timers2).keys) ∧
    (∀ tab k timer, (s.engine.timers tab).find? k = some timer →
      timer.timerId = k ∧ 1 ≤ k ∧ k ≤ s.engine.curTimerId) ∧
    ((∀ t, (s.loc t).update = .outside) → ∀ k,
      ((∃ tab, k ∈ (s.engine.timers tab).keys) ↔
        (∃ e ∈ history tr k, e.isInserted = true) ∧
          ¬ (RunOnce (history tr k) ∧ ∃ e ∈ history tr k, e.isFired = true) ∧
          ¬ MarkedThenVisited (history tr k))) := by
  obtain ⟨a, ha, -, href⟩ := ledger_of_run h
  refine ⟨?_, ?_, ?_⟩
  · intro k h₁ h₂
    rw [OrderedMap.mem_keys_iff] at h₁ h₂
    cases href.disjoint k .timers1 .timers2 h₁ h₂
  · intro tab k timer hfind
    have hk : (a k).stored? = some timer := href.stored_of_find hfind
    refine ⟨(href.stored_eq hk).1, (href.known k).resolve_left ?_⟩
    intro habs
    rw [habs] at hk
    cases hk
  · intro hidle k
    rw [href.kept_iff_stored]
    exact kept_iff (ha.component k) (href.idle hidle k)

/-- After the run of `sampleActs` both timers are gone. -/
theorem tables_account_sample : ¬ ∃ tab, 1 ∈ (sampleState.engine.timers tab).keys := by
  have hidle : ∀ t, (sampleState.loc t).update = .outside := by
    intro t
    cases t with
    | zero => rfl
    | succ t => rfl
  obtain ⟨-, -, hkept⟩ := tables_account run_sampleTrace
  rw [hkept hidle]
  rintro ⟨-, hfired, -⟩
  refine hfired ⟨⟨0, sampleOnce, 1000, List.mem_cons_self, rfl⟩, ?_⟩
  exact ⟨.fired 0 .timers2 1 1005, List.mem_of_getElem? (i := 2) rfl, rfl⟩

end Qing
