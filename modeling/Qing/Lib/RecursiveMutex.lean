import Mathlib.Data.Fintype.Pigeonhole
import Mathlib.Data.Nat.Notation
import Mathlib.Data.Option.Basic
import Mathlib.Logic.Relation
import Mathlib.Tactic.Common

/-!
# Recursive mutexes and waiting cycles

A `RecursiveMutex τ` is free, or held by one thread at some depth of re-entry; a
held mutex without an owner cannot be built. `holds m t` counts the holds thread
`t` has on it, and every operation is described by what it does to that count.

`WaitsFor` is the relation of a thread blocked on a lock that another one owns.
With two locks a cycle in it is always a pair of threads each holding the lock
the other one wants (`exists_crossed_of_cycle`). With finitely many and no cycle, who
waits for whom leads from every thread to one that does not wait (`exists_last_of_acyclic`).
-/

namespace Qing

/-- A recursive mutex: free, or owned with `depth` further holds. -/
inductive RecursiveMutex (τ : Type*)
  | free
  | held (owner : τ) (depth : ℕ)

namespace RecursiveMutex

variable {τ ι : Type*} [DecidableEq τ]

def owner? : RecursiveMutex τ → Option τ
  | free => none
  | held t _ => some t

/-- Taking the mutex: `none` when another thread owns it. -/
def lock (t : τ) : RecursiveMutex τ → Option (RecursiveMutex τ)
  | free => some (held t 0)
  | held u d => if u = t then some (held u (d + 1)) else none

/-- Giving one hold back: `none` when the thread has none. -/
def unlock (t : τ) : RecursiveMutex τ → Option (RecursiveMutex τ)
  | free => none
  | held u 0 => if u = t then some free else none
  | held u (d + 1) => if u = t then some (held u d) else none

/-- How often thread `t` holds the mutex. -/
def holds (m : RecursiveMutex τ) (t : τ) : ℕ :=
  match m with
  | free => 0
  | held u d => if u = t then d + 1 else 0

@[simp] theorem holds_free (t : τ) : (free : RecursiveMutex τ).holds t = 0 := rfl

theorem owner?_eq_some_iff (m : RecursiveMutex τ) (t : τ) :
    m.owner? = some t ↔ 0 < m.holds t := by
  cases m with
  | free => simp [owner?]
  | held u d => by_cases hu : u = t <;> simp [owner?, holds, hu]

theorem eq_of_holds {m : RecursiveMutex τ} {t u : τ} (ht : 0 < m.holds t)
    (hu : 0 < m.holds u) : t = u := by
  rw [← owner?_eq_some_iff] at ht hu
  exact Option.some.inj (ht.symm.trans hu)

theorem lock_eq_none_iff (m : RecursiveMutex τ) (t : τ) :
    m.lock t = none ↔ ∃ u, u ≠ t ∧ m.owner? = some u := by
  cases m with
  | free => simp [lock, owner?]
  | held u d => by_cases hu : u = t <;> simp [lock, owner?, hu]

theorem holds_of_lock {m m' : RecursiveMutex τ} {t : τ} (h : m.lock t = some m') (u : τ) :
    m'.holds u = m.holds u + if u = t then 1 else 0 := by
  cases m with
  | free =>
      obtain rfl := Option.some.inj h
      rcases eq_or_ne u t with rfl | hu
      · simp [holds]
      · simp [holds, hu, hu.symm]
  | held v d =>
      by_cases hv : v = t
      · simp only [lock, hv, if_true, Option.some.injEq] at h
        subst h
        rcases eq_or_ne u t with rfl | hu
        · simp [holds, hv]
        · simp [holds, hv, hu, hu.symm]
      · simp [lock, hv] at h

theorem lock_of_unlock {m m' : RecursiveMutex τ} {t : τ} (h : m.unlock t = some m') :
    m'.lock t = some m := by
  cases m with
  | free => cases h
  | held v d =>
      cases d with
      | zero =>
          rw [unlock] at h
          split_ifs at h with hv
          obtain rfl := Option.some.inj h
          rw [hv]
          rfl
      | succ d =>
          rw [unlock] at h
          split_ifs at h with hv
          obtain rfl := Option.some.inj h
          exact if_pos hv

theorem holds_of_unlock {m m' : RecursiveMutex τ} {t : τ} (h : m.unlock t = some m') (u : τ) :
    m.holds u = m'.holds u + if u = t then 1 else 0 :=
  holds_of_lock (lock_of_unlock h) u

theorem unlock_isSome {m : RecursiveMutex τ} {t : τ} (h : 0 < m.holds t) :
    (m.unlock t).isSome := by
  cases m with
  | free => simp at h
  | held u d =>
      have hu : u = t := by
        by_contra hne
        simp [holds, hne] at h
      cases d <;> simp [unlock, hu]

theorem lock_isSome {m : RecursiveMutex τ} {t : τ} (h : 0 < m.holds t) :
    (m.lock t).isSome := by
  rw [Option.isSome_iff_ne_none, ne_eq, lock_eq_none_iff]
  rintro ⟨u, hne, howner⟩
  rw [owner?_eq_some_iff] at howner
  exact hne (eq_of_holds howner h)

theorem unlock_of_lock {m m' : RecursiveMutex τ} {t : τ} (h : m.lock t = some m') :
    m'.unlock t = some m := by
  cases m with
  | free =>
      obtain rfl := Option.some.inj h
      exact if_pos rfl
  | held u d =>
      rw [lock] at h
      split_ifs at h with hu
      obtain rfl := Option.some.inj h
      exact if_pos hu

theorem lock_isSome_of_lock {m m' : RecursiveMutex τ} {t : τ} (h : m.lock t = some m') :
    (m'.lock t).isSome := by
  apply lock_isSome
  rw [holds_of_lock h, if_pos rfl]
  exact Nat.succ_pos _

/-! ## Waiting cycles -/

/-- Thread `t`, which wants what `wants t` names, is blocked by the owner `u`. -/
def WaitsFor (wants : τ → Option ι) (m : ι → RecursiveMutex τ) (t u : τ) : Prop :=
  ∃ i, wants t = some i ∧ u ≠ t ∧ 0 < (m i).holds u

variable {wants : τ → Option ι} {m : ι → RecursiveMutex τ}

theorem exists_next_of_cycle {t : τ} (h : Relation.TransGen (WaitsFor wants m) t t) :
    ∃ u, WaitsFor wants m t u ∧ Relation.TransGen (WaitsFor wants m) u u := by
  obtain ⟨u, htu, hut⟩ := Relation.TransGen.head'_iff.mp h
  exact ⟨u, htu, Relation.TransGen.tail' hut htu⟩

/-- Among two locks every waiting cycle has two threads each holding what the
other one wants. -/
theorem exists_crossed_of_cycle (htwo : ∀ i j k : ι, i ≠ j → k ≠ j → i = k) {t : τ}
    (h : Relation.TransGen (WaitsFor wants m) t t) :
    ∃ u v i j, i ≠ j ∧ wants u = some j ∧ 0 < (m i).holds u ∧
      wants v = some i ∧ 0 < (m j).holds v := by
  obtain ⟨u, ⟨i, -, -, hu⟩, hcu⟩ := exists_next_of_cycle h
  obtain ⟨v, ⟨j, hwu, hvu, hv⟩, hcv⟩ := exists_next_of_cycle hcu
  obtain ⟨w, ⟨k, hwv, hwv', hw⟩, -⟩ := exists_next_of_cycle hcv
  have hij : i ≠ j := by
    rintro rfl
    exact hvu (eq_of_holds hv hu)
  have hkj : k ≠ j := by
    rintro rfl
    exact hwv' (eq_of_holds hw hv)
  obtain rfl : i = k := htwo i j k hij hkj
  exact ⟨u, v, i, j, hij, hwu, hu, hwv, hv⟩

theorem cycle_of_crossed {u v : τ} {i j : ι} (hne : u ≠ v) (hwu : wants u = some j)
    (hu : 0 < (m i).holds u) (hwv : wants v = some i) (hv : 0 < (m j).holds v) :
    Relation.TransGen (WaitsFor wants m) u u :=
  Relation.TransGen.head ⟨j, hwu, hne.symm, hv⟩ (Relation.TransGen.single ⟨i, hwv, hne, hu⟩)

/-- Among finitely many locks without a waiting cycle, the waiting ends at a thread that waits
for nobody. -/
theorem exists_last_of_acyclic [Finite ι]
    (hacyclic : ∀ t, ¬ Relation.TransGen (WaitsFor wants m) t t) (t : τ) :
    ∃ u, Relation.ReflTransGen (WaitsFor wants m) t u ∧ ∀ v, ¬ WaitsFor wants m u v := by
  by_contra hno
  push Not at hno
  have : Nonempty τ := ⟨t⟩
  choose! next hnext using hno
  have hreach : ∀ n, Relation.ReflTransGen (WaitsFor wants m) t (next^[n] t) := by
    intro n
    induction n with
    | zero => exact Relation.ReflTransGen.refl
    | succ n ih =>
        rw [Function.iterate_succ_apply']
        exact ih.tail (hnext _ ih)
  have hwaits : ∀ n, WaitsFor wants m (next^[n] t) (next^[n + 1] t) := by
    intro n
    rw [Function.iterate_succ_apply']
    exact hnext _ (hreach n)
  have hlater : ∀ n k, Relation.TransGen (WaitsFor wants m) (next^[n] t) (next^[n + k + 1] t) := by
    intro n k
    induction k with
    | zero => exact Relation.TransGen.single (hwaits n)
    | succ k ih => exact ih.tail (hwaits (n + k + 1))
  -- Two of the threads on the way own the same lock, so they are one and the same.
  choose lock _ _ hholds using hwaits
  have hdistinct : ∀ n k, lock n ≠ lock (n + k + 1) := by
    intro n k heq
    have hsame : next^[n + 1] t = next^[n + k + 1 + 1] t :=
      eq_of_holds (heq ▸ hholds n) (hholds (n + k + 1))
    have hcycle := hlater (n + 1) k
    rw [Nat.add_right_comm n 1 k, ← hsame] at hcycle
    exact hacyclic _ hcycle
  obtain ⟨i, j, hne, heq⟩ := Finite.exists_ne_map_eq_of_infinite lock
  rcases Nat.lt_or_gt_of_ne hne with hlt | hlt
  · obtain ⟨k, rfl⟩ := Nat.exists_eq_add_of_lt hlt
    exact hdistinct i k heq
  · obtain ⟨k, rfl⟩ := Nat.exists_eq_add_of_lt hlt
    exact hdistinct j k heq.symm

end RecursiveMutex

end Qing
