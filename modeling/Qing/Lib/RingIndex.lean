import Mathlib.Algebra.Order.Group.Nat
import Mathlib.Data.Nat.ModEq

/-!
# Indices into a ring

What is written to a ring of `n` slots and what is read from it are counted on for ever,
and an index is a count modulo `n`. While the counts are less than `n` apart, the indices
tell how they lie to each other: equal indices are equal counts, and the ring is
full when one more would make them equal again.
-/

namespace Qing

namespace RingIndex

variable {n r w : ℕ}

theorem eq_iff (h : r ≤ w) (hn : w < r + n) : w % n = r % n ↔ w = r := by
  constructor
  · intro heq
    obtain ⟨c, hc⟩ := (Nat.modEq_iff_dvd' h).mp heq.symm
    have hlt : n * c < n * 1 := by omega
    have hzero : c = 0 := Nat.lt_one_iff.mp (Nat.lt_of_mul_lt_mul_left hlt)
    rw [hzero, Nat.mul_zero] at hc
    omega
  · rintro rfl
    rfl

theorem full_iff (h : r ≤ w) (hn : w < r + n) : (w + 1) % n = r % n ↔ w + 1 = r + n := by
  constructor
  · intro heq
    by_contra hne
    have heq' := (eq_iff (Nat.le_succ_of_le h) (by omega : w + 1 < r + n)).mp heq
    omega
  · intro heq
    rw [heq, Nat.add_mod_right]

theorem slot_ne (h : r < w) (hn : w < r + n) : w % n ≠ r % n := by
  intro heq
  have := (eq_iff h.le hn).mp heq
  omega

theorem succ_mask (k a : ℕ) : (a % 2 ^ k + 1) &&& (2 ^ k - 1) = (a + 1) % 2 ^ k := by
  rw [Nat.and_two_pow_sub_one_eq_mod, Nat.mod_add_mod]

/-- How far apart the counts are, from the indices: the difference wraps at `2 ^ m`. -/
theorem sub_mask {k m : ℕ} (hk : k ≤ m) (h : r ≤ w) (hn : w < r + 2 ^ k) :
    (w % 2 ^ k + 2 ^ m - r % 2 ^ k) % 2 ^ m &&& (2 ^ k - 1) = w - r := by
  have hpos : 0 < 2 ^ k := Nat.two_pow_pos k
  have hdvd : 2 ^ k ∣ 2 ^ m := Nat.pow_dvd_pow 2 hk
  have hle : 2 ^ k ≤ 2 ^ m := Nat.pow_le_pow_right (by omega) hk
  have hr : r % 2 ^ k < 2 ^ k := Nat.mod_lt r hpos
  rw [Nat.and_two_pow_sub_one_eq_mod, Nat.mod_mod_of_dvd _ hdvd]
  have hmod : (w % 2 ^ k + 2 ^ m - r % 2 ^ k + r) % 2 ^ k = (w - r + r) % 2 ^ k := by
    rw [Nat.sub_add_cancel h]
    calc (w % 2 ^ k + 2 ^ m - r % 2 ^ k + r) % 2 ^ k
        = (w % 2 ^ k + 2 ^ m - r % 2 ^ k + r % 2 ^ k) % 2 ^ k := by rw [Nat.add_mod_mod]
      _ = (w % 2 ^ k + 2 ^ m) % 2 ^ k := by rw [Nat.sub_add_cancel (by omega)]
      _ = w % 2 ^ k := by
          rw [Nat.add_mod, Nat.mod_eq_zero_of_dvd hdvd, Nat.add_zero, Nat.mod_mod, Nat.mod_mod]
  have hcancel : (w % 2 ^ k + 2 ^ m - r % 2 ^ k) % 2 ^ k = (w - r) % 2 ^ k :=
    Nat.ModEq.add_right_cancel' r hmod
  rw [hcancel, Nat.mod_eq_of_lt (by omega)]

end RingIndex

end Qing
