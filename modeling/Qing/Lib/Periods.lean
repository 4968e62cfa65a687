import Mathlib.Data.Int.Notation
import Mathlib.Algebra.Order.Group.Int
import Mathlib.Tactic.Common
import Mathlib.Tactic.Linarith

/-!
# Moments that come once a period

Time is cut into periods of length `p`, and a moment comes `a` after the start of each.
`t / p` is the number of the period of `t`, and a time is before or after a moment as the
two compare by the number of the period first (`moment_le_iff`, `lt_moment_iff`).

Between `l` and `n` either the moment of the period of `l` has come or one of a later
period (`passed_iff`); whether one of a later period has can be told from the numbers of
the two periods and from `n` (`passedLater_iff`).
-/

namespace Qing

namespace Periods

variable {p a k l n : ℤ}

/-- The moment of the period `k`. -/
def moment (p a k : ℤ) : ℤ := k * p + a

/-- A moment lies after `l` and not after `n`. -/
def Passed (p a l n : ℤ) : Prop := ∃ k, l < moment p a k ∧ moment p a k ≤ n

/-- The moment of a period after that of `l` has come by `n`. -/
def PassedLater (p a l n : ℤ) : Prop := ∃ k, l / p < k ∧ moment p a k ≤ n

theorem moment_le_iff (ha : 0 ≤ a) (hap : a < p) :
    moment p a k ≤ n ↔ k < n / p ∨ k = n / p ∧ a ≤ n % p := by
  have hp : 0 < p := lt_of_le_of_lt ha hap
  have hn : n / p * p + n % p = n := Int.ediv_mul_add_emod n p
  have hr : 0 ≤ n % p := Int.emod_nonneg n hp.ne'
  have hrp : n % p < p := Int.emod_lt_of_pos n hp
  rw [moment]
  constructor
  · intro h
    rcases lt_trichotomy k (n / p) with hk | rfl | hk
    · exact Or.inl hk
    · exact Or.inr ⟨rfl, by omega⟩
    · have hle : (n / p + 1) * p ≤ k * p := mul_le_mul_of_nonneg_right hk hp.le
      rw [add_mul, one_mul] at hle
      omega
  · rintro (hk | ⟨rfl, hr'⟩)
    · have hle : (k + 1) * p ≤ n / p * p := mul_le_mul_of_nonneg_right hk hp.le
      rw [add_mul, one_mul] at hle
      omega
    · omega

theorem lt_moment_iff (ha : 0 ≤ a) (hap : a < p) :
    l < moment p a k ↔ l / p < k ∨ l / p = k ∧ l % p < a := by
  rw [← not_le, moment_le_iff ha hap]
  omega

theorem passedLater_iff_moment_le (ha : 0 ≤ a) (hap : a < p) :
    PassedLater p a l n ↔ moment p a (l / p + 1) ≤ n := by
  constructor
  · rintro ⟨k, hk, hmoment⟩
    rw [moment_le_iff ha hap] at hmoment ⊢
    omega
  · exact fun h => ⟨l / p + 1, Int.lt_succ _, h⟩

theorem passedLater_iff (ha : 0 ≤ a) (hap : a < p) :
    PassedLater p a l n ↔ n / p = l / p + 1 ∧ a ≤ n % p ∨ l / p + 2 ≤ n / p := by
  rw [passedLater_iff_moment_le ha hap, moment_le_iff ha hap]
  omega

theorem PassedLater.passed (ha : 0 ≤ a) (hap : a < p) (h : PassedLater p a l n) :
    Passed p a l n := by
  obtain ⟨k, hk, hmoment⟩ := h
  exact ⟨k, (lt_moment_iff ha hap).mpr (Or.inl hk), hmoment⟩

/-- Of the moments that have passed, one is that of a later period or of the period of
`l` itself. -/
theorem passed_iff (ha : 0 ≤ a) (hap : a < p) :
    Passed p a l n ↔ PassedLater p a l n ∨
      (l < moment p a (l / p) ∧ moment p a (l / p) ≤ n) := by
  constructor
  · rintro ⟨k, hl, hn⟩
    rcases (lt_moment_iff ha hap).mp hl with hk | ⟨rfl, -⟩
    · exact Or.inl ⟨k, hk, hn⟩
    · exact Or.inr ⟨hl, hn⟩
  · rintro (h | h)
    · exact h.passed ha hap
    · exact ⟨l / p, h⟩

/-- The moments that have passed are those of later periods, unless the moment of the period
of `l` is the only one of them. -/
theorem later_iff_passed_iff (ha : 0 ≤ a) (hap : a < p) :
    (PassedLater p a l n ↔ Passed p a l n) ↔
      ¬(l < moment p a (l / p) ∧ moment p a (l / p) ≤ n ∧ n < moment p a (l / p + 1)) := by
  have hnext : n < moment p a (l / p + 1) ↔ ¬PassedLater p a l n := by
    rw [passedLater_iff_moment_le ha hap, not_le]
  rw [passed_iff ha hap, hnext]
  tauto

end Periods

end Qing
