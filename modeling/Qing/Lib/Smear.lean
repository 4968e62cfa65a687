import Mathlib.Algebra.Order.Ring.Nat
import Mathlib.Data.Nat.Size
import Mathlib.Tactic.Common

/-!
# Smearing bits

`Smears k x y` says that a bit of `y` is set if and only if one of the `k` bits of `x` from
there up is. A shift by `k` put over a number smeared so far smears it twice as
far (`Smears.double`), and a number smeared over its whole width is `1` in every place
up to its highest bit (`Smears.eq`).
-/

namespace Qing

def Smears (k x y : ℕ) : Prop := ∀ i, y.testBit i = true ↔ ∃ d < k, x.testBit (i + d) = true

namespace Smears

variable {k x y : ℕ}

theorem one (x : ℕ) : Smears 1 x x := by
  intro i
  constructor
  · exact fun h => ⟨0, Nat.one_pos, h⟩
  · rintro ⟨d, hd, h⟩
    rwa [Nat.lt_one_iff.mp hd, Nat.add_zero] at h

theorem double (h : Smears k x y) : Smears (k + k) x (y ||| y >>> k) := by
  intro i
  rw [Nat.testBit_or, Nat.testBit_shiftRight, Bool.or_eq_true, h, h]
  constructor
  · rintro (⟨d, hd, hx⟩ | ⟨d, hd, hx⟩)
    · exact ⟨d, by omega, hx⟩
    · exact ⟨k + d, by omega, by rwa [← Nat.add_assoc, Nat.add_comm i k]⟩
  · rintro ⟨d, hd, hx⟩
    rcases Nat.lt_or_ge d k with hlt | hge
    · exact Or.inl ⟨d, hlt, hx⟩
    · refine Or.inr ⟨d - k, by omega, ?_⟩
      rwa [show k + i + (d - k) = i + d by omega]

theorem testBit_size_pred (hx : x ≠ 0) : x.testBit (Nat.size x - 1) = true := by
  have hpos : 0 < Nat.size x := Nat.size_pos.mpr (Nat.pos_of_ne_zero hx)
  have hle : 2 ^ (Nat.size x - 1) ≤ x := Nat.lt_size.mp (by omega)
  have hlt : x < 2 ^ (Nat.size x - 1 + 1) := by
    rw [Nat.sub_add_cancel hpos]
    exact Nat.lt_size_self x
  rw [Nat.testBit_eq_decide_div_mod_eq, decide_eq_true_eq]
  have hdiv : x / 2 ^ (Nat.size x - 1) = 1 := by
    refine Nat.div_eq_of_lt_le (by omega) ?_
    rwa [Nat.pow_succ, Nat.mul_comm] at hlt
  rw [hdiv]

theorem eq (h : Smears k x y) (hx : x < 2 ^ k) : y = 2 ^ Nat.size x - 1 := by
  refine Nat.eq_of_testBit_eq fun i => ?_
  rw [Nat.testBit_two_pow_sub_one, Bool.eq_iff_iff, decide_eq_true_iff, h]
  constructor
  · rintro ⟨d, -, hd⟩
    have hge : 2 ^ (i + d) ≤ x := Nat.ge_two_pow_of_testBit hd
    have := Nat.lt_size.mpr hge
    omega
  · intro hi
    have hne : x ≠ 0 := by
      rintro rfl
      simp at hi
    have hsize : Nat.size x ≤ k := Nat.size_le.mpr hx
    refine ⟨Nat.size x - 1 - i, by omega, ?_⟩
    rw [show i + (Nat.size x - 1 - i) = Nat.size x - 1 by omega]
    exact testBit_size_pred hne

end Smears

end Qing
