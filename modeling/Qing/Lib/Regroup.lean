import Mathlib.Algebra.Order.Ring.Nat
import Mathlib.Data.Nat.Bitwise
import Mathlib.Tactic.Common

/-!
# Numbers as bits, and a stream cut into groups

`bits w x` are the lowest `w` bits of `x`, the highest first, and `ofBits` is the number
that bits stand for. `groups k n` cuts the first `n` groups of `k` from a list. A stream cut
into groups of one length, strung together and cut into groups of another one loses only
what makes no whole group (`groups_flatten`, `flatten_groups`).
-/

namespace Qing

def bits : ℕ → ℕ → List Bool
  | 0, _ => []
  | w + 1, x => x.testBit w :: bits w x

def ofBits : List Bool → ℕ
  | [] => 0
  | b :: l => b.toNat * 2 ^ l.length + ofBits l

@[simp] theorem length_bits (w x : ℕ) : (bits w x).length = w := by
  induction w with
  | zero => rfl
  | succ w ih => rw [bits, List.length_cons, ih]

theorem ofBits_lt (l : List Bool) : ofBits l < 2 ^ l.length := by
  induction l with
  | nil => simp [ofBits]
  | cons b l ih =>
      rw [ofBits, List.length_cons, Nat.pow_succ]
      cases b <;> simp <;> omega

theorem ofBits_bits (w x : ℕ) : ofBits (bits w x) = x % 2 ^ w := by
  induction w with
  | zero => simp [bits, ofBits, Nat.mod_one]
  | succ w ih =>
      rw [bits, ofBits, length_bits, ih, Nat.mod_pow_succ, Nat.toNat_testBit, Nat.mul_comm,
        Nat.add_comm]

theorem bits_mod (w x v : ℕ) (h : w ≤ v) : bits w (x % 2 ^ v) = bits w x := by
  induction w with
  | zero => rfl
  | succ w ih =>
      rw [bits, bits, ih (by omega), Nat.testBit_mod_two_pow, decide_eq_true (by omega),
        Bool.true_and]

theorem bits_ofBits (l : List Bool) : bits l.length (ofBits l) = l := by
  induction l with
  | nil => rfl
  | cons b l ih =>
      have hlt := ofBits_lt l
      have hlow : bits l.length (b.toNat * 2 ^ l.length + ofBits l) = l := by
        rw [← bits_mod _ _ _ le_rfl, Nat.mul_comm, Nat.mul_add_mod, Nat.mod_eq_of_lt hlt, ih]
      rw [List.length_cons, bits, ofBits, hlow, Nat.mul_comm,
        Nat.testBit_two_pow_mul_add _ hlt, if_neg (lt_irrefl _), Nat.sub_self]
      cases b <;> rfl

variable {α : Type*} {k n : ℕ} {g l : List α} {gs : List (List α)}

def groups (k : ℕ) : ℕ → List α → List (List α)
  | 0, _ => []
  | n + 1, l => l.take k :: groups k n (l.drop k)

@[simp] theorem length_groups (k n : ℕ) (l : List α) : (groups k n l).length = n := by
  induction n generalizing l with
  | zero => rfl
  | succ n ih => rw [groups, List.length_cons, ih]

theorem groups_append (hg : g.length = k) : groups k (n + 1) (g ++ l) = g :: groups k n l := by
  rw [groups, ← hg, List.take_left, List.drop_left]

theorem length_of_mem_groups (h : k * n ≤ l.length) (hg : g ∈ groups k n l) : g.length = k := by
  induction n generalizing l with
  | zero => simp [groups] at hg
  | succ n ih =>
      rw [Nat.mul_succ] at h
      rw [groups, List.mem_cons] at hg
      rcases hg with rfl | hg
      · rw [List.length_take]
        omega
      · exact ih (by rw [List.length_drop]; omega) hg

/-- Groups strung together are as much of the stream as they were cut from. -/
theorem flatten_groups (k n : ℕ) (l : List α) : (groups k n l).flatten = l.take (k * n) := by
  induction n generalizing l with
  | zero => simp [groups]
  | succ n ih =>
      rw [groups, List.flatten_cons, ih, Nat.mul_succ, Nat.add_comm, List.take_add]

/-- A stream of whole groups is cut into them, whatever follows. -/
theorem groups_flatten (h : ∀ g ∈ gs, g.length = k) (l : List α) :
    groups k gs.length (gs.flatten ++ l) = gs := by
  induction gs with
  | nil => rfl
  | cons g gs ih =>
      rw [List.length_cons, List.flatten_cons, List.append_assoc,
        groups_append (h g List.mem_cons_self), ih fun g' hg => h g' (List.mem_cons_of_mem g hg)]

end Qing
