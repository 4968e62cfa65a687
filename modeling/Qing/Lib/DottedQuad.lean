import Mathlib.Algebra.Order.Group.Nat
import Mathlib.Tactic.Common

/-!
# Dotted quads

The text of a 32-bit number as its four octets in decimal, and the reading of such a text. A
text is read only if it is the one that is written.
-/

namespace Qing

namespace DottedQuad

def octets (a : UInt32) : List ℕ :=
  [a.toNat / 2 ^ 24, a.toNat / 2 ^ 16 % 256, a.toNat / 2 ^ 8 % 256, a.toNat % 256]

def ofOctets : List ℕ → Option UInt32
  | [a, b, c, d] => some (UInt32.ofNat (a * 2 ^ 24 + b * 2 ^ 16 + c * 2 ^ 8 + d))
  | _ => none

/-- An octet that is written in decimal, without leading zeros. -/
def octet? (digits : List Char) : Option ℕ :=
  let n := Nat.ofDigitChars 10 digits 0
  if n < 256 ∧ Nat.toDigits 10 n = digits then some n else none

def text (a : UInt32) : List Char := ['.'].intercalate ((octets a).map (Nat.toDigits 10))

def parse (text : List Char) : Option UInt32 := ((text.splitOn '.').mapM octet?).bind ofOctets

theorem lt_of_mem_octets {a : UInt32} {n : ℕ} (h : n ∈ octets a) : n < 256 := by
  have ha := a.toNat_lt
  simp only [octets, List.mem_cons, List.not_mem_nil, or_false] at h
  omega

theorem ofOctets_octets (a : UInt32) : ofOctets (octets a) = some a := by
  have ha := a.toNat_lt
  rw [octets, ofOctets, Option.some_inj, ← UInt32.toNat_inj, UInt32.toNat_ofNat']
  omega

theorem octet?_toDigits {n : ℕ} (h : n < 256) : octet? (Nat.toDigits 10 n) = some n := by
  rw [octet?, Nat.ofDigitChars_ten_toDigits]
  exact if_pos ⟨h, rfl⟩

theorem dot_notMem_toDigits (n : ℕ) : '.' ∉ Nat.toDigits 10 n := by
  intro hmem
  have hdigit := Nat.isDigit_of_mem_toDigits (by decide) (by decide) hmem
  revert hdigit
  decide

theorem mapM_octet? {l : List ℕ} (h : ∀ n ∈ l, n < 256) :
    (l.map (Nat.toDigits 10)).mapM octet? = some l := by
  induction l with
  | nil => rfl
  | cons n l ih =>
      have hn := octet?_toDigits (h n List.mem_cons_self)
      have hl := ih fun m hm => h m (List.mem_cons_of_mem n hm)
      rw [List.map_cons, List.mapM_cons, hn, hl]
      rfl

theorem parse_text (a : UInt32) : parse (text a) = some a := by
  have hdots : ∀ l ∈ (octets a).map (Nat.toDigits 10), '.' ∉ l := by
    intro l hl
    obtain ⟨n, -, rfl⟩ := List.mem_map.mp hl
    exact dot_notMem_toDigits n
  have hne : (octets a).map (Nat.toDigits 10) ≠ [] := List.cons_ne_nil _ _
  rw [parse, text, List.splitOn_intercalate '.' hdots hne,
    mapM_octet? fun n hn => lt_of_mem_octets hn]
  exact ofOctets_octets a

/-! ## The characters of a text -/

theorem text_eq (a : UInt32) :
    text a = Nat.toDigits 10 (a.toNat / 2 ^ 24) ++
      '.' :: (Nat.toDigits 10 (a.toNat / 2 ^ 16 % 256) ++
        '.' :: (Nat.toDigits 10 (a.toNat / 2 ^ 8 % 256) ++
          '.' :: Nat.toDigits 10 (a.toNat % 256))) := by
  simp [text, octets, List.intercalate]

theorem length_toDigits_le {n : ℕ} (h : n < 256) : (Nat.toDigits 10 n).length ≤ 3 :=
  (Nat.length_toDigits_le_iff (by decide) (by decide)).mpr (by omega)

theorem length_text_le (a : UInt32) : (text a).length ≤ 15 := by
  have ha := a.toNat_lt
  have h₁ := length_toDigits_le (n := a.toNat / 2 ^ 24) (by omega)
  have h₂ := length_toDigits_le (n := a.toNat / 2 ^ 16 % 256) (by omega)
  have h₃ := length_toDigits_le (n := a.toNat / 2 ^ 8 % 256) (by omega)
  have h₄ := length_toDigits_le (n := a.toNat % 256) (by omega)
  simp only [text_eq, List.length_append, List.length_cons]
  omega

theorem nul_notMem_text (a : UInt32) : Char.ofNat 0 ∉ text a := by
  have hdigits : ∀ n, Char.ofNat 0 ∉ Nat.toDigits 10 n := by
    intro n hmem
    have hdigit := Nat.isDigit_of_mem_toDigits (by decide) (by decide) hmem
    revert hdigit
    decide
  simp [text_eq, hdigits]

end DottedQuad

end Qing
