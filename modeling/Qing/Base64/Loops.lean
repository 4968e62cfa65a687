import Qing.Base64.Quanta

/-!
# What the loops compute

`encode64` writes the letters of the sextets of its octets (`encode64_eq`), and `decode64`
reads letters as the octets of their sextets, up to the end of the string or the first
`=` in a place where one may stand (`decode64_eq`).
-/

namespace Qing

namespace Base64

def letter (c : UInt8) : UInt8 := (charAt alphabet64 c.toNat).getD 0

section Letters

variable {c : UInt8}

theorem letters_spec : ∀ n < 2 ^ 6, charAt alphabet64 n = some (letter (UInt8.ofNat n)) ∧
    letter (UInt8.ofNat n) ≠ pad ∧ table64 (letter (UInt8.ofNat n)) = some (UInt8.ofNat n) := by
  decide +kernel

theorem charAt_alphabet64 (hc : c.toNat < 2 ^ 6) : charAt alphabet64 c.toNat = some (letter c) := by
  have h := (letters_spec c.toNat hc).1
  rwa [UInt8.ofNat_toNat] at h

theorem letter_ne_pad (hc : c.toNat < 2 ^ 6) : letter c ≠ pad := by
  have h := (letters_spec c.toNat hc).2.1
  rwa [UInt8.ofNat_toNat] at h

theorem table64_letter (hc : c.toNat < 2 ^ 6) : table64 (letter c) = some c := by
  have h := (letters_spec c.toNat hc).2.2
  rwa [UInt8.ofNat_toNat] at h

end Letters

section Reads

variable {input rest : List UInt8} {i : ℕ} {x : UInt8}

theorem lt_of_drop (h : input.drop i = x :: rest) : i < input.length := by
  have hlen := congrArg List.length h
  rw [List.length_drop, List.length_cons] at hlen
  omega

theorem drop_succ_of_drop (h : input.drop i = x :: rest) : input.drop (i + 1) = rest := by
  rw [← List.tail_drop, h, List.tail_cons]

theorem charAt_of_drop (h : input.drop i = x :: rest) : charAt input i = some x := by
  rw [charAt, if_neg (lt_of_drop h).ne, ← List.head?_drop, h, List.head?_cons]

theorem drop_add_of_drop {l : List UInt8} (h : input.drop i = l) (k : ℕ) :
    input.drop (i + k) = l.drop k := by
  rw [← List.drop_drop, h]

theorem not_lt_of_drop (h : input.drop i = []) : ¬ i < input.length :=
  not_lt.mpr (List.drop_eq_nil_iff.mp h)

end Reads

/-! ## Encoding -/

section Encode

variable {input rest encoded : List UInt8} {i : ℕ} {a b c : UInt8}

/-! The letters that a turn looks up. -/

theorem charAt_first (a : UInt8) :
    charAt alphabet64 (a >>> 2 &&& 0x3f).toNat = some (letter (firstSextet a)) :=
  charAt_alphabet64 (firstSextet_lt a)

theorem charAt_second (a b : UInt8) :
    charAt alphabet64 ((a <<< 4 &&& (0x3f : UInt8)) ||| (b >>> 4 &&& (0x0f : UInt8))).toNat =
      some (letter (secondSextet a b)) :=
  charAt_alphabet64 (secondSextet_lt a b)

theorem charAt_third (b c : UInt8) :
    charAt alphabet64 ((b <<< 2 &&& (0x3c : UInt8)) ||| (c >>> 6 &&& (0x03 : UInt8))).toNat =
      some (letter (thirdSextet b c)) :=
  charAt_alphabet64 (thirdSextet_lt b c)

theorem charAt_fourth (c : UInt8) :
    charAt alphabet64 (c &&& 0x3f).toNat = some (letter (fourthSextet c)) :=
  charAt_alphabet64 (fourthSextet_lt c)

theorem charAt_masked (x m : UInt8) (hm : m.toNat < 2 ^ 6) :
    charAt alphabet64 (x &&& m).toNat = some (letter (x &&& m)) :=
  charAt_alphabet64 (and_lt_sextet x m hm)

theorem encodeTurn_three (h : input.drop i = a :: b :: c :: rest) :
    encodeTurn input i encoded = some (i + 2, encoded ++
      [letter (firstSextet a), letter (secondSextet a b), letter (thirdSextet b c),
        letter (fourthSextet c)]) := by
  have h₁ := drop_succ_of_drop h
  have h₂ := drop_succ_of_drop h₁
  simp only [encodeTurn, encodeThird, charAt_of_drop h, charAt_of_drop h₁, charAt_of_drop h₂,
    if_pos (lt_of_drop h₁), if_pos (lt_of_drop h₂), charAt_second, charAt_third, charAt_fourth,
    Option.bind_eq_bind, Option.bind_some, Option.map_some, List.append_assoc, List.cons_append,
    List.nil_append]
  rfl

theorem encodeTurn_two (h : input.drop i = [a, b]) :
    encodeTurn input i encoded = some (i + 2, encoded ++
      [letter (firstSextet a), letter (secondSextet a b), letter (b <<< 2 &&& 0x3c), pad]) := by
  have h₁ := drop_succ_of_drop h
  have h₂ := drop_succ_of_drop h₁
  have hmask := charAt_masked (b <<< 2) 0x3c (by decide)
  simp only [encodeTurn, encodeThird, charAt_of_drop h, charAt_of_drop h₁, if_pos (lt_of_drop h₁),
    if_neg (not_lt_of_drop h₂), charAt_first, charAt_second, hmask, Option.bind_eq_bind,
    Option.bind_some, Option.map_some, List.append_assoc, List.cons_append, List.nil_append]

theorem encodeTurn_one (h : input.drop i = [a]) :
    encodeTurn input i encoded = some (i + 2, encoded ++
      [letter (firstSextet a), letter (a <<< 4 &&& 0x3f), pad, pad]) := by
  have h₁ := drop_succ_of_drop h
  have h₂ : ¬ i + 1 + 1 < input.length := fun hlt => not_lt_of_drop h₁ (by omega)
  have hmask := charAt_masked (a <<< 4) 0x3f (by decide)
  simp only [encodeTurn, charAt_of_drop h, if_neg (not_lt_of_drop h₁), if_neg h₂, charAt_first,
    hmask, Option.bind_eq_bind, Option.bind_some, List.append_assoc, List.cons_append,
    List.nil_append]

def text (s : List UInt8) : List UInt8 :=
  (sextets s).map letter ++ List.replicate (padding s.length) pad

theorem text_three (a b c : UInt8) (s : List UInt8) :
    text (a :: b :: c :: s) =
      [letter (firstSextet a), letter (secondSextet a b), letter (thirdSextet b c),
        letter (fourthSextet c)] ++ text s := by
  have hpad : padding (s.length + 1 + 1 + 1) = padding s.length := by
    simp [padding, Nat.add_assoc]
  simp only [text, sextets_three, List.length_cons, hpad, List.map_cons, List.cons_append,
    List.nil_append]

theorem text_two (a b : UInt8) :
    text [a, b] =
      [letter (firstSextet a), letter (secondSextet a b), letter (b <<< 2 &&& 0x3c), pad] := by
  rw [text, sextets_two]
  rfl

theorem text_one (a : UInt8) :
    text [a] = [letter (firstSextet a), letter (a <<< 4 &&& 0x3f), pad, pad] := by
  rw [text, sextets_one]
  rfl

theorem encodeLoop_eq {n : ℕ} (hn : input.length - i < n) :
    encodeLoop input n i encoded = some (encoded ++ text (input.drop i)) := by
  induction n generalizing i encoded with
  | zero => omega
  | succ n ih =>
      rw [encodeLoop]
      match hdrop : input.drop i with
      | [] =>
          rw [if_neg (not_lt_of_drop hdrop)]
          exact (congrArg some (List.append_nil encoded)).symm
      | [a] =>
          have hlt := lt_of_drop hdrop
          have hrest : input.drop (i + 2 + 1) = [] := drop_add_of_drop hdrop 3
          rw [if_pos hlt, encodeTurn_one hdrop, Option.bind_some, ih (by omega), hrest, text_one]
          exact congrArg some (List.append_nil _)
      | [a, b] =>
          have hlt := lt_of_drop hdrop
          have hrest : input.drop (i + 2 + 1) = [] := drop_add_of_drop hdrop 3
          rw [if_pos hlt, encodeTurn_two hdrop, Option.bind_some, ih (by omega), hrest, text_two]
          exact congrArg some (List.append_nil _)
      | a :: b :: c :: rest =>
          have hlt := lt_of_drop hdrop
          have hrest : input.drop (i + 2 + 1) = rest := drop_add_of_drop hdrop 3
          rw [if_pos hlt, encodeTurn_three hdrop, Option.bind_some, ih (by omega), hrest,
            text_three, List.append_assoc]

end Encode

theorem encode64_eq (s : List UInt8) : encode64 s = some (text s) :=
  encodeLoop_eq (by omega)

/-! ## Decoding -/

section Decode

variable {input rest decoded : List UInt8} {i : ℕ} {a b c d : UInt8}

theorem decodeFourth_end (h : ¬ i < input.length) :
    decodeFourth input i c decoded = some ⟨i, decoded, false⟩ := by
  rw [decodeFourth, if_neg h]

theorem decodeFourth_pad (h : input.drop i = pad :: rest) :
    decodeFourth input i c decoded = some ⟨i, decoded, true⟩ := by
  simp only [decodeFourth, if_pos (lt_of_drop h), charAt_of_drop h, Option.bind_eq_bind,
    Option.bind_some, if_true]

theorem decodeFourth_letter (hd : d.toNat < 2 ^ 6) (h : input.drop i = letter d :: rest) :
    decodeFourth input i c decoded = some ⟨i, decoded ++ [thirdOctet c d], false⟩ := by
  simp only [decodeFourth, if_pos (lt_of_drop h), charAt_of_drop h, table64_letter hd,
    if_neg (letter_ne_pad hd).symm, Option.bind_eq_bind, Option.bind_some, thirdOctet]

section Turn

variable (ha : a.toNat < 2 ^ 6) (hb : b.toNat < 2 ^ 6)

include ha hb

theorem decodeTurn_two (h : input.drop i = [letter a, letter b]) :
    decodeTurn input i decoded = some ⟨i + 3, decoded ++ [firstOctet a b], false⟩ := by
  have h₁ := drop_succ_of_drop h
  have h₂ := drop_succ_of_drop h₁
  have h₃ : ¬ i + 1 + 1 + 1 < input.length := fun hlt => not_lt_of_drop h₂ (by omega)
  simp only [decodeTurn, charAt_of_drop h, charAt_of_drop h₁, table64_letter ha, table64_letter hb,
    if_neg (not_lt_of_drop h₂), decodeFourth_end h₃, Option.bind_eq_bind, Option.bind_some,
    firstOctet]

theorem decodeTurn_pad (h : input.drop i = letter a :: letter b :: pad :: rest) :
    decodeTurn input i decoded = some ⟨i + 2, decoded ++ [firstOctet a b], true⟩ := by
  have h₁ := drop_succ_of_drop h
  have h₂ := drop_succ_of_drop h₁
  simp only [decodeTurn, charAt_of_drop h, charAt_of_drop h₁, charAt_of_drop h₂, table64_letter ha,
    table64_letter hb, if_pos (lt_of_drop h₂), if_true, Option.bind_eq_bind, Option.bind_some,
    firstOctet]

theorem decodeTurn_three (hc : c.toNat < 2 ^ 6)
    (h : input.drop i = letter a :: letter b :: letter c :: rest) :
    decodeTurn input i decoded =
      decodeFourth input (i + 3) c (decoded ++ [firstOctet a b, secondOctet b c]) := by
  have h₁ := drop_succ_of_drop h
  have h₂ := drop_succ_of_drop h₁
  simp only [decodeTurn, charAt_of_drop h, charAt_of_drop h₁, charAt_of_drop h₂, table64_letter ha,
    table64_letter hb, table64_letter hc, if_pos (lt_of_drop h₂), if_neg (letter_ne_pad hc).symm,
    Option.bind_eq_bind, Option.bind_some, List.append_assoc, List.cons_append, List.nil_append,
    firstOctet, secondOctet]

end Turn

/-- What may follow the letters of some sextets: nothing, or `=` in the third or fourth place
of a turn, and then anything. -/
def Ends (t rest : List UInt8) : Prop :=
  rest = [] ∧ t.length % 4 ≠ 1 ∨ rest.head? = some pad ∧ 2 ≤ t.length % 4

theorem Ends.of_four {t : List UInt8} (h : Ends (a :: b :: c :: d :: t) rest) : Ends t rest := by
  simp only [Ends, List.length_cons] at h
  rcases h with ⟨hrest, hmod⟩ | ⟨hrest, hmod⟩
  · exact Or.inl ⟨hrest, by omega⟩
  · exact Or.inr ⟨hrest, by omega⟩

theorem decodeLoop_eq {t : List UInt8} {n : ℕ} (ht : ∀ c ∈ t, c.toNat < 2 ^ 6) (hends : Ends t rest)
    (hdrop : input.drop i = t.map letter ++ rest) (hn : input.length - i < n) :
    decodeLoop input n i decoded = some (decoded ++ octets t) := by
  induction n generalizing i decoded t with
  | zero => omega
  | succ n ih =>
      rw [decodeLoop]
      match t with
      | [] =>
          have hrest : rest = [] := hends.elim And.left fun h => absurd h.2 (by simp)
          rw [hrest] at hdrop
          rw [if_neg (not_lt_of_drop hdrop)]
          exact (congrArg some (List.append_nil decoded)).symm
      | [a] => simp [Ends] at hends
      | [a, b] =>
          have ha := ht a (by simp)
          have hb := ht b (by simp)
          have hlt := lt_of_drop hdrop
          rw [if_pos hlt, octets_two]
          rcases hends with ⟨rfl, -⟩ | ⟨hpad, -⟩
          · have hend : input.drop (i + 3 + 1) = [] := drop_add_of_drop hdrop 4
            rw [decodeTurn_two ha hb hdrop, Option.bind_some, if_neg Bool.false_ne_true,
              ih (t := []) (by simp) (Or.inl ⟨rfl, by simp⟩) hend (by omega)]
            exact congrArg some (List.append_nil _)
          · obtain ⟨rest, rfl⟩ := List.head?_eq_some_iff.mp hpad
            rw [decodeTurn_pad ha hb hdrop]
            rfl
      | [a, b, c] =>
          have ha := ht a (by simp)
          have hb := ht b (by simp)
          have hc := ht c (by simp)
          have h₃ : input.drop (i + 3) = rest := drop_add_of_drop hdrop 3
          have hlt := lt_of_drop hdrop
          rw [if_pos hlt, octets_three, decodeTurn_three ha hb hc hdrop]
          rcases hends with ⟨rfl, -⟩ | ⟨hpad, -⟩
          · have hend : input.drop (i + 3 + 1) = [] := drop_add_of_drop hdrop 4
            rw [decodeFourth_end (not_lt_of_drop h₃), Option.bind_some, if_neg Bool.false_ne_true,
              ih (t := []) (by simp) (Or.inl ⟨rfl, by simp⟩) hend (by omega)]
            exact congrArg some (List.append_nil _)
          · obtain ⟨rest, rfl⟩ := List.head?_eq_some_iff.mp hpad
            rw [decodeFourth_pad h₃]
            rfl
      | a :: b :: c :: d :: t =>
          have hlt := lt_of_drop hdrop
          have ha := ht a (by simp)
          have hb := ht b (by simp)
          have hc := ht c (by simp)
          have hd := ht d (by simp)
          have h₃ : input.drop (i + 3) = letter d :: (t.map letter ++ rest) :=
            drop_add_of_drop hdrop 3
          have hrest : ∀ x ∈ t, x.toNat < 2 ^ 6 := fun x hx => ht x (by simp [hx])
          rw [if_pos hlt, octets_four a b c hd, decodeTurn_three ha hb hc hdrop,
            decodeFourth_letter hd h₃, Option.bind_some, if_neg Bool.false_ne_true,
            ih hrest hends.of_four (drop_succ_of_drop h₃) (by omega)]
          simp only [List.append_assoc, List.cons_append, List.nil_append]

theorem decode64_eq {t : List UInt8} (ht : ∀ c ∈ t, c.toNat < 2 ^ 6) (hends : Ends t rest) :
    decode64 (t.map letter ++ rest) = some (octets t) :=
  decodeLoop_eq ht hends rfl (by omega)

end Decode

/-! ## Any text -/

section Total

variable {input : List UInt8} {i : ℕ}

theorem exists_charAt (h : i ≤ input.length) : ∃ x, charAt input i = some x := by
  rcases h.eq_or_lt with rfl | hlt
  · exact ⟨0, if_pos rfl⟩
  · exact ⟨input[i], by rw [charAt, if_neg hlt.ne, List.getElem?_eq_getElem hlt]⟩

theorem pad_mem_of_charAt (h : i < input.length) (hpad : charAt input i = some pad) :
    pad ∈ input := by
  rw [charAt, if_neg h.ne] at hpad
  exact List.mem_of_getElem? hpad

theorem exists_table64 (c : UInt8) : ∃ x, table64 c = some x := by
  have hall : ∀ n < 2 ^ 8, (table64 (UInt8.ofNat n)).isSome = true := by decide +kernel
  have h := hall c.toNat c.toNat_lt
  rw [UInt8.ofNat_toNat] at h
  exact Option.isSome_iff_exists.mp h

/-- The octets that a turn of `decode64` adds with `r` characters left, `=` not among them. -/
def gain (r : ℕ) : ℕ := if 4 ≤ r then 3 else (r + 1) / 2

/-- How a part of a turn ends: with `k` octets more, or at a `=` with fewer. -/
structure Gains (input decoded : List UInt8) (i k : ℕ) (turn : DecodeTurn) : Prop where
  goesOn : turn.broke = false → turn.i = i ∧ turn.decoded.length = decoded.length + k
  breaks : turn.broke = true → turn.decoded.length < decoded.length + k ∧ pad ∈ input

theorem decodeFourth_gains (input decoded : List UInt8) (i : ℕ) (c : UInt8) :
    ∃ turn, decodeFourth input i c decoded = some turn ∧
      Gains input decoded i (if i < input.length then 1 else 0) turn := by
  rw [decodeFourth]
  split
  · rename_i hlt
    obtain ⟨x, hx⟩ := exists_charAt hlt.le
    obtain ⟨d, hd⟩ := exists_table64 x
    simp only [hx, hd, Option.bind_eq_bind, Option.bind_some]
    split
    · rename_i hpad
      rw [← hpad] at hx
      exact ⟨_, rfl, by simp, fun _ => ⟨Nat.lt_succ_self _, pad_mem_of_charAt hlt hx⟩⟩
    · exact ⟨_, rfl, by simp, by simp⟩
  · exact ⟨_, rfl, by simp, by simp⟩

theorem decodeTurn_gains (h : i < input.length) (decoded : List UInt8) :
    ∃ turn, decodeTurn input i decoded = some turn ∧
      Gains input decoded (i + 3) (gain (input.length - i)) turn := by
  obtain ⟨x, hx⟩ := exists_charAt h.le
  obtain ⟨y, hy⟩ := exists_charAt (show i + 1 ≤ input.length by omega)
  obtain ⟨c, hc⟩ := exists_table64 x
  obtain ⟨d, hd⟩ := exists_table64 y
  simp only [decodeTurn, hx, hy, hc, hd, Option.bind_eq_bind, Option.bind_some]
  split
  · rename_i hlt
    obtain ⟨z, hz⟩ := exists_charAt hlt.le
    obtain ⟨e, he⟩ := exists_table64 z
    simp only [hz, he, Option.bind_some]
    split
    · rename_i hpad
      rw [← hpad] at hz
      refine ⟨_, rfl, by simp, fun _ => ⟨?_, pad_mem_of_charAt hlt hz⟩⟩
      rw [List.length_append, List.length_singleton, gain]
      split <;> omega
    · obtain ⟨turn, hturn, hgains⟩ := decodeFourth_gains input
        (decoded ++ [c <<< 2 ||| (d >>> 4 &&& (0x3 : UInt8))] ++
          [(d <<< 4 &&& (0xf0 : UInt8)) ||| (e >>> 2 &&& (0xf : UInt8))]) (i + 1 + 1 + 1) e
      refine ⟨turn, hturn, fun hgoes => ?_, fun hbreaks => ?_⟩
      · obtain ⟨hi, hlen⟩ := hgains.goesOn hgoes
        refine ⟨hi, hlen.trans ?_⟩
        simp only [List.length_append, List.length_singleton, gain]
        split <;> split <;> omega
      · obtain ⟨hlen, hmem⟩ := hgains.breaks hbreaks
        refine ⟨hlen.trans_le ?_, hmem⟩
        simp only [List.length_append, List.length_singleton, gain]
        split <;> split <;> omega
  · rename_i hge
    rw [decodeFourth_end (by omega)]
    refine ⟨_, rfl, fun _ => ⟨rfl, ?_⟩, by simp⟩
    rw [List.length_append, List.length_singleton, gain, if_neg (by omega)]
    omega

/-- The octets that `decode64` makes of `r` characters, `=` not among them. -/
def yield (r : ℕ) : ℕ := 3 * (r / 4) + (r % 4 + 1) / 2

theorem gain_add_yield (r : ℕ) : gain r + yield (r - 4) = yield r := by
  rw [gain, yield, yield]
  split <;> omega

theorem decodeLoop_gains {n : ℕ} (hn : input.length - i < n) (decoded : List UInt8) :
    ∃ d, decodeLoop input n i decoded = some d ∧
      d.length ≤ decoded.length + yield (input.length - i) ∧
      (pad ∉ input → d.length = decoded.length + yield (input.length - i)) := by
  induction n generalizing i decoded with
  | zero => omega
  | succ n ih =>
      rw [decodeLoop]
      split
      · rename_i hlt
        obtain ⟨turn, hturn, hgains⟩ := decodeTurn_gains hlt decoded
        have hsum := gain_add_yield (input.length - i)
        rw [hturn, Option.bind_some]
        cases hbroke : turn.broke with
        | true =>
            obtain ⟨hlen, hmem⟩ := hgains.breaks hbroke
            exact ⟨turn.decoded, rfl, by omega, fun hpad => absurd hmem hpad⟩
        | false =>
            obtain ⟨hi, hlen⟩ := hgains.goesOn hbroke
            have hleft : input.length - (turn.i + 1) = input.length - i - 4 := by omega
            obtain ⟨d, hd, hle, heq⟩ := ih (i := turn.i + 1) (by omega) turn.decoded
            rw [hleft, hlen] at hle heq
            exact ⟨d, hd, by omega, fun hpad => (heq hpad).trans (by omega)⟩
      · rename_i hge
        have hnone : input.length - i = 0 := by omega
        refine ⟨decoded, rfl, by rw [hnone]; exact le_rfl, fun _ => by rw [hnone]; rfl⟩

end Total

end Base64

end Qing
