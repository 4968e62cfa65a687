import Qing.Base64.Base64
import Qing.Lib.Regroup

/-!
# What Base64 stands for

The bits of the octets in a row, cut into groups of six, are the sextets, with zeros after
the last bit; the bits of sextets in a row, cut into groups of eight, are the octets.
The two loops do this three octets and four sextets at a time, and the rules here say
what the shifts and masks of one turn make of the bits.
-/

namespace Qing

namespace Base64

/-- The bits of words of `w` bits in a row. -/
def stream (w : ℕ) (s : List UInt8) : List Bool := s.flatMap fun a => bits w a.toNat

def ofGroup (g : List Bool) : UInt8 := UInt8.ofNat (ofBits g)

/-- The sextets that encode some octets. -/
def sextets (s : List UInt8) : List UInt8 :=
  (groups 6 ((8 * s.length + 5) / 6) (stream 8 s ++ List.replicate 4 false)).map ofGroup

/-- The octets that some sextets encode. -/
def octets (t : List UInt8) : List UInt8 :=
  (groups 8 (6 * t.length / 8) (stream 6 t)).map ofGroup

/-- How many `=` follow the sextets of `n` octets. -/
def padding (n : ℕ) : ℕ := (3 - n % 3) % 3

section Streams

variable {w : ℕ}

@[simp] theorem stream_nil (w : ℕ) : stream w [] = [] := rfl

@[simp] theorem stream_cons (w : ℕ) (a : UInt8) (s : List UInt8) :
    stream w (a :: s) = bits w a.toNat ++ stream w s := rfl

@[simp] theorem length_stream (w : ℕ) (s : List UInt8) :
    (stream w s).length = w * s.length := by
  induction s with
  | nil => rfl
  | cons a s ih =>
      rw [stream_cons, List.length_append, length_bits, ih, List.length_cons, Nat.mul_succ,
        Nat.add_comm]

theorem stream_eq_flatten (w : ℕ) (s : List UInt8) :
    stream w s = (s.map fun a => bits w a.toNat).flatten := rfl

theorem ofGroup_bits {a : UInt8} (h : a.toNat < 2 ^ w) : ofGroup (bits w a.toNat) = a := by
  rw [ofGroup, ofBits_bits, Nat.mod_eq_of_lt h, UInt8.ofNat_toNat]

theorem toNat_ofGroup {g : List Bool} (hg : g.length ≤ 8) : (ofGroup g).toNat = ofBits g :=
  UInt8.toNat_ofNat_of_lt' ((ofBits_lt g).trans_le (Nat.pow_le_pow_right (by omega) hg))

theorem stream_map_ofGroup (hw : w ≤ 8) {gs : List (List Bool)} (h : ∀ g ∈ gs, g.length = w) :
    stream w (gs.map ofGroup) = gs.flatten := by
  induction gs with
  | nil => rfl
  | cons g gs ih =>
      have hg := h g List.mem_cons_self
      have hbits : bits w (ofGroup g).toNat = g := by
        rw [toNat_ofGroup (hg.trans_le hw), ← hg, bits_ofBits]
      rw [List.map_cons, stream_cons, List.flatten_cons, hbits,
        ih fun g' hg' => h g' (List.mem_cons_of_mem g hg')]

theorem map_ofGroup_stream {s : List UInt8} (h : ∀ a ∈ s, a.toNat < 2 ^ w) (l : List Bool) :
    (groups w s.length (stream w s ++ l)).map ofGroup = s := by
  have hlen : ∀ g ∈ s.map fun a => bits w a.toNat, g.length = w := by simp
  have hcut := groups_flatten hlen l
  rw [List.length_map] at hcut
  rw [stream_eq_flatten, hcut, List.map_map]
  exact (List.map_congr_left fun a ha => ofGroup_bits (h a ha)).trans s.map_id

end Streams

@[simp] theorem length_sextets (s : List UInt8) : (sextets s).length = (8 * s.length + 5) / 6 := by
  simp [sextets]

@[simp] theorem length_octets (t : List UInt8) : (octets t).length = 6 * t.length / 8 := by
  simp [octets]

theorem length_of_mem_groups_sextets {s : List UInt8} {g : List Bool}
    (hg : g ∈ groups 6 ((8 * s.length + 5) / 6) (stream 8 s ++ List.replicate 4 false)) :
    g.length = 6 := by
  refine length_of_mem_groups ?_ hg
  rw [List.length_append, length_stream, List.length_replicate]
  omega

theorem sextet_lt {s : List UInt8} {c : UInt8} (hc : c ∈ sextets s) : c.toNat < 2 ^ 6 := by
  obtain ⟨g, hg, rfl⟩ := List.mem_map.mp hc
  have hlen := length_of_mem_groups_sextets hg
  rw [toNat_ofGroup (hlen.trans_le (by omega)), ← hlen]
  exact ofBits_lt g

theorem stream_sextets (s : List UInt8) :
    stream 6 (sextets s) =
      stream 8 s ++ List.replicate (6 * ((8 * s.length + 5) / 6) - 8 * s.length) false := by
  have hzeros : min (6 * ((8 * s.length + 5) / 6) - 8 * s.length) 4 =
      6 * ((8 * s.length + 5) / 6) - 8 * s.length := by omega
  rw [sextets, stream_map_ofGroup (by omega) fun g hg => length_of_mem_groups_sextets hg,
    flatten_groups, List.take_append, List.take_of_length_le (by rw [length_stream]; omega),
    List.take_replicate, length_stream, hzeros]

theorem stream_octets (t : List UInt8) :
    stream 8 (octets t) = (stream 6 t).take (8 * (6 * t.length / 8)) := by
  rw [octets, stream_map_ofGroup le_rfl, flatten_groups]
  refine fun g hg => length_of_mem_groups ?_ hg
  rw [length_stream]
  omega

/-- What octets are encoded to is decoded to them. -/
theorem octets_sextets (s : List UInt8) : octets (sextets s) = s := by
  have hlen : 6 * ((8 * s.length + 5) / 6) / 8 = s.length := by omega
  rw [octets, length_sextets, hlen, stream_sextets]
  exact map_ofGroup_stream (fun a _ => a.toNat_lt) _

theorem sextets_octets {t : List UInt8} (h : ∀ c ∈ t, c.toNat < 2 ^ 6)
    (hmod : t.length % 4 ≠ 1)
    (hzero : ∀ b ∈ (stream 6 t).drop (8 * (6 * t.length / 8)), b = false) :
    sextets (octets t) = t := by
  have hlen : (8 * (6 * t.length / 8) + 5) / 6 = t.length := by
    have hcases : t.length % 4 = 0 ∨ t.length % 4 = 2 ∨ t.length % 4 = 3 := by omega
    rcases hcases with h₀ | h₂ | h₃ <;> omega
  have hrest : (stream 6 t).drop (8 * (6 * t.length / 8)) =
      List.replicate (6 * t.length - 8 * (6 * t.length / 8)) false := by
    rw [List.eq_replicate_iff, List.length_drop, length_stream]
    exact ⟨rfl, hzero⟩
  have hfour : List.replicate 4 false =
      List.replicate (6 * t.length - 8 * (6 * t.length / 8)) false ++
        List.replicate (4 - (6 * t.length - 8 * (6 * t.length / 8))) false := by
    rw [List.replicate_append_replicate]
    congr 1
    omega
  rw [sextets, length_octets, hlen, stream_octets, hfour, ← List.append_assoc, ← hrest,
    List.take_append_drop]
  exact map_ofGroup_stream h _

/-! ## Turns -/

theorem bits_eight (x : UInt8) : bits 8 x.toNat =
    [x.toBitVec.getLsbD 7, x.toBitVec.getLsbD 6, x.toBitVec.getLsbD 5, x.toBitVec.getLsbD 4,
      x.toBitVec.getLsbD 3, x.toBitVec.getLsbD 2, x.toBitVec.getLsbD 1, x.toBitVec.getLsbD 0] := rfl

theorem bits_six (x : UInt8) : bits 6 x.toNat =
    [x.toBitVec.getLsbD 5, x.toBitVec.getLsbD 4, x.toBitVec.getLsbD 3, x.toBitVec.getLsbD 2,
      x.toBitVec.getLsbD 1, x.toBitVec.getLsbD 0] := rfl

theorem getLsbD_of_sextet {c : UInt8} (hc : c.toNat < 2 ^ 6) {i : ℕ} (hi : 6 ≤ i) :
    c.toBitVec.getLsbD i = false :=
  Nat.testBit_lt_two_pow (hc.trans_le (Nat.pow_le_pow_right (by omega) hi))

section Encode

def firstSextet (a : UInt8) : UInt8 := a >>> 2 &&& 0x3f

def secondSextet (a b : UInt8) : UInt8 :=
  (a <<< 4 &&& (0x3f : UInt8)) ||| (b >>> 4 &&& (0x0f : UInt8))

def thirdSextet (b c : UInt8) : UInt8 :=
  (b <<< 2 &&& (0x3c : UInt8)) ||| (c >>> 6 &&& (0x03 : UInt8))

def fourthSextet (c : UInt8) : UInt8 := c &&& 0x3f

theorem and_lt_sextet (x m : UInt8) (hm : m.toNat < 2 ^ 6) : (x &&& m).toNat < 2 ^ 6 := by
  rw [UInt8.toNat_and]
  exact Nat.and_lt_two_pow _ hm

theorem or_lt_sextet {x y : UInt8} (hx : x.toNat < 2 ^ 6) (hy : y.toNat < 2 ^ 6) :
    (x ||| y).toNat < 2 ^ 6 := by
  rw [UInt8.toNat_or]
  exact Nat.or_lt_two_pow hx hy

theorem firstSextet_lt (a : UInt8) : (firstSextet a).toNat < 2 ^ 6 :=
  and_lt_sextet _ _ (by decide)

theorem secondSextet_lt (a b : UInt8) : (secondSextet a b).toNat < 2 ^ 6 :=
  or_lt_sextet (and_lt_sextet _ _ (by decide)) (and_lt_sextet _ _ (by decide))

theorem thirdSextet_lt (b c : UInt8) : (thirdSextet b c).toNat < 2 ^ 6 :=
  or_lt_sextet (and_lt_sextet _ _ (by decide)) (and_lt_sextet _ _ (by decide))

theorem fourthSextet_lt (c : UInt8) : (fourthSextet c).toNat < 2 ^ 6 :=
  and_lt_sextet _ _ (by decide)

theorem bits_three_octets (a b c : UInt8) (l : List Bool) :
    bits 8 a.toNat ++ (bits 8 b.toNat ++ (bits 8 c.toNat ++ l)) =
      bits 6 (firstSextet a).toNat ++ (bits 6 (secondSextet a b).toNat ++
        (bits 6 (thirdSextet b c).toNat ++ (bits 6 (fourthSextet c).toNat ++ l))) := by
  simp only [bits_eight, bits_six, firstSextet, secondSextet, thirdSextet, fourthSextet]
  simp

theorem sextets_three (a b c : UInt8) (s : List UInt8) :
    sextets (a :: b :: c :: s) =
      firstSextet a :: secondSextet a b :: thirdSextet b c :: fourthSextet c :: sextets s := by
  have hlen : (8 * (s.length + 1 + 1 + 1) + 5) / 6 = (8 * s.length + 5) / 6 + 1 + 1 + 1 + 1 := by
    omega
  simp only [sextets, List.length_cons, stream_cons, List.append_assoc, hlen, bits_three_octets]
  rw [groups_append (length_bits _ _), groups_append (length_bits _ _),
    groups_append (length_bits _ _), groups_append (length_bits _ _)]
  simp only [List.map_cons, ofGroup_bits (firstSextet_lt a), ofGroup_bits (secondSextet_lt a b),
    ofGroup_bits (thirdSextet_lt b c), ofGroup_bits (fourthSextet_lt c)]

theorem sextets_one (a : UInt8) : sextets [a] = [firstSextet a, a <<< 4 &&& 0x3f] := by
  have hlast : (a <<< 4 &&& 0x3f).toNat < 2 ^ 6 := and_lt_sextet _ _ (by decide)
  have hbits : stream 8 [a] ++ List.replicate 4 false =
      bits 6 (firstSextet a).toNat ++ (bits 6 (a <<< 4 &&& 0x3f).toNat ++ []) := by
    simp only [stream_cons, stream_nil, bits_eight, bits_six, firstSextet]
    simp
  have hlen : (8 * [a].length + 5) / 6 = 0 + 1 + 1 := by simp
  rw [sextets, hbits, hlen, groups_append (length_bits _ _), groups_append (length_bits _ _)]
  simp only [groups, List.map_cons, List.map_nil, ofGroup_bits (firstSextet_lt a),
    ofGroup_bits hlast]

theorem sextets_two (a b : UInt8) :
    sextets [a, b] = [firstSextet a, secondSextet a b, b <<< 2 &&& 0x3c] := by
  have hlast : (b <<< 2 &&& 0x3c).toNat < 2 ^ 6 := and_lt_sextet _ _ (by decide)
  have hbits : stream 8 [a, b] ++ List.replicate 4 false =
      bits 6 (firstSextet a).toNat ++ (bits 6 (secondSextet a b).toNat ++
        (bits 6 (b <<< 2 &&& 0x3c).toNat ++ [false, false])) := by
    simp only [stream_cons, stream_nil, bits_eight, bits_six, firstSextet, secondSextet]
    simp
  have hlen : (8 * [a, b].length + 5) / 6 = 0 + 1 + 1 + 1 := by simp
  rw [sextets, hbits, hlen, groups_append (length_bits _ _), groups_append (length_bits _ _),
    groups_append (length_bits _ _)]
  simp only [groups, List.map_cons, List.map_nil, ofGroup_bits (firstSextet_lt a),
    ofGroup_bits (secondSextet_lt a b), ofGroup_bits hlast]

end Encode

section Decode

def firstOctet (a b : UInt8) : UInt8 := a <<< 2 ||| (b >>> 4 &&& (0x3 : UInt8))

def secondOctet (b c : UInt8) : UInt8 :=
  (b <<< 4 &&& (0xf0 : UInt8)) ||| (c >>> 2 &&& (0xf : UInt8))

def thirdOctet (c d : UInt8) : UInt8 := (c <<< 6 &&& (0xc0 : UInt8)) ||| d

theorem bits_two_sextets (a b : UInt8) (l : List Bool) :
    bits 6 a.toNat ++ (bits 6 b.toNat ++ l) =
      bits 8 (firstOctet a b).toNat ++ (bits 4 b.toNat ++ l) := by
  have hfour : bits 4 b.toNat = [b.toBitVec.getLsbD 3, b.toBitVec.getLsbD 2,
    b.toBitVec.getLsbD 1, b.toBitVec.getLsbD 0] := rfl
  simp only [bits_eight, bits_six, hfour, firstOctet]
  simp

theorem bits_third_sextet (b c : UInt8) (l : List Bool) :
    bits 4 b.toNat ++ (bits 6 c.toNat ++ l) =
      bits 8 (secondOctet b c).toNat ++ (bits 2 c.toNat ++ l) := by
  have hfour : bits 4 b.toNat = [b.toBitVec.getLsbD 3, b.toBitVec.getLsbD 2,
    b.toBitVec.getLsbD 1, b.toBitVec.getLsbD 0] := rfl
  have htwo : bits 2 c.toNat = [c.toBitVec.getLsbD 1, c.toBitVec.getLsbD 0] := rfl
  simp only [bits_eight, bits_six, hfour, htwo, secondOctet]
  simp

theorem bits_fourth_sextet (c : UInt8) {d : UInt8} (hd : d.toNat < 2 ^ 6) (l : List Bool) :
    bits 2 c.toNat ++ (bits 6 d.toNat ++ l) = bits 8 (thirdOctet c d).toNat ++ l := by
  have htwo : bits 2 c.toNat = [c.toBitVec.getLsbD 1, c.toBitVec.getLsbD 0] := rfl
  have hseven : d.toBitVec[7] = false := getLsbD_of_sextet hd (i := 7) (by omega)
  have hsix : d.toBitVec[6] = false := getLsbD_of_sextet hd (i := 6) (by omega)
  simp only [bits_eight, bits_six, htwo, thirdOctet]
  simp [hseven, hsix]

theorem octets_two (a b : UInt8) : octets [a, b] = [firstOctet a b] := by
  have hlen : 6 * [a, b].length / 8 = 0 + 1 := by simp
  rw [octets, stream_cons, stream_cons, bits_two_sextets, hlen, groups_append (length_bits _ _)]
  simp only [groups, List.map_cons, List.map_nil, ofGroup_bits (firstOctet a b).toNat_lt]

theorem octets_three (a b c : UInt8) : octets [a, b, c] = [firstOctet a b, secondOctet b c] := by
  have hlen : 6 * [a, b, c].length / 8 = 0 + 1 + 1 := by simp
  rw [octets, stream_cons, stream_cons, stream_cons, bits_two_sextets, bits_third_sextet, hlen,
    groups_append (length_bits _ _), groups_append (length_bits _ _)]
  simp only [groups, List.map_cons, List.map_nil, ofGroup_bits (firstOctet a b).toNat_lt,
    ofGroup_bits (secondOctet b c).toNat_lt]

theorem octets_four (a b c : UInt8) {d : UInt8} (hd : d.toNat < 2 ^ 6) (t : List UInt8) :
    octets (a :: b :: c :: d :: t) =
      firstOctet a b :: secondOctet b c :: thirdOctet c d :: octets t := by
  have hlen : 6 * (t.length + 1 + 1 + 1 + 1) / 8 = 6 * t.length / 8 + 1 + 1 + 1 := by omega
  simp only [octets, List.length_cons, stream_cons, hlen]
  rw [bits_two_sextets, bits_third_sextet, bits_fourth_sextet c hd, groups_append (length_bits _ _),
    groups_append (length_bits _ _), groups_append (length_bits _ _)]
  simp only [List.map_cons, ofGroup_bits (firstOctet a b).toNat_lt,
    ofGroup_bits (secondOctet b c).toNat_lt, ofGroup_bits (thirdOctet c d).toNat_lt]

end Decode

end Base64

end Qing
