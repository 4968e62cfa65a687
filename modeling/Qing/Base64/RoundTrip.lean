import Qing.Base64.Loops

/-!
# The round trips

Decoding undoes encoding, whatever the octets (`decode64_encode64`), and with or without the
`=` at the end. Encoding undoes decoding on the texts that are written as `encode64` writes
them, and on no others (`encode64_decode64_iff`); other texts are decoded as well, by what they
have of letters before the first `=` (`decode64_letters`), and no text at all makes
`decode64` read where it may not (`decode64_returns`).
-/

namespace Qing

namespace Base64

theorem length_add_padding (n : ℕ) :
    (8 * n + 5) / 6 + padding n = 4 * ((n + 2) / 3) ∧ padding n < 3 := by
  obtain ⟨k, rfl | rfl | rfl⟩ : ∃ k, n = 3 * k ∨ n = 3 * k + 1 ∨ n = 3 * k + 2 :=
    ⟨n / 3, by omega⟩ <;> rw [padding] <;> omega

theorem padding_eq {n p : ℕ} (hp : p < 3) (hdvd : 4 ∣ n + p) : padding (6 * n / 8) = p := by
  obtain ⟨k, hk⟩ := hdvd
  obtain rfl | rfl | rfl : p = 0 ∨ p = 1 ∨ p = 2 := by omega
  · obtain rfl : n = 4 * k := by omega
    rw [padding]
    omega
  · obtain rfl : n = 4 * (k - 1) + 3 := by omega
    rw [padding]
    omega
  · obtain rfl : n = 4 * (k - 1) + 2 := by omega
    rw [padding]
    omega

/-- The sextets of the text stand for the bits of the octets in their order, with fewer than
six zeros behind them, and `=` fills the text up to a multiple of four. -/
theorem encode64_stream (s : List UInt8) :
    ∃ t p z, encode64 s = some (t.map letter ++ List.replicate p pad) ∧
      (∀ c ∈ t, c.toNat < 2 ^ 6) ∧ stream 6 t = stream 8 s ++ List.replicate z false ∧
      z < 6 ∧ p < 3 ∧ 4 ∣ t.length + p := by
  refine ⟨sextets s, padding s.length, _, encode64_eq s, fun c => sextet_lt, stream_sextets s, ?_⟩
  have hcount := length_add_padding s.length
  rw [length_sextets]
  omega

theorem ends_replicate {t : List UInt8} {p : ℕ} (hp : p < 3) (hdvd : 4 ∣ t.length + p) :
    Ends t (List.replicate p pad) := by
  rcases Nat.eq_zero_or_pos p with rfl | hpos
  · exact Or.inl ⟨rfl, by omega⟩
  · obtain ⟨k, rfl⟩ := Nat.exists_eq_succ_of_ne_zero hpos.ne'
    exact Or.inr ⟨rfl, by omega⟩

theorem decode64_text (s : List UInt8) : decode64 (text s) = some s := by
  have hcount := length_add_padding s.length
  rw [text, decode64_eq (fun c => sextet_lt) (ends_replicate ?_ ?_), octets_sextets]
  · exact hcount.2
  · rw [length_sextets, hcount.1]
    exact Nat.dvd_mul_right 4 _

/-- What `encode64` writes is read back, and so is what is left of it without the `=`. -/
theorem decode64_encode64 (s : List UInt8) :
    (encode64 s).bind decode64 = some s ∧
      (encode64 s).bind (fun t => decode64 (t.filter (· ≠ pad))) = some s := by
  rw [encode64_eq, Option.bind_some, Option.bind_some]
  have hkeep : ((sextets s).map letter).filter (· ≠ pad) = (sextets s).map letter := by
    rw [List.filter_eq_self]
    intro x hx
    obtain ⟨c, hc, rfl⟩ := List.mem_map.mp hx
    exact decide_eq_true (letter_ne_pad (sextet_lt hc))
  have hletters : (text s).filter (· ≠ pad) = (sextets s).map letter ++ [] := by
    rw [text, List.filter_append, hkeep, List.filter_replicate_of_neg (by simp)]
  refine ⟨decode64_text s, ?_⟩
  have hcount := length_add_padding s.length
  rw [hletters, decode64_eq (fun c => sextet_lt) (Or.inl ⟨rfl, ?_⟩), octets_sextets]
  rw [length_sextets]
  omega

/-- Letters are decoded to the whole octets of the bits of their sextets, up to the end or
to a `=` in the third or fourth place, and nothing after that `=` is looked at. -/
theorem decode64_letters {t rest : List UInt8} (ht : ∀ c ∈ t, c.toNat < 2 ^ 6)
    (hends : Ends t rest) :
    ∃ d, decode64 (t.map letter ++ rest) = some d ∧
      stream 8 d = (stream 6 t).take (8 * (6 * t.length / 8)) :=
  ⟨octets t, decode64_eq ht hends, stream_octets t⟩

/-- The text `TW=F==`. -/
theorem decode64_letters_sample :
    ∃ d, decode64 ([84, 87] ++ [61, 70, 61, 61]) = some d ∧
      stream 8 d = [false, true, false, false, true, true, false, true] :=
  decode64_letters (t := [19, 22]) (by simp) (Or.inr ⟨rfl, by simp⟩)

/-- The texts that `encode64` writes. -/
def Canonical (input : List UInt8) : Prop :=
  ∃ t p, input = t.map letter ++ List.replicate p pad ∧ (∀ c ∈ t, c.toNat < 2 ^ 6) ∧
    p < 3 ∧ 4 ∣ t.length + p ∧ ∀ b ∈ (stream 6 t).drop (8 * (6 * t.length / 8)), b = false

/-- A text is what its octets are encoded to if and only if its length is a multiple of
four, it has letters only, but for one or two `=` at the end, and the bits that make no
whole octet are zero. -/
theorem encode64_decode64_iff (input : List UInt8) :
    (decode64 input).bind encode64 = some input ↔ Canonical input := by
  constructor
  · intro h
    obtain ⟨s, -, hs⟩ := Option.bind_eq_some_iff.mp h
    rw [encode64_eq, Option.some.injEq] at hs
    refine ⟨sextets s, padding s.length, hs.symm, fun c => sextet_lt, ?_⟩
    have hwhole : 8 * (6 * ((8 * s.length + 5) / 6) / 8) = (stream 8 s).length := by
      rw [length_stream]
      omega
    have hcount := length_add_padding s.length
    rw [length_sextets, stream_sextets, hwhole, List.drop_left, hcount.1]
    exact ⟨hcount.2, Nat.dvd_mul_right 4 _, fun b hb => List.eq_of_mem_replicate hb⟩
  · rintro ⟨t, p, rfl, ht, hp, hdvd, hzero⟩
    rw [decode64_eq ht (ends_replicate hp hdvd), Option.bind_some, encode64_eq, text,
      length_octets, padding_eq hp hdvd, sextets_octets ht (by omega) hzero]

/-- `decode64` comes to an end on any text, having read nothing beyond the zero at its end and
nothing outside its table, and makes no more octets than it has reserved room for: of
every four characters three, or fewer where it stops at a `=`. -/
theorem decode64_returns (input : List UInt8) :
    ∃ d, decode64 input = some d ∧ d.length ≤ input.length ∧
      d.length ≤ 3 * (input.length / 4) + (input.length % 4 + 1) / 2 ∧
      (pad ∉ input → d.length = 3 * (input.length / 4) + (input.length % 4 + 1) / 2) := by
  have hn : input.length - 0 < input.length + 1 := Nat.lt_succ_self _
  obtain ⟨d, hd, hle, heq⟩ := decodeLoop_gains hn []
  rw [List.length_nil, Nat.zero_add, Nat.sub_zero, yield] at hle heq
  exact ⟨d, hd, by omega, hle, heq⟩

end Base64

end Qing
