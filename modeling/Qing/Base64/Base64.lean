import Mathlib.Tactic.Common

/-!
# Base64

The two loops over a `std::string`, a list of its characters. A loop moves its own index,
so a turn gives back the index it has come to; a read beyond the end of a string or of the
table is undefined, and then there is no result.
-/

namespace Qing

namespace Base64

def alphabet64 : List UInt8 :=
  "ABCDEFGHIJKLMNOPQRSTUVWXYZabcdefghijklmnopqrstuvwxyz0123456789+/".toList.map fun c =>
    UInt8.ofNat c.toNat

def pad : UInt8 := 61

/-- What stands for a character that is not in the alphabet. -/
def np : UInt8 := 255

def table64vals : List UInt8 :=
  [62, np, np, np, 63, 52, 53, 54, 55, 56, 57, 58, 59, 60, 61, np, np, np, np, np,
    np, np, 0, 1, 2, 3, 4, 5, 6, 7, 8, 9, 10, 11, 12, 13, 14, 15, 16, 17,
    18, 19, 20, 21, 22, 23, 24, 25, np, np, np, np, np, np, 26, 27, 28, 29, 30, 31,
    32, 33, 34, 35, 36, 37, 38, 39, 40, 41, 42, 43, 44, 45, 46, 47, 48, 49, 50, 51]

def table64 (c : UInt8) : Option UInt8 :=
  if c < 43 ∨ c > 122 then some np else table64vals[(c - 43).toNat]?

/-- `operator[]`, which finds a zero at the length of the string. -/
def charAt (input : List UInt8) (i : ℕ) : Option UInt8 :=
  if i = input.length then some 0 else input[i]?

/-- The third character of a turn of `encode64`, if there is a second one to encode. -/
def encodeThird (input : List UInt8) (i : ℕ) (encoded : List UInt8) :
    Option (ℕ × List UInt8) := do
  let c : UInt8 := (← charAt input i) <<< 2 &&& 0x3c
  let i := i + 1
  let c ← if i < input.length then (charAt input i).map fun (x : UInt8) => c ||| (x >>> 6 &&& 0x03)
    else some c
  some (i, encoded ++ [← charAt alphabet64 c.toNat])

/-- The body of the loop of `encode64`. -/
def encodeTurn (input : List UInt8) (i : ℕ) (encoded : List UInt8) :
    Option (ℕ × List UInt8) := do
  let c : UInt8 := (← charAt input i) >>> 2 &&& 0x3f
  let encoded := encoded ++ [← charAt alphabet64 c.toNat]
  let c : UInt8 := (← charAt input i) <<< 4 &&& 0x3f
  let i := i + 1
  let c ← if i < input.length then (charAt input i).map fun (x : UInt8) => c ||| (x >>> 4 &&& 0x0f)
    else some c
  let encoded := encoded ++ [← charAt alphabet64 c.toNat]
  let (i, encoded) ← if i < input.length then encodeThird input i encoded
    else some (i + 1, encoded ++ [pad])
  if i < input.length then
    let c : UInt8 := (← charAt input i) &&& 0x3f
    some (i, encoded ++ [← charAt alphabet64 c.toNat])
  else some (i, encoded ++ [pad])

/-- The loop, with an index of at least one more in every turn. -/
def encodeLoop (input : List UInt8) : ℕ → ℕ → List UInt8 → Option (List UInt8)
  | 0, _, _ => none
  | n + 1, i, encoded =>
      if i < input.length then
        (encodeTurn input i encoded).bind fun turn => encodeLoop input n (turn.1 + 1) turn.2
      else some encoded

def encode64 (input : List UInt8) : Option (List UInt8) :=
  encodeLoop input (input.length + 1) 0 []

/-- Where a turn of `decode64` ends. -/
structure DecodeTurn where
  i : ℕ
  decoded : List UInt8
  /-- The turn leaves the loop. -/
  broke : Bool

/-- The fourth character of a turn of `decode64`; `c` is the third one. -/
def decodeFourth (input : List UInt8) (i : ℕ) (c : UInt8) (decoded : List UInt8) :
    Option DecodeTurn :=
  if i < input.length then do
    let d ← charAt input i
    if pad = d then some ⟨i, decoded, true⟩
    else
      let d ← table64 (← charAt input i)
      let c : UInt8 := (c <<< 6 &&& 0xc0) ||| d
      some ⟨i, decoded ++ [c], false⟩
  else some ⟨i, decoded, false⟩

/-- The body of the loop of `decode64`. -/
def decodeTurn (input : List UInt8) (i : ℕ) (decoded : List UInt8) : Option DecodeTurn := do
  let c ← table64 (← charAt input i)
  let i := i + 1
  let d ← table64 (← charAt input i)
  let c : UInt8 := c <<< 2 ||| (d >>> 4 &&& 0x3)
  let decoded := decoded ++ [c]
  let i := i + 1
  if i < input.length then
    let c ← charAt input i
    if pad = c then some ⟨i, decoded, true⟩
    else
      let c ← table64 (← charAt input i)
      let d : UInt8 := (d <<< 4 &&& (0xf0 : UInt8)) ||| (c >>> 2 &&& (0xf : UInt8))
      decodeFourth input (i + 1) c (decoded ++ [d])
  else decodeFourth input (i + 1) c decoded

def decodeLoop (input : List UInt8) : ℕ → ℕ → List UInt8 → Option (List UInt8)
  | 0, _, _ => none
  | n + 1, i, decoded =>
      if i < input.length then
        (decodeTurn input i decoded).bind fun turn =>
          if turn.broke then some turn.decoded else decodeLoop input n (turn.i + 1) turn.decoded
      else some decoded

def decode64 (input : List UInt8) : Option (List UInt8) :=
  decodeLoop input (input.length + 1) 0 []

end Base64

end Qing
