import Mathlib.Data.Nat.Log
import Qing.Lib.Smear
import Qing.Queue.Dequeue

/-!
# A queue as it is constructed

The first block gets the least power of two that holds `maxSize` elements and the slot left
empty, by `ceilToPow2`.
-/

namespace Qing

variable {T : Type*}

/-! ## Rounding up to a power of two -/

theorem clog_two_eq_size {n : ℕ} (hn : 0 < n) : Nat.clog 2 n = Nat.size (n - 1) := by
  refine eq_of_forall_ge_iff fun k => ?_
  rw [Nat.clog_le_iff_le_pow (by omega), Nat.size_le]
  omega

theorem ceilToPow2_smears (x : UInt64) :
    ∃ y : UInt64, ceilToPow2 x = y + 1 ∧ Smears 64 (x - 1).toNat y.toNat := by
  have h₁ := Smears.one (x - 1).toNat
  have h₆₄ := h₁.double.double.double.double.double.double
  refine ⟨_, rfl, ?_⟩
  simpa [UInt64.toNat_or, UInt64.toNat_shiftRight] using h₆₄

theorem ceilToPow2_toNat_of_pos {x : UInt64} (hx : 0 < x.toNat) :
    (ceilToPow2 x).toNat = 2 ^ Nat.clog 2 x.toNat % 2 ^ 64 := by
  obtain ⟨y, hy, hsmears⟩ := ceilToPow2_smears x
  have hpred : (x - 1).toNat = x.toNat - 1 :=
    UInt64.toNat_sub_of_le x 1 (UInt64.le_iff_toNat_le.mpr hx)
  have hval := hsmears.eq (x - 1).toNat_lt
  have hpos : 0 < 2 ^ Nat.clog 2 x.toNat := Nat.two_pow_pos _
  rw [hpred, ← clog_two_eq_size hx] at hval
  rw [hy, UInt64.toNat_add, hval]
  change (2 ^ Nat.clog 2 x.toNat - 1 + 1) % 2 ^ 64 = _
  rw [Nat.sub_add_cancel hpos]

/-- The least power of two that is not less; from `2 ^ 63` on there is none, and for 0 the
decrement wraps. -/
theorem ceilToPow2_toNat (x : UInt64) :
    (ceilToPow2 x).toNat =
      if 0 < x.toNat ∧ x.toNat ≤ 2 ^ 63 then 2 ^ Nat.clog 2 x.toNat else 0 := by
  rcases Nat.eq_zero_or_pos x.toNat with hzero | hpos
  · obtain rfl : x = 0 := UInt64.toNat_inj.mp hzero
    rfl
  · rw [ceilToPow2_toNat_of_pos hpos]
    split
    · rename_i hle
      have hclog : Nat.clog 2 x.toNat ≤ 63 := Nat.clog_le_of_le_pow hle.2
      exact Nat.mod_eq_of_lt (Nat.pow_lt_pow_right (by omega) (by omega))
    · rename_i hgt
      have hlow : 63 < Nat.clog 2 x.toNat :=
        (Nat.lt_clog_iff_pow_lt (by omega)).mpr (by omega)
      have hhigh : Nat.clog 2 x.toNat ≤ 64 := Nat.clog_le_of_le_pow x.toNat_lt.le
      rw [show Nat.clog 2 x.toNat = 64 by omega, Nat.mod_self]

/-- `ceilToPow2` rounds up to the next power of two; from `2 ^ 63` on it returns 0, as it
does for 0. -/
theorem ceilToPow2_spec (x : UInt64) :
    (ceilToPow2 x = 0 ↔ x = 0 ∨ 2 ^ 63 < x.toNat) ∧
      (ceilToPow2 x ≠ 0 → ∃ k, (ceilToPow2 x).toNat = 2 ^ k ∧ x.toNat ≤ 2 ^ k ∧
        ∀ j, x.toNat ≤ 2 ^ j → k ≤ j) := by
  have hval := ceilToPow2_toNat x
  have hzero : x = 0 ↔ x.toNat = 0 := UInt64.toNat_inj.symm
  have hnone : ceilToPow2 x = 0 ↔ (ceilToPow2 x).toNat = 0 := UInt64.toNat_inj.symm
  rw [hnone, ne_eq, hnone, hzero, hval]
  split
  · rename_i hx
    have hpow := Nat.two_pow_pos (Nat.clog 2 x.toNat)
    exact ⟨by omega, fun _ => ⟨Nat.clog 2 x.toNat, rfl, Nat.le_pow_clog (by omega) _,
      fun j => Nat.clog_le_of_le_pow⟩⟩
  · exact ⟨by omega, fun h => absurd rfl h⟩

/-! ## The first block -/

theorem exists_firstSize {maxSize : UInt64} (hpos : 0 < maxSize.toNat)
    (hlt : maxSize.toNat < 2 ^ 63) :
    ∃ e, (ceilToPow2 (maxSize + 1)).toNat = 2 ^ (e + 1) ∧ maxSize.toNat + 1 ≤ 2 ^ (e + 1) := by
  have hsucc : (maxSize + 1).toNat = maxSize.toNat + 1 := by
    rw [UInt64.toNat_add]
    exact Nat.mod_eq_of_lt (by simp; omega)
  have hclog : 0 < Nat.clog 2 (maxSize.toNat + 1) := Nat.clog_pos (by omega) (by omega)
  refine ⟨Nat.clog 2 (maxSize.toNat + 1) - 1, ?_⟩
  rw [Nat.sub_add_cancel hclog, ceilToPow2_toNat, hsucc, if_pos (by omega)]
  exact ⟨rfl, Nat.le_pow_clog (by omega) _⟩

/-- A queue in which nothing has happened. -/
def QueueHistory.empty : QueueHistory T where
  values := []
  place _ := 0
  block _ := 0
  start _ := 0
  last := 0

theorem QueueHistory.wf_empty : (QueueHistory.empty : QueueHistory T).Wf where
  start_zero := rfl
  start_lt _ h := absurd h (Nat.not_lt_zero _)
  start_last := le_rfl
  start_last_lt h := absurd h (lt_irrefl _)
  place_eq _ _ _ _ _ := rfl

theorem matches_construct (e : ℕ) (maxSize : UInt64) :
    Matches .empty (blockCap e) (ReaderWriterQueue.construct (T := T) maxSize).memory.mem
      ⟨0, 0, 0, fun b => if b = 0 then some 0 else none⟩ ⟨0, 0, 0⟩ where
  front b := by simp [ReaderWriterQueue.construct]
  tail b := by simp [ReaderWriterQueue.construct]
  next _ := rfl
  live k _ _ hlt := absurd hlt (Nat.not_lt_zero k)
  raw _ _ _ := rfl
  frontBlock := rfl
  tailBlock := rfl

theorem layout_construct {maxSize : UInt64} {e : ℕ}
    (hsize : (ceilToPow2 (maxSize + 1)).toNat = 2 ^ (e + 1)) :
    Layout e (ReaderWriterQueue.construct maxSize : ReaderWriterQueue T) .empty
      ⟨0, 0, 0, fun b => if b = 0 then some 0 else none⟩
      ⟨0, 0, 0, fun b => if b = 0 then some 0 else none⟩ ⟨0, 0, 0⟩ ⟨0, 0, 0⟩ where
  wf := QueueHistory.wf_empty
  tracks :=
    { mem := matches_construct e maxSize
      path := fun thread => by cases thread <;> exact System.Path.refl _ }
  produced := ⟨le_rfl, Nat.zero_le _, le_rfl, fun h => absurd h (lt_irrefl _)⟩
  consumed := ⟨le_rfl, le_rfl, Nat.zero_le _, le_rfl⟩
  made_eq := rfl
  told_eq := rfl
  visit_eq := rfl
  freed_eq := rfl
  gone_le := le_rfl
  visit_le := le_rfl
  room b := by
    have := two_le_blockCap e b
    rw [show (QueueHistory.empty : QueueHistory T).length = 0 from rfl, QueueHistory.count_zero]
    omega
  left_full _ h := absurd h (Nat.not_lt_zero _)
  linked _ _ h := absurd h (Nat.not_lt_zero _)
  circle := ⟨[], Circle.singleton rfl, List.Perm.refl _⟩
  block_lt _ _ := Nat.zero_lt_one
  size b hb := by
    obtain rfl : b = 0 := Nat.lt_one_iff.mp hb
    simpa [ReaderWriterQueue.construct, blockCap] using hsize
  largest := by
    change (ceilToPow2 (maxSize + 1)).toNat * 2 = 2 ^ (e + 1 + 1)
    rw [hsize, Nat.pow_succ 2 (e + 1)]
  blocks_lt := by
    have hlt := (ceilToPow2 (maxSize + 1)).toNat_lt
    rw [hsize] at hlt
    exact (Nat.pow_lt_pow_iff_right (by omega)).mp hlt

end Qing
