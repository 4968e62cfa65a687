import Mathlib.Algebra.BigOperators.Group.Finset.Piecewise
import Mathlib.Algebra.Order.BigOperators.Group.Finset
import Qing.Queue.Runs

/-!
# The circle as a whole

`size_approx` and the destructor walk the circle of blocks from the front block on. What the
walk counts is the elements from the one position to the other, each in one block
(`sum_count`); so with all standing still the producer reads the number of elements that it has
not seen freed (`sizeApprox_producer`).
-/

namespace Qing

variable {T : Type*}

namespace QueueHistory

variable {H : QueueHistory T} {n j k : ℕ}

/-- Every element is in one block. -/
theorem sum_count (hplace : ∀ j < k, H.place j < n) :
    ∑ b ∈ Finset.range n, H.count k b = k := by
  induction k with
  | zero => simp
  | succ k ih =>
      have hone : ∀ b, H.count (k + 1) b = H.count k b + if H.place k = b then 1 else 0 :=
        fun b => Nat.count_succ _ _
      have hlt := hplace k (Nat.lt_succ_self k)
      rw [Finset.sum_congr rfl fun b _ => hone b, Finset.sum_add_distrib,
        ih fun j hj => hplace j (hj.trans (Nat.lt_succ_self k)), Finset.sum_ite_eq,
        if_pos (Finset.mem_range.mpr hlt)]

theorem sum_count_sub (hjk : j ≤ k) (hplace : ∀ j < k, H.place j < n) :
    ∑ b ∈ Finset.range n, (H.count k b - H.count j b) = k - j := by
  have hle : ∀ b, H.count k b = (H.count k b - H.count j b) + H.count j b := fun b =>
    (Nat.sub_add_cancel (count_mono hjk b)).symm
  have hk := sum_count hplace
  have hj := sum_count (H := H) (k := j) (n := n) fun i hi => hplace i (hi.trans_le hjk)
  rw [Finset.sum_congr rfl fun b _ => hle b, Finset.sum_add_distrib, hj] at hk
  omega

theorem Wf.place_lt (h : H.Wf) (hblock : ∀ v ≤ H.last, H.block v < n) (hj : j < H.length) :
    H.place j < n := by
  obtain ⟨w, -, hw, hstart, hstop⟩ := exists_visit (Nat.zero_le H.last)
    (h.start_zero.trans_le (Nat.zero_le j)) hj
  rw [h.place_eq w hw j hstart hstop]
  exact hblock w hw

end QueueHistory

theorem list_sum_range (n : ℕ) (f : ℕ → ℕ) :
    ((List.range n).map f).sum = ∑ b ∈ Finset.range n, f b := rfl

namespace Layout

variable {e : ℕ} {q : ReaderWriterQueue T} {H : QueueHistory T} {P₀ P : Produced}
  {C₀ C : Consumed} {m : QueueMemory T}

theorem circuit_from (h : Layout e q H P₀ P C₀ C) {v : ℕ} (hv : C₀.visit ≤ v)
    (hlast : v ≤ H.last) {next : ℕ → Option ℕ} (hnext : ∀ b, next b = P.next b) :
    ∃ free, circuit next (H.block v) q.blocks (H.block v) = some (H.window v ++ free) ∧
      Circle P.next (H.window v ++ free) ∧
      (H.window v ++ free).Perm (List.range q.blocks) := by
  obtain ⟨free, hcircle, hperm⟩ := h.circle_from hv hlast
  obtain rfl : next = P.next := funext hnext
  refine ⟨free, ?_, hcircle, hperm⟩
  obtain ⟨rest, hrest⟩ := List.head?_eq_some_iff.mp (QueueHistory.window_head hlast)
  have hlen := hperm.length_eq
  rw [hrest, List.cons_append] at hcircle hlen ⊢
  rw [List.length_cons, List.length_range] at hlen
  exact hcircle.circuit_eq (by omega)

theorem block_size (h : Layout e q H P₀ P C₀ C) {b j f t : ℕ} (hb : b < q.blocks)
    (hroom : H.count H.length b + 1 ≤ H.count j b + blockCap e b) (hf : j ≤ f) (hft : f ≤ t)
    (ht : t ≤ H.length) :
    (H.count t b % blockCap e b + 2 ^ 64 - H.count f b % blockCap e b) % 2 ^ 64 &&&
      q.sizeMask b = H.count t b - H.count f b := by
  have hcf := QueueHistory.count_mono (H := H) hf b
  have hct := QueueHistory.count_mono (H := H) ht b
  have hcft := QueueHistory.count_mono (H := H) hft b
  have hlt := h.blocks_lt
  rw [ReaderWriterQueue.sizeMask, h.size b hb]
  exact RingIndex.sub_mask (by omega) hcft (by rw [blockCap] at hroom; omega)

theorem length_lt (h : Layout e q H P₀ P C₀ C) : H.length - C₀.freed < 2 ^ 64 := by
  have hcap : ∀ b ∈ Finset.range q.blocks,
      H.count H.length b - H.count C₀.freed b ≤ blockCap e b := fun b _ => by
    have := h.room b
    omega
  have hsum := Finset.sum_le_sum hcap
  rw [QueueHistory.sum_count_sub h.freed_le_length fun j hj => h.wf.place_lt h.block_lt hj,
    ← list_sum_range, sum_blockCap] at hsum
  have hlt := h.blocks_lt
  calc H.length - C₀.freed ≤ 2 ^ (e + 1) * (2 ^ q.blocks - 1) := hsum
    _ < 2 ^ (e + 1) * 2 ^ q.blocks :=
        Nat.mul_lt_mul_of_pos_left (Nat.sub_lt (Nat.two_pow_pos _) Nat.one_pos)
          (Nat.two_pow_pos _)
    _ = 2 ^ (e + 1 + q.blocks) := (Nat.pow_add 2 (e + 1) q.blocks).symm
    _ ≤ 2 ^ 64 := Nat.pow_le_pow_right (by omega) (by omega)

theorem sum_walk (h : Layout e q H P₀ P C₀ C) {f : ℕ} {blocks : List ℕ}
    (hperm : blocks.Perm (List.range q.blocks)) (hf : C₀.freed ≤ f) (hft : f ≤ H.length)
    {front tail : ℕ → ℕ} (hfront : ∀ b, front b = H.count f b % blockCap e b)
    (htail : ∀ b, tail b = H.count H.length b % blockCap e b) :
    (blocks.map fun b => (tail b + 2 ^ 64 - front b) % 2 ^ 64 &&& q.sizeMask b).sum % 2 ^ 64 =
      H.length - f := by
  have hlt := h.length_lt
  rw [(hperm.map _).sum_eq, list_sum_range]
  have hblock : ∀ b ∈ Finset.range q.blocks,
      (tail b + 2 ^ 64 - front b) % 2 ^ 64 &&& q.sizeMask b =
        H.count H.length b - H.count f b := fun b hb => by
    rw [hfront, htail, h.block_size (Finset.mem_range.mp hb) (h.room b) hf hft le_rfl]
  rw [Finset.sum_congr rfl hblock,
    QueueHistory.sum_count_sub hft fun j hj => h.wf.place_lt h.block_lt hj]
  exact Nat.mod_eq_of_lt (by omega)

/-- The producer reads the number of elements that the memory does not show to be freed. -/
theorem sizeApprox_producer (h : Layout e q H P₀ P C₀ C) :
    q.sizeApprox .producer = some (H.length - C₀.freed) := by
  have hm := h.producer_view
  have hle := h.visit_le_last
  obtain ⟨free, hcircuit, -, hperm⟩ := h.circuit_from le_rfl (hle.1.trans hle.2) hm.next
  simp only [ReaderWriterQueue.sizeApprox, hm.frontBlock, hcircuit, Option.map_some]
  rw [h.sum_walk hperm le_rfl h.freed_le_length hm.front fun b => by rw [hm.tail, h.told_eq]]

end Layout

end Qing
