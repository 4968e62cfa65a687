import Mathlib.Order.Interval.Finset.Nat
import Mathlib.Data.Nat.Count
import Qing.Lib.RingIndex
import Qing.Queue.ReaderWriterQueue

/-!
# What the queue's memory stands for

`QueueHistory` is the story of a run as the producer made it: the elements in the order in
which they were enqueued, the block of each, and the blocks in the order in which they
were the tail block. A `Produced` and a `Consumed` are positions in that story, and `Matches`
says what the memory holds at them: an index is the number of the elements of its
block up to the position, modulo the size of the block, and an element is in its slot
from the step that constructs it to the one that destroys it. The two steps
relations are the stores that the threads make, each with the move it is; `Matches.produce`
and `Matches.consume` take the memory along.
-/

namespace Qing

structure QueueHistory (T : Type*) where
  values : List T
  /-- The block of each element. -/
  place : ℕ → ℕ
  /-- The block of each visit, a visit being the time it is the tail block. -/
  block : ℕ → ℕ
  /-- The number of elements enqueued before the visit. -/
  start : ℕ → ℕ
  /-- The visit going on. -/
  last : ℕ

variable {T : Type*}

namespace QueueHistory

variable (H : QueueHistory T) (cap : ℕ → ℕ)

def length : ℕ := H.values.length

/-- How many of the first `k` elements went to the block. -/
def count (k block : ℕ) : ℕ := Nat.count (fun j => H.place j = block) k

def slot (k : ℕ) : ℕ := H.count k (H.place k) % cap (H.place k)

/-- The number of elements enqueued up to the end of the visit. -/
def stop (v : ℕ) : ℕ := if v < H.last then H.start (v + 1) else H.length

variable {H cap}

@[simp] theorem count_zero (block : ℕ) : H.count 0 block = 0 := Nat.count_zero _

theorem count_succ_self {k block : ℕ} (h : H.place k = block) :
    H.count (k + 1) block = H.count k block + 1 := by
  rw [count, Nat.count_succ, if_pos h]
  rfl

theorem count_succ_of_ne {k block : ℕ} (h : H.place k ≠ block) :
    H.count (k + 1) block = H.count k block := by
  rw [count, Nat.count_succ, if_neg h]
  rfl

theorem count_mono {j k : ℕ} (h : j ≤ k) (block : ℕ) : H.count j block ≤ H.count k block :=
  Nat.count_monotone _ h

theorem count_lt {j k block : ℕ} (hj : H.place j = block) (h : j < k) :
    H.count j block < H.count k block :=
  Nat.count_strict_mono (p := fun j => H.place j = block) hj h

theorem count_le_add (j d block : ℕ) : H.count (j + d) block ≤ H.count j block + d := by
  rw [count, Nat.count_add]
  exact Nat.add_le_add_left (Nat.count_le _) _

theorem exists_of_count_lt {j k block : ℕ} (h : H.count j block < H.count k block) :
    ∃ i, j ≤ i ∧ i < k ∧ H.place i = block := by
  by_contra hnone
  push Not at hnone
  have hle : ∀ i, i ≤ k → H.count i block ≤ H.count j block := by
    intro i
    induction i with
    | zero => intro _; simp
    | succ i ih =>
        intro hi
        rcases Nat.lt_or_ge i j with hlt | hge
        · exact count_mono hlt block
        · rw [count_succ_of_ne (hnone i hge (by omega))]
          exact ih (by omega)
  exact absurd (hle k le_rfl) (by omega)

theorem count_eq_of_forall {j k block : ℕ} (hjk : j ≤ k)
    (h : ∀ i, j ≤ i → i < k → H.place i ≠ block) : H.count j block = H.count k block := by
  refine le_antisymm (count_mono hjk block) (le_of_not_gt fun hlt => ?_)
  obtain ⟨i, hji, hik, hi⟩ := exists_of_count_lt hlt
  exact h i hji hik hi

theorem stop_of_lt {v : ℕ} (h : v < H.last) : H.stop v = H.start (v + 1) := if_pos h

@[simp] theorem stop_last : H.stop H.last = H.length := if_neg (lt_irrefl _)

theorem exists_visit {v k : ℕ} (hv : v ≤ H.last) (hk : H.start v ≤ k)
    (hlen : k < H.length) : ∃ w, v ≤ w ∧ w ≤ H.last ∧ H.start w ≤ k ∧ k < H.stop w := by
  have hstop : ∀ w, v ≤ w → w ≤ H.last → k < H.stop w →
      ∃ w, v ≤ w ∧ w ≤ H.last ∧ H.start w ≤ k ∧ k < H.stop w := by
    intro w hvw
    induction w, hvw using Nat.le_induction with
    | base => exact fun hw hlt => ⟨v, le_rfl, hw, hk, hlt⟩
    | succ w hvw ih =>
        intro hw hlt
        rcases Nat.lt_or_ge k (H.start (w + 1)) with hbefore | hafter
        · exact ih (by omega) (by rwa [stop_of_lt (by omega)])
        · exact ⟨w + 1, by omega, hw, hafter, hlt⟩
  exact hstop H.last hv le_rfl (by rwa [stop_last])

/-- The visits divide the elements among themselves, each with its block. -/
structure Wf (H : QueueHistory T) : Prop where
  start_zero : H.start 0 = 0
  start_lt : ∀ v < H.last, H.start v < H.start (v + 1)
  start_last : H.start H.last ≤ H.length
  start_last_lt : 0 < H.last → H.start H.last < H.length
  place_eq : ∀ v ≤ H.last, ∀ k, H.start v ≤ k → k < H.stop v → H.place k = H.block v

namespace Wf

theorem start_mono (h : H.Wf) {v w : ℕ} (hvw : v ≤ w) (hw : w ≤ H.last) :
    H.start v ≤ H.start w := by
  induction w, hvw using Nat.le_induction with
  | base => exact le_rfl
  | succ w hvw ih => exact (ih (by omega)).trans (h.start_lt w (by omega)).le

theorem stop_le_start (h : H.Wf) {v w : ℕ} (hvw : v < w) (hw : w ≤ H.last) :
    H.stop v ≤ H.start w := by
  rw [stop_of_lt (by omega)]
  exact h.start_mono hvw hw

theorem start_le_stop (h : H.Wf) {v : ℕ} (hv : v ≤ H.last) : H.start v ≤ H.stop v := by
  rcases Nat.lt_or_eq_of_le hv with hlt | rfl
  · rw [stop_of_lt hlt]
    exact (h.start_lt v hlt).le
  · rw [stop_last]
    exact h.start_last

theorem start_lt_stop (h : H.Wf) {v : ℕ} (hpos : 0 < v) (hv : v ≤ H.last) :
    H.start v < H.stop v := by
  rcases Nat.lt_or_eq_of_le hv with hlt | rfl
  · rw [stop_of_lt hlt]
    exact h.start_lt v hlt
  · rw [stop_last]
    exact h.start_last_lt hpos

theorem stop_mono (h : H.Wf) {v w : ℕ} (hvw : v ≤ w) (hw : w ≤ H.last) :
    H.stop v ≤ H.stop w := by
  rcases Nat.lt_or_eq_of_le hvw with hlt | rfl
  · exact (h.stop_le_start hlt hw).trans (h.start_le_stop hw)
  · exact le_rfl

theorem stop_le_length (h : H.Wf) {v : ℕ} (hv : v ≤ H.last) : H.stop v ≤ H.length := by
  rcases Nat.lt_or_eq_of_le hv with hlt | rfl
  · exact (h.stop_le_start hlt le_rfl).trans h.start_last
  · rw [stop_last]

end Wf

end QueueHistory

/-! ## Positions -/

/-- How far the producer has come. -/
structure Produced where
  /-- The elements constructed. -/
  made : ℕ
  /-- The elements that the tails count. -/
  told : ℕ
  /-- The visit that `tailBlock` is at. -/
  visit : ℕ
  next : ℕ → Option ℕ

/-- How far the consumer has come. -/
structure Consumed where
  /-- The elements destroyed. -/
  gone : ℕ
  /-- The elements that the fronts count. -/
  freed : ℕ
  /-- The visit that `frontBlock` is at. -/
  visit : ℕ

section Positions

variable (H : QueueHistory T) (cap : ℕ → ℕ)

/-- A store of the producer, and the move it is. -/
inductive ProduceStep : Produced → QueueStore T → Produced → Prop
  | initFront {P : Produced} {block : ℕ} : H.count P.made block = 0 →
      ProduceStep P (.front block 0) P
  | initTail {P : Produced} {block : ℕ} : H.count P.made block = 0 →
      ProduceStep P (.tail block 0) P
  | construct {P : Produced} {x : T} : P.told = P.made → H.values[P.made]? = some x →
      ProduceStep P (.data (H.place P.made) (H.slot cap P.made) (some x))
        { P with made := P.made + 1 }
  | tail {P : Produced} : P.made = P.told + 1 → P.made ≤ H.length →
      ProduceStep P
        (.tail (H.place P.told) (H.count (P.told + 1) (H.place P.told) % cap (H.place P.told)))
        { P with told := P.told + 1 }
  | link {P : Produced} {block : ℕ} {target : Option ℕ} : P.visit < H.last →
      block = H.block P.visit ∨ block = H.block (P.visit + 1) →
      ProduceStep P (.next block target) { P with next := Function.update P.next block target }
  | enter {P : Produced} : P.visit < H.last → H.start (P.visit + 1) < P.told →
      P.next (H.block P.visit) = some (H.block (P.visit + 1)) →
      ProduceStep P (.tailBlock (H.block (P.visit + 1))) { P with visit := P.visit + 1 }

/-- A store of the consumer, and the move it is. -/
inductive ConsumeStep : Consumed → QueueStore T → Consumed → Prop
  | destroy {C : Consumed} : C.freed = C.gone → C.gone < H.stop C.visit →
      ConsumeStep C (.data (H.place C.gone) (H.slot cap C.gone) none)
        { C with gone := C.gone + 1 }
  | front {C : Consumed} : C.gone = C.freed + 1 →
      ConsumeStep C
        (.front (H.place C.freed)
          (H.count (C.freed + 1) (H.place C.freed) % cap (H.place C.freed)))
        { C with freed := C.freed + 1 }
  | switch {C : Consumed} : C.freed = C.gone → C.visit < H.last →
      C.gone = H.start (C.visit + 1) →
      ConsumeStep C (.frontBlock (H.block (C.visit + 1))) { C with visit := C.visit + 1 }

/-- The elements from one position to the other leave a slot of every block free. -/
structure Fits (P : Produced) (C : Consumed) : Prop where
  freed_le : C.freed ≤ C.gone
  gone_le : C.gone ≤ P.told
  told_le : P.told ≤ P.made
  room : ∀ b, H.count P.made b + 1 ≤ H.count C.freed b + cap b

/-- What the memory holds when the threads have come so far. -/
structure Matches (m : QueueMemory T) (P : Produced) (C : Consumed) : Prop where
  front : ∀ b, m.front b = H.count C.freed b % cap b
  tail : ∀ b, m.tail b = H.count P.told b % cap b
  next : ∀ b, m.next b = P.next b
  live : ∀ k x, C.gone ≤ k → k < P.made → H.values[k]? = some x →
    m.data (H.place k) (H.slot cap k) = some x
  raw : ∀ b i, (∀ k, C.gone ≤ k → k < P.made → H.place k = b → H.slot cap k ≠ i) →
    m.data b i = none
  frontBlock : m.frontBlock = H.block C.visit
  tailBlock : m.tailBlock = H.block P.visit

end Positions

variable {H : QueueHistory T} {cap : ℕ → ℕ} {m : QueueMemory T} {P P' : Produced}
  {C C' : Consumed} {s : QueueStore T}

/-- Two elements that a block has to keep apart are in different slots. -/
theorem Fits.slot_ne (h : Fits H cap P C) {j k : ℕ} (hj : C.freed ≤ j) (hk : C.freed ≤ k)
    (hjm : j < P.made) (hkm : k < P.made) (hne : j ≠ k) (hplace : H.place j = H.place k) :
    H.slot cap j ≠ H.slot cap k := by
  wlog hlt : j < k generalizing j k with hsymm
  · exact (hsymm hk hj hkm hjm hne.symm hplace.symm (by omega)).symm
  have hcount : H.count j (H.place k) < H.count k (H.place k) := QueueHistory.count_lt hplace hlt
  have hfreed := QueueHistory.count_mono (H := H) hj (H.place k)
  have hmade := QueueHistory.count_lt (H := H) (rfl : H.place k = H.place k) hkm
  have hroom := h.room (H.place k)
  rw [QueueHistory.slot, QueueHistory.slot, hplace]
  exact (RingIndex.slot_ne hcount (by omega)).symm

theorem QueueStore.apply_data (m : QueueMemory T) (b i : ℕ) (content : Option T) (b' i' : ℕ) :
    ((QueueStore.data b i content).apply m).data b' i' =
      if b' = b ∧ i' = i then content else m.data b' i' := by
  simp only [QueueStore.apply]
  rcases eq_or_ne b' b with rfl | hb
  · rcases eq_or_ne i' i with rfl | hi
    · simp
    · simp [hi]
  · simp [hb]

theorem Matches.produce (hm : Matches H cap m P C) (hs : ProduceStep H cap P s P')
    (hfit : Fits H cap P' C) : Matches H cap (s.apply m) P' C := by
  cases hs with
  | @initFront block hcount =>
      refine { hm with front := fun b => ?_ }
      have hle := QueueHistory.count_mono (H := H)
        (hfit.freed_le.trans (hfit.gone_le.trans hfit.told_le)) block
      rcases eq_or_ne b block with rfl | hne
      · simp [QueueStore.apply, show H.count C.freed b = 0 by omega]
      · simpa [QueueStore.apply, hne] using hm.front b
  | @initTail block hcount =>
      refine { hm with tail := fun b => ?_ }
      have hle := QueueHistory.count_mono (H := H) hfit.told_le block
      rcases eq_or_ne b block with rfl | hne
      · simp [QueueStore.apply, show H.count P.told b = 0 by omega]
      · simpa [QueueStore.apply, hne] using hm.tail b
  | @construct x htold hx =>
      have hgone : C.gone ≤ P.made := htold ▸ hfit.gone_le
      have hlast : P.made < P.made + 1 := Nat.lt_succ_self P.made
      refine { hm with live := fun k y hk hlt hy => ?_, raw := fun b i hraw => ?_ }
      · rw [QueueStore.apply_data]
        rcases Nat.lt_succ_iff_lt_or_eq.mp hlt with hlt' | rfl
        · have hdiff : ¬(H.place k = H.place P.made ∧ H.slot cap k = H.slot cap P.made) :=
            fun ⟨hplace, hslot⟩ => hfit.slot_ne (hfit.freed_le.trans hk)
              (hfit.freed_le.trans hgone) hlt hlast hlt'.ne hplace hslot
          rw [if_neg hdiff]
          exact hm.live k y hk hlt' hy
        · rw [if_pos ⟨rfl, rfl⟩, ← hx, hy]
      · rw [QueueStore.apply_data]
        have hdiff : ¬(b = H.place P.made ∧ i = H.slot cap P.made) :=
          fun ⟨hb, hi⟩ => hraw P.made hgone hlast hb.symm hi.symm
        rw [if_neg hdiff]
        exact hm.raw b i fun k hk hlt => hraw k hk (hlt.trans hlast)
  | tail hmade hlen =>
      refine { hm with tail := fun b => ?_ }
      rcases eq_or_ne b (H.place P.told) with rfl | hne
      · simp [QueueStore.apply]
      · rw [QueueHistory.count_succ_of_ne hne.symm]
        simpa [QueueStore.apply, hne] using hm.tail b
  | @link block target _ _ =>
      refine { hm with next := fun b => ?_ }
      rcases eq_or_ne b block with rfl | hne
      · simp [QueueStore.apply]
      · simpa [QueueStore.apply, hne] using hm.next b
  | enter _ _ _ => exact { hm with tailBlock := rfl }

theorem Matches.consume (hm : Matches H cap m P C) (hs : ConsumeStep H cap C s C')
    (hfit : Fits H cap P C') : Matches H cap (s.apply m) P C' := by
  cases hs with
  | destroy hfreed _ =>
      have hle : C.freed ≤ C.gone := hfreed.le
      have hgone : C.gone < P.made := hfit.gone_le.trans hfit.told_le
      refine { hm with live := fun k y hk hlt hy => ?_, raw := fun b i hraw => ?_ }
      · have hk' : C.gone < k := hk
        have hdiff : ¬(H.place k = H.place C.gone ∧ H.slot cap k = H.slot cap C.gone) :=
          fun ⟨hplace, hslot⟩ => hfit.slot_ne (hle.trans hk'.le) hle hlt hgone hk'.ne' hplace hslot
        rw [QueueStore.apply_data, if_neg hdiff]
        exact hm.live k y hk'.le hlt hy
      · rw [QueueStore.apply_data]
        split
        · rfl
        · rename_i hdiff
          refine hm.raw b i fun k hk hlt hplace hslot => ?_
          rcases eq_or_ne k C.gone with rfl | hne
          · exact hdiff ⟨hplace.symm, hslot.symm⟩
          · exact hraw k (lt_of_le_of_ne hk hne.symm) hlt hplace hslot
  | front hgone =>
      refine { hm with front := fun b => ?_ }
      rcases eq_or_ne b (H.place C.freed) with rfl | hne
      · simp [QueueStore.apply]
      · rw [QueueHistory.count_succ_of_ne hne.symm]
        simpa [QueueStore.apply, hne] using hm.front b
  | switch _ _ _ => exact { hm with frontBlock := rfl }

end Qing
