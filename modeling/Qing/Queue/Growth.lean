import Qing.Queue.History

/-!
# How the history grows

An element goes to the block of the visit that is going on (`add`) or begins a visit of
another block (`addTo`). Both leave the story so far as it is (`Extends`), and with it
the moves made in it and what the memory matches.
-/

namespace Qing

variable {T : Type*}

namespace QueueHistory

/-- The second history continues the first. -/
structure Extends (H H' : QueueHistory T) : Prop where
  values : H.values <+: H'.values
  place : ∀ k < H.length, H'.place k = H.place k
  block : ∀ v ≤ H.last, H'.block v = H.block v
  start : ∀ v ≤ H.last, H'.start v = H.start v
  last : H.last ≤ H'.last
  stop : H.last < H'.last → H.length ≤ H'.start (H.last + 1)

namespace Extends

variable {H H' : QueueHistory T} {cap : ℕ → ℕ} {k v : ℕ}

theorem refl (H : QueueHistory T) : Extends H H where
  values := List.prefix_rfl
  place _ _ := rfl
  block _ _ := rfl
  start _ _ := rfl
  last := le_rfl
  stop h := absurd h (lt_irrefl _)

theorem trans {H₁ : QueueHistory T} (h : Extends H H₁) (h' : Extends H₁ H') :
    Extends H H' where
  values := h.values.trans h'.values
  place k hk := (h'.place k (hk.trans_le h.values.length_le)).trans (h.place k hk)
  block v hv := (h'.block v (hv.trans h.last)).trans (h.block v hv)
  start v hv := (h'.start v (hv.trans h.last)).trans (h.start v hv)
  last := h.last.trans h'.last
  stop hlt := by
    rcases Nat.lt_or_eq_of_le h.last with hlt' | heq
    · rw [h'.start _ hlt']
      exact h.stop hlt'
    · rw [heq] at hlt ⊢
      exact h.values.length_le.trans (h'.stop hlt)

theorem length_le (h : Extends H H') : H.length ≤ H'.length := h.values.length_le

theorem getElem?_eq (h : Extends H H') (hk : k < H.length) : H'.values[k]? = H.values[k]? := by
  obtain ⟨l, hl⟩ := h.values
  rw [← hl, List.getElem?_append_left hk]

theorem count_eq (h : Extends H H') (hk : k ≤ H.length) (b : ℕ) : H'.count k b = H.count k b := by
  induction k with
  | zero => simp
  | succ k ih =>
      have hplace := h.place k hk
      have ihk := ih (Nat.le_of_succ_le hk)
      rcases eq_or_ne (H.place k) b with heq | hne
      · rw [count_succ_self heq, count_succ_self (hplace.trans heq), ihk]
      · rw [count_succ_of_ne hne, count_succ_of_ne (by rwa [hplace]), ihk]

theorem slot_eq (h : Extends H H') (hk : k < H.length) : H'.slot cap k = H.slot cap k := by
  rw [slot, slot, h.place k hk, h.count_eq hk.le]

theorem stop_le (h : Extends H H') (hv : v ≤ H.last) : H.stop v ≤ H'.stop v := by
  rcases Nat.lt_or_eq_of_le hv with hlt | rfl
  · rw [stop_of_lt hlt, stop_of_lt (hlt.trans_le h.last), h.start _ hlt]
  · rw [stop_last]
    rcases Nat.lt_or_eq_of_le h.last with hlt | heq
    · rw [stop_of_lt hlt]
      exact h.stop hlt
    · rw [heq, stop_last]
      exact h.length_le

end Extends

/-! ## Adding an element -/

section Add

variable (H : QueueHistory T) (x : T) (b : ℕ)

def add : QueueHistory T :=
  { H with
    values := H.values ++ [x]
    place := Function.update H.place H.length (H.block H.last) }

/-- The element is the first of a visit of the block. -/
def addTo : QueueHistory T where
  values := H.values ++ [x]
  place := Function.update H.place H.length b
  block := Function.update H.block (H.last + 1) b
  start := Function.update H.start (H.last + 1) H.length
  last := H.last + 1

@[simp] theorem length_add : (H.add x).length = H.length + 1 := by
  simp [add, length]

@[simp] theorem length_addTo : (H.addTo x b).length = H.length + 1 := by
  simp [addTo, length]

@[simp] theorem addTo_last : (H.addTo x b).last = H.last + 1 := rfl

@[simp] theorem add_block : (H.add x).block = H.block := rfl

@[simp] theorem add_start : (H.add x).start = H.start := rfl

@[simp] theorem addTo_block_last : (H.addTo x b).block (H.last + 1) = b :=
  Function.update_self ..

@[simp] theorem addTo_start_last : (H.addTo x b).start (H.last + 1) = H.length :=
  Function.update_self ..

@[simp] theorem add_place_length : (H.add x).place H.length = H.block H.last :=
  Function.update_self ..

@[simp] theorem addTo_place_length : (H.addTo x b).place H.length = b :=
  Function.update_self ..

@[simp] theorem add_getElem? : (H.add x).values[H.length]? = some x := by
  simp [add, length]

@[simp] theorem addTo_getElem? : (H.addTo x b).values[H.length]? = some x := by
  simp [addTo, length]

theorem extends_add : Extends H (H.add x) where
  values := List.prefix_append ..
  place _ hk := Function.update_of_ne hk.ne ..
  block _ _ := rfl
  start _ _ := rfl
  last := le_rfl
  stop h := absurd h (lt_irrefl _)

theorem extends_addTo : Extends H (H.addTo x b) where
  values := List.prefix_append ..
  place _ hk := Function.update_of_ne hk.ne ..
  block v hv := Function.update_of_ne (by omega) ..
  start v hv := Function.update_of_ne (by omega) ..
  last := Nat.le_succ _
  stop _ := by simp

variable {H x b}

theorem add_stop_of_lt {v : ℕ} (hv : v < H.last) : (H.add x).stop v = H.stop v := by
  rw [stop_of_lt hv, stop_of_lt (H := H.add x) hv, add_start]

theorem add_stop_last : (H.add x).stop H.last = H.length + 1 := by
  rw [← length_add H x]
  exact stop_last

theorem Wf.add (h : H.Wf) : (H.add x).Wf where
  start_zero := h.start_zero
  start_lt := h.start_lt
  start_last := by
    rw [length_add]
    exact Nat.le_succ_of_le h.start_last
  start_last_lt _ := by
    rw [length_add]
    exact Nat.lt_succ_of_le h.start_last
  place_eq v (hv : v ≤ H.last) k hk hlt := by
    rw [add_start] at hk
    rcases Nat.lt_or_eq_of_le hv with hv' | rfl
    · rw [add_stop_of_lt hv'] at hlt
      rw [(H.extends_add x).place k (hlt.trans_le (h.stop_le_length hv)), add_block]
      exact h.place_eq v hv k hk hlt
    · rw [add_stop_last] at hlt
      rcases Nat.lt_succ_iff_lt_or_eq.mp hlt with hold | rfl
      · rw [(H.extends_add x).place k hold, add_block]
        exact h.place_eq H.last le_rfl k hk (by rwa [stop_last])
      · simp

theorem Wf.addTo (h : H.Wf) (hstart : H.start H.last < H.length) : (H.addTo x b).Wf where
  start_zero := by
    rw [(H.extends_addTo x b).start 0 (Nat.zero_le _), h.start_zero]
  start_lt v hv := by
    have hv' : v ≤ H.last := Nat.lt_succ_iff.mp hv
    rw [(H.extends_addTo x b).start v hv']
    rcases Nat.lt_or_eq_of_le hv' with hlt | rfl
    · rw [(H.extends_addTo x b).start _ hlt]
      exact h.start_lt v hlt
    · rwa [addTo_start_last]
  start_last := by simp
  start_last_lt _ := by simp
  place_eq v hv k hk hlt := by
    rcases Nat.lt_or_eq_of_le hv with hv' | rfl
    · have hv'' : v ≤ H.last := Nat.lt_succ_iff.mp hv'
      have hstop : (H.addTo x b).stop v = H.stop v := by
        rw [stop_of_lt hv']
        rcases Nat.lt_or_eq_of_le hv'' with hlt' | rfl
        · rw [stop_of_lt hlt', (H.extends_addTo x b).start _ hlt']
        · rw [stop_last, addTo_start_last]
      have hold : k < H.length := (hstop ▸ hlt).trans_le (h.stop_le_length hv'')
      rw [(H.extends_addTo x b).place k hold, (H.extends_addTo x b).block v hv'']
      rw [(H.extends_addTo x b).start v hv''] at hk
      exact h.place_eq v hv'' k hk (hstop ▸ hlt)
    · have hstop : (H.addTo x b).stop (H.last + 1) = H.length + 1 := by
        rw [← length_addTo H x b]
        exact stop_last
      have hk' : H.length ≤ k := by simpa using hk
      obtain rfl : k = H.length := by
        rw [addTo_last] at hlt
        omega
      simp

end Add

/-! ## The blocks in use -/

section Window

variable (H : QueueHistory T)

/-- The blocks of the visits from `f` on. -/
def window (f : ℕ) : List ℕ := (List.range' f (H.last + 1 - f)).map H.block

variable {H} {H' : QueueHistory T} {f b : ℕ} {x : T}

theorem mem_window : b ∈ H.window f ↔ ∃ v, f ≤ v ∧ v ≤ H.last ∧ H.block v = b := by
  simp only [window, List.mem_map, List.mem_range'_1]
  constructor
  · rintro ⟨v, hv, rfl⟩
    exact ⟨v, hv.1, by omega, rfl⟩
  · rintro ⟨v, hfv, hv, rfl⟩
    exact ⟨v, ⟨hfv, by omega⟩, rfl⟩

theorem window_cons (h : f < H.last) : H.window f = H.block f :: H.window (f + 1) := by
  rw [window, window, show H.last + 1 - f = (H.last + 1 - (f + 1)) + 1 by omega, List.range'_succ,
    List.map_cons]

theorem window_concat (h : f ≤ H.last) :
    H.window f = (List.range' f (H.last - f)).map H.block ++ [H.block H.last] := by
  rw [window, show H.last + 1 - f = (H.last - f) + 1 by omega, List.range'_concat, List.map_append]
  simp [show f + (H.last - f) = H.last by omega]

theorem window_head (h : f ≤ H.last) : (H.window f).head? = some (H.block f) := by
  rcases Nat.lt_or_eq_of_le h with hlt | rfl
  · rw [window_cons hlt]
    rfl
  · rw [window_concat le_rfl]
    simp

theorem window_addTo (h : f ≤ H.last) : (H.addTo x b).window f = H.window f ++ [b] := by
  rw [window_concat (Nat.le_succ_of_le h), window]
  congr 1
  · rw [addTo_last]
    refine List.map_congr_left fun v hv => (H.extends_addTo x b).block v ?_
    rw [List.mem_range'_1] at hv
    omega
  · simp

theorem block_inj (h : (H.window f).Nodup) {v w : ℕ} (hv : f ≤ v ∧ v ≤ H.last)
    (hw : f ≤ w ∧ w ≤ H.last) (heq : H.block v = H.block w) : v = w :=
  List.inj_on_of_nodup_map h (List.mem_range'_1.mpr (by omega)) (List.mem_range'_1.mpr (by omega))
    heq

end Window

end QueueHistory

end Qing
