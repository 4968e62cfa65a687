import Qing.Queue.AtRest

/-!
# The destructor

It walks the circle from the front block on. The blocks in use come first, in the order in
which they were entered, so the elements come in the order in which they were enqueued; the
free ones hold nothing (`destroy_remaining`).
-/

namespace Qing

variable {T : Type*}

namespace QueueHistory

variable {H : QueueHistory T} {k : ℕ}

/-- The elements of a block from the `k`-th on. -/
def held (H : QueueHistory T) (k b : ℕ) : List T :=
  ((List.range' k (H.length - k)).filter fun j => H.place j = b).filterMap (H.values[·]?)

theorem held_length (b : ℕ) : H.held H.length b = [] := by
  simp [held]

theorem held_of_ne {b : ℕ} (hk : k < H.length) (hb : H.place k ≠ b) :
    H.held k b = H.held (k + 1) b := by
  rw [held, show H.length - k = (H.length - (k + 1)) + 1 by omega, List.range'_succ,
    List.filter_cons_of_neg (by simpa using hb)]
  rfl

theorem held_of_eq {b : ℕ} (hk : k < H.length) (hb : H.place k = b) :
    H.held k b = H.values[k] :: H.held (k + 1) b := by
  rw [held, show H.length - k = (H.length - (k + 1)) + 1 by omega, List.range'_succ,
    List.filter_cons_of_pos (by simpa using hb)]
  exact List.filterMap_cons_some (List.getElem?_eq_getElem hk)

theorem filterMap_range' (l : List T) (a n : ℕ) :
    (List.range' a n).filterMap (l[·]?) = (l.drop a).take n := by
  induction n generalizing a with
  | zero => simp
  | succ n ih =>
      rw [List.range'_succ]
      rcases Nat.lt_or_ge a l.length with hlt | hge
      · rw [List.filterMap_cons_some (List.getElem?_eq_getElem hlt), ih,
          List.drop_eq_getElem_cons hlt, List.take_succ_cons]
      · rw [List.filterMap_cons_none (List.getElem?_eq_none hge), ih,
          List.drop_eq_nil_of_le hge, List.drop_eq_nil_of_le (Nat.le_succ_of_le hge),
          List.take_nil, List.take_nil]

theorem held_eq_slice {lo hi b : ℕ} (hlo : k ≤ lo) (hle : lo ≤ hi) (hhi : hi ≤ H.length)
    (h : ∀ j, k ≤ j → j < H.length → (H.place j = b ↔ lo ≤ j ∧ j < hi)) :
    H.held k b = (H.values.drop lo).take (hi - lo) := by
  have hsplit : List.range' k (H.length - k) =
      List.range' k (lo - k) ++ List.range' lo (hi - lo) ++ List.range' hi (H.length - hi) := by
    have h₁ := @List.range'_append_1 k (lo - k) (hi - lo)
    have h₂ := @List.range'_append_1 k (lo - k + (hi - lo)) (H.length - hi)
    rw [show k + (lo - k) = lo by omega] at h₁
    rw [show k + (lo - k + (hi - lo)) = hi by omega, ← h₁] at h₂
    rw [h₂]
    congr 1
    omega
  have hbefore : (List.range' k (lo - k)).filter (fun j => H.place j = b) = [] := by
    rw [List.filter_eq_nil_iff]
    intro j hj
    rw [List.mem_range'_1] at hj
    have := h j hj.1 (by omega)
    simp only [decide_eq_true_eq]
    omega
  have hbetween : (List.range' lo (hi - lo)).filter (fun j => H.place j = b) =
      List.range' lo (hi - lo) := by
    rw [List.filter_eq_self]
    intro j hj
    rw [List.mem_range'_1] at hj
    simpa using (h j (by omega) (by omega)).mpr (by omega)
  have hafter : (List.range' hi (H.length - hi)).filter (fun j => H.place j = b) = [] := by
    rw [List.filter_eq_nil_iff]
    intro j hj
    rw [List.mem_range'_1] at hj
    have := h j (by omega) (by omega)
    simp only [decide_eq_true_eq]
    omega
  rw [held, hsplit, List.filter_append, List.filter_append, hbefore, hbetween, hafter,
    List.nil_append, List.append_nil, filterMap_range']

end QueueHistory

theorem mapM_eq_some_map {α β : Type*} {f : α → Option β} {g : α → β} {l : List α}
    (h : ∀ a ∈ l, f a = some (g a)) : l.mapM f = some (l.map g) := by
  induction l with
  | nil => rfl
  | cons a l ih =>
      rw [List.mapM_cons, h a List.mem_cons_self, ih fun b hb => h b (List.mem_cons_of_mem a hb)]
      rfl

namespace Layout

variable {e : ℕ} {q : ReaderWriterQueue T} {H : QueueHistory T} {P₀ P : Produced}
  {C₀ C : Consumed}

theorem matches_at_rest (h : Layout e q H P₀ P C₀ C) (hp : q.memory.buffer .producer = [])
    (hc : q.memory.buffer .consumer = []) : Matches H (blockCap e) q.memory.mem P C := by
  rw [h.produced_eq hp, h.consumed_eq hc]
  exact h.tracks.mem

theorem slots_held (h : Layout e q H P₀ P C₀ C)
    (hm : Matches H (blockCap e) q.memory.mem P C) {b : ℕ} (hb : b < q.blocks) {k : ℕ}
    (hk : C.gone ≤ k) (hlen : k ≤ H.length) {n : ℕ}
    (hn : H.count H.length b - H.count k b < n) :
    ∃ is, q.slots b (H.count H.length b % blockCap e b) n (H.count k b % blockCap e b) = some is ∧
      is.mapM (q.memory.mem.data b) = some (H.held k b) := by
  induction hlen using Nat.decreasingInduction generalizing n with
  | self =>
      obtain ⟨n, rfl⟩ := Nat.exists_eq_succ_of_ne_zero (by omega : n ≠ 0)
      exact ⟨[], by simp [ReaderWriterQueue.slots], by rw [QueueHistory.held_length]; rfl⟩
  | of_succ k hlt ih =>
      rcases eq_or_ne (H.place k) b with heq | hne
      · have hcount := QueueHistory.count_lt heq hlt
        have hsucc := QueueHistory.count_succ_self heq
        have hfreed := QueueHistory.count_mono (H := H)
          ((consume_path_mono h.consumer_path).2.1.trans (h.freed_eq.trans_le hk)) b
        have hroom := h.room b
        obtain ⟨n, rfl⟩ := Nat.exists_eq_succ_of_ne_zero (by omega : n ≠ 0)
        have hdiff : H.count k b % blockCap e b ≠ H.count H.length b % blockCap e b :=
          (RingIndex.slot_ne hcount (by omega)).symm
        obtain ⟨is, hslots, helements⟩ := ih (Nat.le_succ_of_le hk) (n := n) (by omega)
        have hx : H.values[k]? = some H.values[k] := List.getElem?_eq_getElem hlt
        have hlive := hm.live k _ hk (by rw [h.made_eq]; exact hlt) hx
        rw [QueueHistory.slot, heq] at hlive
        refine ⟨H.count k b % blockCap e b :: is, ?_, ?_⟩
        · rw [ReaderWriterQueue.slots, if_neg hdiff, h.after_eq hb, ← hsucc, hslots]
          rfl
        · rw [List.mapM_cons, hlive, helements, QueueHistory.held_of_eq hlt heq]
          rfl
      · rw [QueueHistory.held_of_ne hlt hne, ← QueueHistory.count_succ_of_ne hne]
        exact ih (Nat.le_succ_of_le hk) (by rwa [QueueHistory.count_succ_of_ne hne])

theorem destroyBlock_eq (h : Layout e q H P₀ P C₀ C)
    (hm : Matches H (blockCap e) q.memory.mem P C) {b : ℕ} (hb : b < q.blocks) :
    q.destroyBlock b = some (H.held C.gone b) := by
  have hroom := h.room b
  have hfreed := QueueHistory.count_mono (H := H)
    ((consume_path_mono h.consumer_path).2.1.trans h.freed_eq.le) b
  have hcap := two_le_blockCap e b
  obtain ⟨is, hslots, helements⟩ := h.slots_held hm hb le_rfl h.gone_le_length
    (n := blockCap e b) (by omega)
  simp only [ReaderWriterQueue.destroyBlock, hm.tail, hm.front, h.told_eq, h.freed_eq, h.size b hb,
    hslots]
  exact helements

/-! ### The order of the elements -/

theorem held_visit (h : Layout e q H P₀ P C₀ C) {v : ℕ} (hv : C.visit ≤ v) (hlast : v ≤ H.last) :
    H.held C.gone (H.block v) =
      (H.values.drop (max C.gone (H.start v))).take (H.stop v - max C.gone (H.start v)) := by
  have hgone := h.consumed_own.gone_le
  have hle := h.visit_le_last
  have hstop := h.wf.stop_mono hv hlast
  refine QueueHistory.held_eq_slice (le_max_left _ _)
    (max_le (hgone.trans hstop) (h.wf.start_le_stop hlast)) (h.wf.stop_le_length hlast)
    fun j hj hlen => ⟨fun hplace => ?_, fun hbounds => ?_⟩
  · obtain ⟨w, hvw, hw, hstart, hend⟩ := QueueHistory.exists_visit hle.2
      (h.consumed_own.start_le.trans (h.freed_eq.trans_le hj)) hlen
    obtain rfl : w = v := h.block_inj ⟨hle.1.trans hvw, hw⟩ ⟨hle.1.trans hv, hlast⟩
      ((h.wf.place_eq w hw j hstart hend).symm.trans hplace)
    exact ⟨max_le hj hstart, hend⟩
  · exact h.wf.place_eq v hlast j ((le_max_right _ _).trans hbounds.1) hbounds.2

theorem held_window (h : Layout e q H P₀ P C₀ C) {v : ℕ} (hv : C.visit ≤ v)
    (hlast : v ≤ H.last) :
    ((H.window v).map (H.held C.gone)).flatten = H.values.drop (max C.gone (H.start v)) := by
  induction hlast using Nat.decreasingInduction with
  | self =>
      rw [QueueHistory.window_concat le_rfl]
      simp only [Nat.sub_self, List.range'_zero, List.map_nil, List.nil_append, List.map_singleton,
        List.flatten_singleton]
      rw [h.held_visit hv le_rfl, QueueHistory.stop_last]
      refine List.take_of_length_le ?_
      rw [List.length_drop]
      exact le_rfl
  | of_succ v hlt ih =>
      have hgone := h.consumed_own.gone_le.trans (h.wf.stop_mono hv hlt.le)
      rw [QueueHistory.stop_of_lt hlt] at hgone
      rw [QueueHistory.window_cons hlt, List.map_cons, List.flatten_cons,
        ih (Nat.le_succ_of_le hv), h.held_visit hv hlt.le, QueueHistory.stop_of_lt hlt,
        max_eq_right hgone]
      have hle : max C.gone (H.start v) ≤ H.start (v + 1) := max_le hgone (h.wf.start_lt v hlt).le
      have hdrop : H.values.drop (H.start (v + 1)) = (H.values.drop (max C.gone (H.start v))).drop
          (H.start (v + 1) - max C.gone (H.start v)) := by
        rw [List.drop_drop, Nat.add_sub_cancel' hle]
      rw [hdrop, List.take_append_drop]

theorem held_free (h : Layout e q H P₀ P C₀ C) {b : ℕ} (hb : b ∉ H.window C.visit) :
    H.held C.gone b = [] := by
  have hlen := h.gone_le_length
  rw [QueueHistory.held_eq_slice hlen le_rfl le_rfl]
  · simp
  · refine fun j hj hlt => ⟨fun hplace => absurd ?_ hb, fun hbounds => absurd hbounds.2 (by omega)⟩
    obtain ⟨w, hvw, hw, hstart, hend⟩ := QueueHistory.exists_visit h.visit_le_last.2
      (h.consumed_own.start_le.trans (h.freed_eq.trans_le hj)) hlt
    exact QueueHistory.mem_window.mpr
      ⟨w, hvw, hw, (h.wf.place_eq w hw j hstart hend).symm.trans hplace⟩

theorem destroy_eq (h : Layout e q H P₀ P C₀ C) (hp : q.memory.buffer .producer = [])
    (hc : q.memory.buffer .consumer = []) :
    ∃ blocks, q.destroy = some (H.values.drop C.gone, blocks) ∧
      blocks.Perm (List.range q.blocks) := by
  have hm := h.matches_at_rest hp hc
  have hle := h.visit_le_last
  obtain ⟨free, hcircuit, hcircle, hperm⟩ := h.circuit_from hle.1 hle.2 hm.next
  have hblock : ∀ b ∈ H.window C.visit ++ free, q.destroyBlock b = some (H.held C.gone b) :=
    fun b hb => h.destroyBlock_eq hm (List.mem_range.mp (hperm.mem_iff.mp hb))
  have hfree : (free.map (H.held C.gone)).flatten = [] := by
    rw [List.flatten_eq_nil_iff]
    intro l hl
    obtain ⟨b, hb, rfl⟩ := List.mem_map.mp hl
    exact h.held_free fun hmem => List.disjoint_of_nodup_append hcircle.nodup hmem hb
  refine ⟨H.window C.visit ++ free, ?_, hperm⟩
  simp only [ReaderWriterQueue.destroy, hm.frontBlock, hcircuit, Option.bind_some,
    mapM_eq_some_map hblock, Option.map_some, List.map_append, List.flatten_append, hfree,
    List.append_nil]
  rw [h.held_window le_rfl hle.2, max_eq_left (h.consumed_own.start_le.trans h.freed_eq.le)]

end Layout

/-- Once the threads have stopped and their stores are drained, the destructor destroys the
elements that were enqueued and not removed, in their order, and frees every block of the
queue once. -/
theorem destroy_remaining {maxSize : UInt64} {tr : List (QueueEvent T)}
    {q : ReaderWriterQueue T} (h : (ReaderWriterQueue.system maxSize).Run tr q)
    (hp : q.memory.buffer .producer = []) (hc : q.memory.buffer .consumer = []) :
    ∃ elements blocks, q.destroy = some (elements, blocks) ∧
      removed tr ++ elements = enqueued tr ∧ blocks.Perm (List.range q.blocks) := by
  obtain ⟨e, H, P₀, P, C₀, C, -, -, hq, hvalues, htaken⟩ := run_explained h
  obtain ⟨blocks, hdestroy, hperm⟩ := hq.layout.destroy_eq hp hc
  refine ⟨H.values.drop C.gone, blocks, hdestroy, ?_, hperm⟩
  rw [← htaken, ← hvalues, List.take_append_drop]

/-- All stores of the two threads drained. -/
def sampleDrained : List (QueueAct ℕ) :=
  sampleGrown ++ List.replicate 8 (.drain .producer) ++ List.replicate 2 (.drain .consumer)

theorem destroy_remaining_sample :
    ∃ elements blocks, (sampleQueue sampleDrained).1.destroy = some (elements, blocks) ∧
      [7] ++ elements = [7, 8] ∧ blocks.Perm (List.range 2) :=
  destroy_remaining (run_sampleQueue sampleDrained rfl) rfl rfl

end Qing
