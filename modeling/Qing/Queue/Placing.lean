import Qing.Queue.Layout

/-!
# Where an element goes

An element goes to the tail block while that has room (`Layout.store_tail`), else to
the next block of the circle if that is free (`Layout.store_next`), else to a block that
is linked in for it (`Layout.store_new`). Each time the history grows by the element
(`Layout.grow`). A tail block without room has been filled in the visit that is
going on (`Layout.full_of_no_room`), and a block that is not in use is empty
(`Layout.count_eq_of_free`).
-/

namespace Qing

variable {T : Type*}

theorem path_place {H : QueueHistory T} {P : Produced} {x : T} (cap : ℕ → ℕ)
    (htold : P.told = P.made) (hx : H.values[P.made]? = some x) :
    (produceSystem H cap).Path P
      [.data (H.place P.made) (H.count P.made (H.place P.made) % cap (H.place P.made)) (some x),
        .tail (H.place P.made) ((H.count P.made (H.place P.made) + 1) % cap (H.place P.made))]
      { P with made := P.made + 1, told := P.told + 1 } := by
  obtain ⟨made, told, visit, next⟩ := P
  obtain rfl : told = made := htold
  obtain ⟨hlt, -⟩ := List.getElem?_eq_some_iff.mp hx
  have htail : ProduceStep H cap ⟨told + 1, told, visit, next⟩ _ _ := .tail rfl hlt
  rw [QueueHistory.count_succ_self rfl] at htail
  exact (System.Path.single (ProduceStep.construct rfl hx)).tail htail

theorem path_init {H : QueueHistory T} {P : Produced} {b : ℕ} (cap : ℕ → ℕ)
    (h : H.count P.made b = 0) : (produceSystem H cap).Path P [.front b 0, .tail b 0] P :=
  have hfront : (produceSystem H cap).step P (.front b 0) P := ProduceStep.initFront h
  have htail : (produceSystem H cap).step P (.tail b 0) P := ProduceStep.initTail h
  (System.Path.single hfront).tail htail

theorem path_link {H : QueueHistory T} {P : Produced} {b : ℕ} (cap : ℕ → ℕ) (target : Option ℕ)
    (hvisit : P.visit < H.last) (hb : b = H.block P.visit ∨ b = H.block (P.visit + 1)) :
    (produceSystem H cap).Path P [.next b target]
      { P with next := Function.update P.next b target } :=
  System.Path.single (ProduceStep.link hvisit hb)

theorem path_enter {H : QueueHistory T} {P : Produced} (cap : ℕ → ℕ) (hvisit : P.visit < H.last)
    (hstart : H.start (P.visit + 1) < P.told)
    (hnext : P.next (H.block P.visit) = some (H.block (P.visit + 1))) :
    (produceSystem H cap).Path P [.tailBlock (H.block (P.visit + 1))]
      { P with visit := P.visit + 1 } :=
  System.Path.single (ProduceStep.enter hvisit hstart hnext)

namespace Layout

variable {e : ℕ} {q q' : ReaderWriterQueue T} {H H' : QueueHistory T} {P₀ P P' : Produced}
  {C₀ C C' : Consumed} {stores : List (QueueStore T)}

theorem after_eq (h : Layout e q H P₀ P C₀ C) {b : ℕ} (hb : b < q.blocks) (a : ℕ) :
    q.after b (a % blockCap e b) = (a + 1) % blockCap e b := by
  rw [ReaderWriterQueue.after, ReaderWriterQueue.sizeMask, h.size b hb, blockCap,
    RingIndex.succ_mask]

/-- The elements of the tail block that are not freed are all of the visit going on. -/
theorem start_le_of_place (h : Layout e q H P₀ P C₀ C) {k : ℕ} (hk : C₀.freed ≤ k)
    (hlen : k < H.length) (hplace : H.place k = H.block H.last) : H.start H.last ≤ k := by
  obtain ⟨w, hfw, hw, hstart, hstop⟩ := QueueHistory.exists_visit h.consumed.visit_le
    (h.consumed.start_le.trans hk) hlen
  have hlast := h.visit_le_last
  have heq := h.block_inj ⟨hfw, hw⟩ ⟨by omega, le_rfl⟩
    ((h.wf.place_eq w hw k hstart hstop).symm.trans hplace)
  rwa [← heq]

/-- A block that is not in use has been emptied. -/
theorem count_eq_of_free (h : Layout e q H P₀ P C₀ C) {b : ℕ} (hb : b ∉ H.window C₀.visit) :
    H.count C₀.freed b = H.count H.length b := by
  refine QueueHistory.count_eq_of_forall h.freed_le_length fun k hk hlen hplace => hb ?_
  obtain ⟨w, hfw, hw, hstart, hstop⟩ := QueueHistory.exists_visit h.consumed.visit_le
    (h.consumed.start_le.trans hk) hlen
  exact QueueHistory.mem_window.mpr
    ⟨w, hfw, hw, (h.wf.place_eq w hw k hstart hstop).symm.trans hplace⟩

/-- The producer makes its stores, and the history grows by an element. -/
theorem grow (h : Layout e q H P₀ P C₀ C) (hE : H.Extends H') (hwf : H'.Wf)
    (hlen : H'.length = H.length + 1)
    (hroom : H.count H.length (H'.place H.length) + 2 ≤
      H.count C₀.freed (H'.place H.length) + blockCap e (H'.place H.length))
    (hpath : (produceSystem H' (blockCap e)).Path P stores P')
    (hmade : P'.made = H'.length) (htold : P'.told = H'.length) (hvisit : P'.visit = H'.last)
    (hfull : ∀ v < H'.last, H'.start v + blockCap e (H'.block v) ≤ H'.start (v + 1) + 1)
    (hcircle : ∃ free, Circle P'.next (H'.window C₀.visit ++ free) ∧
      (H'.window C₀.visit ++ free).Perm (List.range q'.blocks))
    (hblock : ∀ v ≤ H'.last, H'.block v < q'.blocks)
    (hmem : q'.memory = q.memory.push .producer stores)
    (hsize : ∀ b < q'.blocks, q'.size b = blockCap e b)
    (hlargest : q'.largestBlockSize * 2 = blockCap e q'.blocks) (hlt : e + q'.blocks < 64) :
    Layout e q' H' P₀ P' C₀ C := by
  have hgone : C.gone ≤ H.length := h.gone_le_length
  have hgone₀ : C₀.gone ≤ P₀.told := (consume_path_mono h.consumer_path).1.trans h.gone_le
  have hfreed := h.freed_le_length
  have hpath₀ := produce_path_extend hE h.producer_path h.made_eq.le
  have hconsume := consume_path_extend hE h.consumer_path hgone (h.freed_eq.trans_le hgone)
    h.consumed_own.visit_le
  have htracks : Buffered.Tracks (MatchesAt H' (blockCap e)) (queueMoves H' (blockCap e)) q.memory
      (queuePos P₀ C₀) (queuePos P C) :=
    ⟨Matches.extend hE h.tracks.mem h.produced h.consumed hgone₀, fun thread => by
      cases thread with
      | producer => exact hpath₀
      | consumer => exact hconsume⟩
  have hpush := htracks.push (i := QueueThread.producer) hpath
  rw [update_queuePos_producer P P' C, ← hmem] at hpush
  refine
    { wf := hwf, tracks := hpush, produced := h.produced.extend hE
      consumed := h.consumed.extend hE, made_eq := hmade, told_eq := htold, visit_eq := hvisit
      freed_eq := h.freed_eq, gone_le := h.gone_le, visit_le := h.visit_le, room := fun b => ?_
      left_full := hfull, linked := fun v hv hlt => ?_, circle := hcircle, block_lt := hblock
      size := hsize, largest := hlargest, blocks_lt := hlt }
  · rw [hlen, hE.count_eq hfreed]
    rcases eq_or_ne (H'.place H.length) b with rfl | hne
    · rw [QueueHistory.count_succ_self rfl, hE.count_eq le_rfl]
      omega
    · rw [QueueHistory.count_succ_of_ne hne, hE.count_eq le_rfl]
      exact h.room b
  · have hle := h.produced.visit_le
    rw [hE.block v (by omega), hE.block (v + 1) (by omega)]
    exact h.linked v hv hlt

/-! ### What the producer finds -/

theorem tailBlock_eq (h : Layout e q H P₀ P C₀ C) :
    (q.view .producer).tailBlock = H.block H.last := by
  rw [h.producer_view.tailBlock, h.visit_eq]

theorem tail_eq (h : Layout e q H P₀ P C₀ C) (b : ℕ) :
    (q.view .producer).tail b = H.count H.length b % blockCap e b := by
  rw [h.producer_view.tail, h.told_eq]

theorem raw_of_room (h : Layout e q H P₀ P C₀ C) {b : ℕ}
    (hroom : H.count H.length b + 1 ≤ H.count C₀.freed b + blockCap e b) :
    (q.view .producer).data b (H.count H.length b % blockCap e b) = none := by
  refine h.producer_view.raw b _ fun k hk hlt hplace hslot => ?_
  rw [h.made_eq] at hlt
  have hcount : H.count k b < H.count H.length b := QueueHistory.count_lt hplace hlt
  have hfreed := QueueHistory.count_mono (H := H) (h.consumed.freed_le.trans hk) b
  rw [QueueHistory.slot, hplace] at hslot
  exact RingIndex.slot_ne hcount (by omega) hslot.symm

theorem start_room (h : Layout e q H P₀ P C₀ C) :
    q.after (H.block H.last) ((q.view .producer).tail (H.block H.last)) ≠
        (q.view .producer).front (H.block H.last) ↔
      H.count H.length (H.block H.last) + 2 ≤
        H.count C₀.freed (H.block H.last) + blockCap e (H.block H.last) := by
  have hroom := h.room (H.block H.last)
  have hfreed := h.freed_le_length
  have hcount := QueueHistory.count_mono (H := H) hfreed (H.block H.last)
  rw [h.tail_eq, h.after_eq (h.block_lt _ le_rfl), h.producer_view.front, Ne,
    RingIndex.full_iff hcount (by omega)]
  omega

/-- A full tail block holds the elements of a whole visit. -/
theorem full_of_no_room (h : Layout e q H P₀ P C₀ C)
    (hfull : ¬H.count H.length (H.block H.last) + 2 ≤
      H.count C₀.freed (H.block H.last) + blockCap e (H.block H.last)) :
    H.start H.last + blockCap e (H.block H.last) ≤ H.length + 1 ∧
      C₀.freed + blockCap e (H.block H.last) ≤ H.length + 1 := by
  have hroom := h.room (H.block H.last)
  have hfreed := h.freed_le_length
  have hsize : C₀.freed + blockCap e (H.block H.last) ≤ H.length + 1 := by
    have := H.count_le_add C₀.freed (H.length - C₀.freed) (H.block H.last)
    rw [Nat.add_sub_cancel' hfreed] at this
    omega
  refine ⟨?_, hsize⟩
  rcases Nat.lt_or_ge (H.start H.last) C₀.freed with hlt | hge
  · omega
  · have hnone : H.count C₀.freed (H.block H.last) = H.count (H.start H.last) (H.block H.last) :=
      QueueHistory.count_eq_of_forall hge fun k hk hlt hplace =>
        absurd (h.start_le_of_place hk (hlt.trans_le h.wf.start_last) hplace) (by omega)
    have hstart := h.wf.start_last
    have := H.count_le_add (H.start H.last) (H.length - H.start H.last) (H.block H.last)
    rw [Nat.add_sub_cancel' hstart] at this
    omega

/-! ### Where the element goes -/

/-- The element goes to the tail block. -/
theorem store_tail (h : Layout e q H P₀ P C₀ C) (x : T)
    (hroom : H.count H.length (H.block H.last) + 2 ≤
      H.count C₀.freed (H.block H.last) + blockCap e (H.block H.last))
    (hmem : q'.memory = q.memory.push .producer
      [.data (H.block H.last) (H.count H.length (H.block H.last) % blockCap e (H.block H.last))
          (some x),
        .tail (H.block H.last)
          ((H.count H.length (H.block H.last) + 1) % blockCap e (H.block H.last))])
    (hsize : q'.size = q.size) (hblocks : q'.blocks = q.blocks)
    (hlargest : q'.largestBlockSize = q.largestBlockSize) :
    Layout e q' (H.add x) P₀ { P with made := P.made + 1, told := P.told + 1 } C₀ C := by
  have hmade := h.made_eq
  have htold := h.told_eq
  refine h.grow (H.extends_add x) h.wf.add (H.length_add x) (by simpa using hroom) ?_ (by simpa)
    (by simpa) h.visit_eq h.left_full (by rw [hblocks]; exact h.circle)
    (by rw [hblocks]; exact h.block_lt) hmem (by rw [hsize, hblocks]; exact h.size)
    (by rw [hlargest, hblocks, h.largest]) (by rw [hblocks]; exact h.blocks_lt)
  have hpath := path_place (H := H.add x) (P := P) (x := x) (blockCap e) (htold.trans hmade.symm)
    (by simp [hmade])
  simpa [hmade, (H.extends_add x).count_eq le_rfl] using hpath

theorem left_full_addTo (h : Layout e q H P₀ P C₀ C) {x : T} {b : ℕ}
    (hfull : H.start H.last + blockCap e (H.block H.last) ≤ H.length + 1) :
    ∀ v < (H.addTo x b).last, (H.addTo x b).start v + blockCap e ((H.addTo x b).block v) ≤
      (H.addTo x b).start (v + 1) + 1 := by
  intro v hv
  have hE := H.extends_addTo x b
  have hv' : v ≤ H.last := Nat.lt_succ_iff.mp hv
  rw [hE.start v hv', hE.block v hv']
  rcases Nat.lt_or_eq_of_le hv' with hlt | rfl
  · rw [hE.start _ hlt]
    exact h.left_full v hlt
  · rwa [QueueHistory.addTo_start_last]

theorem block_lt_addTo (h : Layout e q H P₀ P C₀ C) {x : T} {b n : ℕ} (hn : q.blocks ≤ n)
    (hb : b < n) : ∀ v ≤ (H.addTo x b).last, (H.addTo x b).block v < n := by
  intro v hv
  rcases Nat.lt_or_eq_of_le hv with hlt | rfl
  · rw [(H.extends_addTo x b).block v (Nat.lt_succ_iff.mp hlt)]
    exact (h.block_lt v (Nat.lt_succ_iff.mp hlt)).trans_le hn
  · rwa [QueueHistory.addTo_last, QueueHistory.addTo_block_last]

/-- Behind the tail block comes the first free block or, if there is none, the front block. -/
theorem next_tail (h : Layout e q H P₀ P C₀ C) {free : List ℕ}
    (hcircle : Circle P.next (H.window C₀.visit ++ free)) :
    P.next (H.block H.last) = (free ++ H.window C₀.visit).head? := by
  have hle := h.visit_le_last
  have hwindow := QueueHistory.window_concat (H := H) (hle.1.trans hle.2)
  have hhead := hcircle.next_eq _ _ free (by rw [hwindow, List.append_assoc]; rfl)
  rwa [List.append_assoc, ← hwindow] at hhead

theorem free_eq_cons (h : Layout e q H P₀ P C₀ C) {b : ℕ} {free : List ℕ}
    (hcircle : Circle P.next (H.window C₀.visit ++ free))
    (hnext : P.next (H.block H.last) = some b) (hfree : b ∉ H.window C₀.visit) :
    ∃ free', free = b :: free' := by
  have hhead := h.next_tail hcircle
  rw [hnext] at hhead
  cases free with
  | nil =>
      have hmem : b ∈ H.window C₀.visit := List.mem_of_mem_head? (by simpa using hhead.symm)
      exact absurd hmem hfree
  | cons c free =>
      have hc : b = c := by simpa using hhead
      exact ⟨free, by rw [hc]⟩

theorem next_free (h : Layout e q H P₀ P C₀ C)
    (hne : P.next (H.block H.last) ≠ some (H.block C₀.visit)) :
    ∃ b, P.next (H.block H.last) = some b ∧ b ∉ H.window C₀.visit := by
  obtain ⟨free, hcircle, -⟩ := h.circle
  have hhead := h.next_tail hcircle
  cases free with
  | nil =>
      have hle := h.visit_le_last
      rw [List.nil_append, QueueHistory.window_head (hle.1.trans hle.2)] at hhead
      exact absurd hhead hne
  | cons c free =>
      refine ⟨c, hhead, fun hc => ?_⟩
      exact List.disjoint_of_nodup_append hcircle.nodup hc List.mem_cons_self

/-- The element goes to the next block of the circle, a free one. -/
theorem store_next (h : Layout e q H P₀ P C₀ C) (x : T) {b : ℕ}
    (hfull : H.start H.last + blockCap e (H.block H.last) ≤ H.length + 1)
    (hnext : P.next (H.block H.last) = some b) (hfree : b ∉ H.window C₀.visit)
    (hmem : q'.memory = q.memory.push .producer
      [.data b (H.count H.length b % blockCap e b) (some x),
        .tail b ((H.count H.length b + 1) % blockCap e b), .tailBlock b])
    (hsize : q'.size = q.size) (hblocks : q'.blocks = q.blocks)
    (hlargest : q'.largestBlockSize = q.largestBlockSize) :
    Layout e q' (H.addTo x b) P₀
      { P with made := P.made + 1, told := P.told + 1, visit := P.visit + 1 } C₀ C := by
  have hmade := h.made_eq
  have htold := h.told_eq
  have hvisit := h.visit_eq
  have hlen : H.count C₀.freed b = H.count H.length b := h.count_eq_of_free hfree
  have hcap := two_le_blockCap e b
  have hcap' := two_le_blockCap e (H.block H.last)
  have hE := H.extends_addTo x b
  obtain ⟨free, hcircle, hperm⟩ := h.circle
  refine h.grow hE (h.wf.addTo (by omega)) (H.length_addTo x b) ?_ ?_ (by simpa) (by simpa)
    (by simpa) ?_ ?_ ?_ hmem (by rw [hsize, hblocks]; exact h.size)
    (by rw [hlargest, hblocks, h.largest]) (by rw [hblocks]; exact h.blocks_lt)
  · rw [QueueHistory.addTo_place_length]
    omega
  · have hpath := path_place (H := H.addTo x b) (P := P) (x := x) (blockCap e)
      (htold.trans hmade.symm) (by simp [hmade])
    have henter := path_enter (H := H.addTo x b) (blockCap e)
      (P := { P with made := P.made + 1, told := P.told + 1 }) (by simp [hvisit])
      (by simp [hvisit, htold])
      (by simp only [hvisit, hE.block _ le_rfl, QueueHistory.addTo_block_last, hnext])
    have hall := hpath.append henter
    simpa [hmade, hvisit, hE.count_eq le_rfl] using hall
  · exact h.left_full_addTo hfull
  · obtain ⟨free, rfl⟩ := h.free_eq_cons hcircle hnext hfree
    have hle := h.visit_le_last
    refine ⟨free, ?_⟩
    rw [QueueHistory.window_addTo (hle.1.trans hle.2), hblocks, List.append_assoc]
    exact ⟨hcircle, hperm⟩
  · obtain ⟨free, rfl⟩ := h.free_eq_cons hcircle hnext hfree
    have hb : b < q.blocks := List.mem_range.mp (hperm.mem_iff.mp (by simp))
    exact h.block_lt_addTo hblocks.ge (hblocks.symm ▸ hb)

theorem count_new (h : Layout e q H P₀ P C₀ C) : H.count H.length q.blocks = 0 := by
  rw [← QueueHistory.count_eq_of_forall (Nat.zero_le H.length), QueueHistory.count_zero]
  intro k _ hlen hplace
  obtain ⟨w, -, hw, hstart, hstop⟩ := QueueHistory.exists_visit (Nat.zero_le H.last)
    (h.wf.start_zero.trans_le (Nat.zero_le k)) hlen
  have hlt := h.block_lt w hw
  rw [← h.wf.place_eq w hw k hstart hstop, hplace] at hlt
  exact lt_irrefl _ hlt

theorem path_new (h : Layout e q H P₀ P C₀ C) (x : T) :
    (produceSystem (H.addTo x q.blocks) (blockCap e)).Path P
      [.front q.blocks 0, .tail q.blocks 0, .next q.blocks none, .data q.blocks 0 (some x),
        .tail q.blocks 1, .next q.blocks (P.next (H.block H.last)),
        .next (H.block H.last) (some q.blocks), .tailBlock q.blocks]
      { made := P.made + 1, told := P.told + 1, visit := P.visit + 1
        next := Function.update (Function.update P.next q.blocks (P.next (H.block H.last)))
          (H.block H.last) (some q.blocks) } := by
  have hmade := h.made_eq
  have htold := h.told_eq
  have hvisit := h.visit_eq
  have hE := H.extends_addTo x q.blocks
  have hcount : (H.addTo x q.blocks).count P.made q.blocks = 0 := by
    rw [hmade, hE.count_eq le_rfl, h.count_new]
  have hlast : P.visit < (H.addTo x q.blocks).last := by simp [hvisit]
  have hblock : (H.addTo x q.blocks).block P.visit = H.block H.last := by
    rw [hvisit, hE.block _ le_rfl]
  have hblock' : (H.addTo x q.blocks).block (P.visit + 1) = q.blocks := by simp [hvisit]
  have hplace : (H.addTo x q.blocks).place P.made = q.blocks := by simp [hmade]
  have hinit := (path_init (blockCap e) hcount).append
    (path_link (blockCap e) none hlast (Or.inr hblock'.symm))
  have helement := path_place (H := H.addTo x q.blocks) (x := x) (blockCap e)
    (P := { P with next := Function.update P.next q.blocks none }) (htold.trans hmade.symm)
    (by simp [hmade])
  simp only [hplace, hcount, Nat.zero_mod,
    Nat.mod_eq_of_lt (two_le_blockCap e q.blocks : 0 + 1 < _)] at helement
  have hlink := path_link (H := H.addTo x q.blocks) (blockCap e) (P.next (H.block H.last))
    (P := { made := P.made + 1, told := P.told + 1, visit := P.visit
            next := Function.update P.next q.blocks none }) hlast (Or.inr hblock'.symm)
  have hlink' := path_link (H := H.addTo x q.blocks) (blockCap e) (some q.blocks)
    (P := { made := P.made + 1, told := P.told + 1, visit := P.visit
            next := Function.update P.next q.blocks (P.next (H.block H.last)) }) hlast
    (Or.inl hblock.symm)
  have henter := path_enter (H := H.addTo x q.blocks) (blockCap e)
    (P := { made := P.made + 1, told := P.told + 1, visit := P.visit
            next := Function.update (Function.update P.next q.blocks (P.next (H.block H.last)))
              (H.block H.last) (some q.blocks) }) hlast (by simp [hvisit, htold])
    (by simp [hblock, hblock'])
  simp only [Function.update_idem] at hlink
  rw [hblock'] at henter
  exact (((hinit.append helement).append hlink).append hlink').append henter

/-- The element goes to a block new in the circle. -/
theorem store_new (h : Layout e q H P₀ P C₀ C) (x : T)
    (hfull : H.start H.last + blockCap e (H.block H.last) ≤ H.length + 1)
    (hmem : q'.memory = q.memory.push .producer
      [.front q.blocks 0, .tail q.blocks 0, .next q.blocks none, .data q.blocks 0 (some x),
        .tail q.blocks 1, .next q.blocks (P.next (H.block H.last)),
        .next (H.block H.last) (some q.blocks), .tailBlock q.blocks])
    (hsize : q'.size = Function.update q.size q.blocks (blockCap e q.blocks))
    (hblocks : q'.blocks = q.blocks + 1)
    (hlargest : q'.largestBlockSize = blockCap e q.blocks) (hlt : blockCap e q.blocks < 2 ^ 64) :
    Layout e q' (H.addTo x q.blocks) P₀
      { made := P.made + 1, told := P.told + 1, visit := P.visit + 1
        next := Function.update (Function.update P.next q.blocks (P.next (H.block H.last)))
          (H.block H.last) (some q.blocks) } C₀ C := by
  have hmade := h.made_eq
  have htold := h.told_eq
  have hvisit := h.visit_eq
  have hcount := h.count_new
  have hcap := two_le_blockCap e q.blocks
  have hcap' := two_le_blockCap e (H.block H.last)
  have hE := H.extends_addTo x q.blocks
  have hlen : H.count C₀.freed q.blocks ≤ H.count H.length q.blocks :=
    QueueHistory.count_mono h.freed_le_length _
  refine h.grow hE (h.wf.addTo (by omega)) (H.length_addTo x _) ?_ (h.path_new x) (by simpa)
    (by simpa) (by simpa) (h.left_full_addTo hfull) ?_ ?_ hmem ?_ ?_ ?_
  · rw [QueueHistory.addTo_place_length]
    omega
  · obtain ⟨free, hcircle, hperm⟩ := h.circle
    have hle := h.visit_le_last
    have hwindow := QueueHistory.window_concat (H := H) (hle.1.trans hle.2)
    refine ⟨free, ?_, ?_⟩
    · rw [hwindow, List.append_assoc, List.singleton_append] at hcircle hperm
      rw [QueueHistory.window_addTo (hle.1.trans hle.2), hwindow, List.append_assoc,
        List.append_assoc]
      refine hcircle.insert fun hin => ?_
      exact absurd (List.mem_range.mp (hperm.mem_iff.mp hin)) (lt_irrefl _)
    · rw [QueueHistory.window_addTo (hle.1.trans hle.2), hblocks, List.range_succ,
        List.append_assoc]
      exact (List.perm_append_comm_assoc _ _ _).trans
        ((hperm.cons q.blocks).trans (List.perm_append_singleton _ _).symm)
  · rw [hblocks]
    exact h.block_lt_addTo (Nat.le_succ _) (Nat.lt_succ_self _)
  · intro b hb
    rw [hsize]
    rcases Nat.lt_succ_iff_lt_or_eq.mp (hblocks ▸ hb) with hlt | rfl
    · rw [Function.update_of_ne hlt.ne]
      exact h.size b hlt
    · rw [Function.update_self]
  · rw [hlargest, hblocks, blockCap, blockCap, ← Nat.pow_succ]
    rfl
  · have := (Nat.pow_lt_pow_iff_right (by omega)).mp hlt
    omega

/-! ### When all blocks are in use -/

theorem start_add_sum_le (h : Layout e q H P₀ P C₀ C)
    (hfull : H.start H.last + blockCap e (H.block H.last) ≤ H.length + 1) {v : ℕ}
    (hv : v ≤ H.last) :
    H.start v + ((H.window v).map (blockCap e)).sum ≤ H.length + (H.last + 1 - v) := by
  induction hv using Nat.decreasingInduction with
  | self =>
      rw [QueueHistory.window_concat le_rfl]
      simpa using hfull
  | of_succ v hlt ih =>
      have hleft := h.left_full v hlt
      rw [QueueHistory.window_cons hlt, List.map_cons, List.sum_cons]
      omega

theorem sum_blockCap (e n : ℕ) :
    ((List.range n).map (blockCap e)).sum = 2 ^ (e + 1) * (2 ^ n - 1) := by
  induction n with
  | zero => simp
  | succ n ih =>
      rw [List.range_succ, List.map_append, List.sum_append, ih, List.map_singleton,
        List.sum_singleton, blockCap, Nat.pow_add _ (e + 1) n, ← Nat.mul_add]
      have : 1 ≤ 2 ^ n := Nat.one_le_two_pow
      rw [Nat.pow_succ]
      congr 1
      omega

/-- Without a free block the elements fill all blocks but one. -/
theorem all_full (h : Layout e q H P₀ P C₀ C)
    (hfull : H.start H.last + blockCap e (H.block H.last) ≤ H.length + 1)
    (hnext : P.next (H.block H.last) = some (H.block C₀.visit)) :
    C₀.freed + 2 ^ (e + 1) * (2 ^ (q.blocks - 1) - 1) ≤ H.length + (q.blocks - 1) := by
  obtain ⟨free, hcircle, hperm⟩ := h.circle
  have hle := h.visit_le_last
  have hlast := hle.1.trans hle.2
  have hhead := h.next_tail hcircle
  have hnil : free = [] := by
    cases free with
    | nil => rfl
    | cons c free =>
        have hc : H.block C₀.visit = c := by simpa [hnext] using hhead
        have hmem : H.block C₀.visit ∈ H.window C₀.visit :=
          List.mem_of_mem_head? (QueueHistory.window_head hlast)
        exact absurd (hc ▸ List.mem_cons_self)
          (List.disjoint_of_nodup_append hcircle.nodup hmem)
  rw [hnil, List.append_nil] at hperm
  have hblocks : H.last + 1 - C₀.visit = q.blocks := by
    simpa [QueueHistory.window] using hperm.length_eq
  have hsum := (hperm.map (blockCap e)).sum_eq
  have hfreed := h.consumed.freed_le.trans h.consumed.gone_le
  rcases Nat.lt_or_eq_of_le hlast with hlt | heq
  · have hfill := h.start_add_sum_le hfull (v := C₀.visit + 1) hlt
    have hfront : blockCap e (H.block C₀.visit) ≤ blockCap e (q.blocks - 1) :=
      Nat.pow_le_pow_right (by omega) (by have := h.block_lt _ hlast; omega)
    rw [QueueHistory.window_cons hlt, List.map_cons, List.sum_cons,
      show q.blocks = (q.blocks - 1) + 1 by omega, List.range_succ, List.map_append,
      List.sum_append, sum_blockCap, List.map_singleton, List.sum_singleton] at hsum
    rw [QueueHistory.stop_of_lt hlt] at hfreed
    omega
  · have hone : q.blocks - 1 = 0 := by omega
    have hlen := h.wf.stop_le_length hlast
    rw [hone, Nat.pow_zero, Nat.sub_self, Nat.mul_zero]
    omega

end Layout

end Qing
