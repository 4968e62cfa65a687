import Qing.Queue.Enqueue

/-!
# What the consumer does

Every step of `try_dequeue`, `pop` and `peek` keeps the layout, and what it takes out is the
next element of the history (`Layout.step_consumer`). The front block looks empty only
when the consumer has come to the end of the visit or of what the memory shows, and a call
that finds the queue empty has found everything gone that the memory showed when it
began.
-/

namespace Qing

variable {T : Type*}

/-- What is so where the consumer is, the memory having shown `n` elements before it
began. -/
def Dequeuing.Ok (e n : ℕ) (H : QueueHistory T) (P₀ : Produced) (C : Consumed) :
    Dequeuing → Prop
  | .idle | .start _ => True
  | .seen _ tailBlockAtStart =>
      ∃ v, tailBlockAtStart = H.block v ∧ C.visit ≤ v ∧ v ≤ P₀.visit ∧ n ≤ H.stop v
  | .leaving _ => C.visit < P₀.visit ∧ C.gone = H.start (C.visit + 1)
  | .entering _ nextBlock => C.visit < P₀.visit ∧ C.gone = H.start (C.visit + 1) ∧
      nextBlock = H.block (C.visit + 1)
  | .taking _ block i => C.gone < P₀.told ∧ C.gone < H.stop C.visit ∧
      block = H.block C.visit ∧ i = H.slot (blockCap e) C.gone
  | .failed => False

theorem Dequeuing.Ok.mono {e n : ℕ} {H : QueueHistory T} {P₀ P₁ : Produced} {C : Consumed}
    (htold : P₀.told ≤ P₁.told) (hvisit : P₀.visit ≤ P₁.visit) :
    ∀ {pc : Dequeuing}, pc.Ok e n H P₀ C → pc.Ok e n H P₁ C
  | .idle, _ | .start _, _ => trivial
  | .seen _ _, ⟨v, hv, hle, hlast, hn⟩ => ⟨v, hv, hle, hlast.trans hvisit, hn⟩
  | .leaving _, h => ⟨h.1.trans_le hvisit, h.2⟩
  | .entering _ _, h => ⟨h.1.trans_le hvisit, h.2⟩
  | .taking _ _ _, h => ⟨h.1.trans_le htold, h.2⟩

theorem Dequeuing.Ok.extend {e n : ℕ} {H H' : QueueHistory T} {P₀ : Produced} {C : Consumed}
    (hE : H.Extends H') (hP : P₀.Wf H) (hC : C.Wf H) :
    ∀ {pc : Dequeuing}, pc.Ok e n H P₀ C → pc.Ok e n H' P₀ C
  | .idle, _ | .start _, _ => trivial
  | .seen _ _, ⟨v, hv, hle, hlast, hn⟩ =>
      ⟨v, hv.trans (hE.block v (hlast.trans hP.visit_le)).symm, hle, hlast,
        hn.trans (hE.stop_le (hlast.trans hP.visit_le))⟩
  | .leaving _, ⟨hlt, hgone⟩ =>
      ⟨hlt, hgone.trans (hE.start _ (Nat.succ_le_of_lt (hlt.trans_le hP.visit_le))).symm⟩
  | .entering _ _, ⟨hlt, hgone, hblock⟩ =>
      have hle := Nat.succ_le_of_lt (hlt.trans_le hP.visit_le)
      ⟨hlt, hgone.trans (hE.start _ hle).symm, hblock.trans (hE.block _ hle).symm⟩
  | .taking _ _ _, ⟨hlt, hstop, hblock, hi⟩ =>
      ⟨hlt, hstop.trans_le (hE.stop_le hC.visit_le), hblock.trans (hE.block _ hC.visit_le).symm,
        hi.trans (hE.slot_eq (hlt.trans_le (hP.told_le.trans hP.made_le))).symm⟩

theorem path_take {H : QueueHistory T} {C : Consumed} (cap : ℕ → ℕ) (hfreed : C.freed = C.gone)
    (hstop : C.gone < H.stop C.visit) :
    (consumeSystem H cap).Path C
      [.data (H.place C.gone) (H.slot cap C.gone) none,
        .front (H.place C.gone) (H.count (C.gone + 1) (H.place C.gone) % cap (H.place C.gone))]
      { C with gone := C.gone + 1, freed := C.freed + 1 } := by
  obtain ⟨gone, freed, visit⟩ := C
  obtain rfl : freed = gone := hfreed
  have hfront : ConsumeStep H cap ⟨freed + 1, freed, visit⟩ _ _ := .front rfl
  exact (System.Path.single (ConsumeStep.destroy rfl hstop)).tail hfront

namespace Layout

variable {e n : ℕ} {q q' : ReaderWriterQueue T} {H : QueueHistory T} {P₀ P : Produced}
  {C₀ C C' : Consumed} {stores : List (QueueStore T)} {ev : QueueEvent T} {op : Dequeue}

theorem consume (h : Layout e q H P₀ P C₀ C)
    (hpath : (consumeSystem H (blockCap e)).Path C stores C') (hfreed : C'.freed = C'.gone)
    (hgone : C'.gone ≤ P₀.told) (hvisit : C'.visit ≤ P₀.visit)
    (hmem : q'.memory = q.memory.push .consumer stores) (hsize : q'.size = q.size)
    (hblocks : q'.blocks = q.blocks) (hlargest : q'.largestBlockSize = q.largestBlockSize) :
    Layout e q' H P₀ P C₀ C' := by
  have hpush := h.tracks.push (i := QueueThread.consumer) hpath
  rw [update_queuePos_consumer P C C', ← hmem] at hpush
  exact { h with
    tracks := hpush, freed_eq := hfreed, gone_le := hgone, visit_le := hvisit
    circle := by rw [hblocks]; exact h.circle
    block_lt := by rw [hblocks]; exact h.block_lt
    size := by rw [hsize, hblocks]; exact h.size
    largest := by rw [hlargest, hblocks]; exact h.largest
    blocks_lt := by rw [hblocks]; exact h.blocks_lt }

/-! ### What the consumer finds -/

theorem front_eq (h : Layout e q H P₀ P C₀ C) (b : ℕ) :
    (q.view .consumer).front b = H.count C.gone b % blockCap e b := by
  rw [h.consumer_view.front, h.freed_eq]

theorem frontBlock_eq (h : Layout e q H P₀ P C₀ C) :
    (q.view .consumer).frontBlock = H.block C.visit := h.consumer_view.frontBlock

theorem front_eq_tail_iff (h : Layout e q H P₀ P C₀ C) (b : ℕ) :
    (q.view .consumer).front b = (q.view .consumer).tail b ↔
      H.count P₀.told b = H.count C.gone b := by
  have hle := QueueHistory.count_mono (H := H) h.gone_le b
  have htold := QueueHistory.count_mono (H := H) (h.produced.told_le.trans h.produced.made_le) b
  have hfreed := QueueHistory.count_mono (H := H)
    ((consume_path_mono h.consumer_path).2.1.trans h.freed_eq.le) b
  have hroom := h.room b
  rw [h.front_eq, h.consumer_view.tail, eq_comm, RingIndex.eq_iff hle (by omega)]

theorem gone_eq_of_empty (h : Layout e q H P₀ P C₀ C) (hlt : C.visit < P₀.visit)
    (hempty : H.count P₀.told (H.block C.visit) = H.count C.gone (H.block C.visit)) :
    C.gone = H.start (C.visit + 1) := by
  have hlast : C.visit < H.last := hlt.trans_le h.produced.visit_le
  have hstop : C.gone ≤ H.start (C.visit + 1) := by
    rw [← QueueHistory.stop_of_lt hlast]
    exact h.consumed_own.gone_le
  refine le_antisymm hstop (le_of_not_gt fun hgt => ?_)
  have hplace : H.place C.gone = H.block C.visit :=
    h.wf.place_eq _ hlast.le _ (h.consumed_own.start_le.trans h.freed_eq.le)
      (by rwa [QueueHistory.stop_of_lt hlast])
  have hstart := h.wf.start_mono (v := C.visit + 1) hlt h.produced.visit_le
  have htold := h.produced.started (by omega)
  have := QueueHistory.count_lt hplace (k := P₀.told) (by omega)
  omega

theorem gone_lt_of_nonempty (h : Layout e q H P₀ P C₀ C)
    (hne : H.count P₀.told (H.block C.visit) ≠ H.count C.gone (H.block C.visit)) :
    C.gone < P₀.told ∧ C.gone < H.stop C.visit := by
  have hle := QueueHistory.count_mono (H := H) h.gone_le (H.block C.visit)
  obtain ⟨k, hk, hkt, hplace⟩ := QueueHistory.exists_of_count_lt (lt_of_le_of_ne hle hne.symm)
  have hklen : k < H.length := hkt.trans_le (h.produced.told_le.trans h.produced.made_le)
  refine ⟨hk.trans_lt hkt, lt_of_not_ge fun hge => ?_⟩
  have hvisits := h.visit_le_last
  rcases Nat.lt_or_eq_of_le hvisits.2 with hlast | heq
  · rw [QueueHistory.stop_of_lt hlast] at hge
    obtain ⟨w, hvw, hw, hstart, hstop⟩ := QueueHistory.exists_visit hlast (hge.trans hk) hklen
    have := h.block_inj ⟨by omega, hw⟩ hvisits
      ((h.wf.place_eq w hw k hstart hstop).symm.trans hplace)
    omega
  · rw [heq, QueueHistory.stop_last] at hge
    omega

theorem place_gone (h : Layout e q H P₀ P C₀ C) (hlt : C.gone < H.stop C.visit) :
    H.place C.gone = H.block C.visit :=
  h.wf.place_eq _ h.consumed_own.visit_le _ (h.consumed_own.start_le.trans h.freed_eq.le) hlt

theorem gone_lt_of_leaving (h : Layout e q H P₀ P C₀ C) (hlt : C.visit < P₀.visit)
    (hgone : C.gone = H.start (C.visit + 1)) :
    C.gone < P₀.told ∧ C.gone < H.stop (C.visit + 1) ∧
      H.place C.gone = H.block (C.visit + 1) := by
  have hlast : C.visit + 1 ≤ H.last := Nat.succ_le_of_lt (hlt.trans_le h.produced.visit_le)
  have hstart := h.wf.start_mono (v := C.visit + 1) hlt h.produced.visit_le
  have htold := h.produced.started (by omega)
  have hstop := h.wf.start_lt_stop (v := C.visit + 1) (Nat.succ_pos _) hlast
  exact ⟨by omega, by omega, h.wf.place_eq _ hlast _ hgone.ge (by omega)⟩

end Layout

/-! ## The steps -/

/-- What a step of the consumer comes to. -/
structure DequeueStep (e n : ℕ) (q q' : ReaderWriterQueue T) (ev : QueueEvent T)
    (H : QueueHistory T) (P₀ P : Produced) (C₀ C C' : Consumed) : Prop where
  layout : Layout e q' H P₀ P C₀ C'
  ok : q'.consumer.Ok e n H P₀ C'
  producer : q'.producer = q.producer
  blocks : q'.blocks = q.blocks
  added : ev.added = []
  event : ∀ x result, ev ≠ .enqueued x result
  taken : H.values.take C'.gone = H.values.take C.gone ++ ev.taken
  /-- A call that finds the queue empty has found all gone that the memory showed. -/
  empty : ∀ op, ev = .empty op → n ≤ C.gone
  /-- `peek` returns the slot of the next element. -/
  peeked : ∀ b i, ev = .peeked b i →
    C.gone < P₀.told ∧ b = H.place C.gone ∧ i = H.slot (blockCap e) C.gone

namespace Layout

variable {e n : ℕ} {q q' : ReaderWriterQueue T} {H : QueueHistory T} {P₀ P : Produced}
  {C₀ C : Consumed} {ev : QueueEvent T} {op : Dequeue}

theorem move_consumer (h : Layout e q H P₀ P C₀ C) {pc : Dequeuing} (hok : pc.Ok e n H P₀ C) :
    DequeueStep e n q { q with consumer := pc } .internal H P₀ P C₀ C C where
  layout := { h with }
  ok := hok
  producer := rfl
  blocks := rfl
  added := rfl
  event := by simp
  taken := (List.append_nil _).symm
  empty := by simp
  peeked := by simp

theorem return_peek (h : Layout e q H P₀ P C₀ C) {b i : ℕ} (hlt : C.gone < P₀.told)
    (hb : H.place C.gone = b) (hi : i = H.count C.gone b % blockCap e b) :
    DequeueStep e n q { q with consumer := .idle } (.peeked b i) H P₀ P C₀ C C where
  layout := { h with }
  ok := trivial
  producer := rfl
  blocks := rfl
  added := rfl
  event := by simp
  taken := (List.append_nil _).symm
  empty := by simp
  peeked b' i' heq := by
    obtain ⟨rfl, rfl⟩ := QueueEvent.peeked.inj heq
    subst hb
    exact ⟨hlt, rfl, hi⟩

theorem step_seen (h : Layout e q H P₀ P C₀ C) {tb : ℕ} (hpc : q.consumer = .seen op tb)
    (hok : q.consumer.Ok e n H P₀ C) (hn : n ≤ P₀.told)
    (hstep : q.stepDequeue = some (q', ev)) :
    ∃ C', DequeueStep e n q q' ev H P₀ P C₀ C C' := by
  rw [hpc] at hok
  obtain ⟨v, rfl, hv, hvl, hnv⟩ := hok
  have hvisits := h.visit_le_last
  simp only [ReaderWriterQueue.stepDequeue, hpc, h.frontBlock_eq] at hstep
  split at hstep
  · rename_i hne
    rw [Ne, h.front_eq_tail_iff] at hne
    obtain ⟨hlt, hstop⟩ := h.gone_lt_of_nonempty hne
    have hplace := h.place_gone hstop
    have hslot : (q.view .consumer).front (H.block C.visit) = H.slot (blockCap e) C.gone := by
      rw [h.front_eq, QueueHistory.slot, hplace]
    rw [hslot] at hstep
    cases op with
    | peek =>
        obtain ⟨rfl, rfl⟩ := Prod.mk.inj (Option.some.inj hstep)
        exact ⟨C, h.return_peek hlt hplace (by rw [QueueHistory.slot, hplace])⟩
    | tryDequeue =>
        obtain ⟨rfl, rfl⟩ := Prod.mk.inj (Option.some.inj hstep)
        exact ⟨C, h.move_consumer ⟨hlt, hstop, rfl, rfl⟩⟩
    | pop =>
        obtain ⟨rfl, rfl⟩ := Prod.mk.inj (Option.some.inj hstep)
        exact ⟨C, h.move_consumer ⟨hlt, hstop, rfl, rfl⟩⟩
  · rename_i hempty
    rw [not_not, h.front_eq_tail_iff] at hempty
    split at hstep
    · rename_i hne
      obtain ⟨rfl, rfl⟩ := Prod.mk.inj (Option.some.inj hstep)
      have hlt : C.visit < P₀.visit := by
        refine lt_of_le_of_ne (hv.trans hvl) fun heq => hne ?_
        rw [show v = C.visit by omega]
      exact ⟨C, h.move_consumer ⟨hlt, h.gone_eq_of_empty hlt hempty⟩⟩
    · rename_i heq
      obtain ⟨rfl, rfl⟩ := Prod.mk.inj (Option.some.inj hstep)
      obtain rfl : C.visit = v := h.block_inj hvisits
        ⟨hvisits.1.trans hv, hvl.trans h.produced.visit_le⟩ (not_not.mp heq)
      refine ⟨C,
        { layout := { h with }, ok := trivial, producer := rfl, blocks := rfl, added := rfl
          event := by simp
          taken := (List.append_nil _).symm, peeked := by simp
          empty := fun _ _ => le_of_not_gt fun hgt => ?_ }⟩
      have hplace := h.place_gone (hgt.trans_le hnv)
      have := QueueHistory.count_lt hplace (hgt.trans_le hn)
      omega

theorem step_leaving (h : Layout e q H P₀ P C₀ C) (hpc : q.consumer = .leaving op)
    (hok : q.consumer.Ok e n H P₀ C) (hstep : q.stepDequeue = some (q', ev)) :
    ∃ C', DequeueStep e n q q' ev H P₀ P C₀ C C' := by
  rw [hpc] at hok
  have hnext := h.linked C.visit h.visit_le_last.1 hok.1
  simp only [ReaderWriterQueue.stepDequeue, hpc, h.frontBlock_eq, h.consumer_view.next,
    hnext] at hstep
  obtain ⟨rfl, rfl⟩ := Prod.mk.inj (Option.some.inj hstep)
  exact ⟨C, h.move_consumer ⟨hok.1, hok.2, rfl⟩⟩

theorem step_entering (h : Layout e q H P₀ P C₀ C) {nb : ℕ} (hpc : q.consumer = .entering op nb)
    (hok : q.consumer.Ok e n H P₀ C) (hstep : q.stepDequeue = some (q', ev)) :
    ∃ C', DequeueStep e n q q' ev H P₀ P C₀ C C' := by
  rw [hpc] at hok
  obtain ⟨hvisit, hgone, rfl⟩ := hok
  obtain ⟨hlt, hstop, hplace⟩ := h.gone_lt_of_leaving hvisit hgone
  -- The assertion: the block ahead is not empty.
  have hassert : (q.view .consumer).front (H.block (C.visit + 1)) ≠
      (q.view .consumer).tail (H.block (C.visit + 1)) := by
    rw [Ne, h.front_eq_tail_iff]
    exact (QueueHistory.count_lt hplace hlt).ne'
  have hslot : (q.view .consumer).front (H.block (C.visit + 1)) =
      H.slot (blockCap e) C.gone := by
    rw [h.front_eq, QueueHistory.slot, hplace]
  simp only [ReaderWriterQueue.stepDequeue, hpc] at hstep
  rw [if_neg hassert, hslot] at hstep
  have hpath : (consumeSystem H (blockCap e)).Path C [.frontBlock (H.block (C.visit + 1))]
      { C with visit := C.visit + 1 } :=
    System.Path.single (ConsumeStep.switch h.freed_eq (hvisit.trans_le h.produced.visit_le) hgone)
  cases op with
  | peek =>
      obtain ⟨rfl, rfl⟩ := Prod.mk.inj (Option.some.inj hstep)
      exact ⟨C, h.return_peek hlt hplace (by rw [QueueHistory.slot, hplace])⟩
  | tryDequeue =>
      obtain ⟨rfl, rfl⟩ := Prod.mk.inj (Option.some.inj hstep)
      exact ⟨{ C with visit := C.visit + 1 },
        { layout := h.consume hpath h.freed_eq h.gone_le hvisit rfl rfl rfl rfl
          ok := ⟨hlt, hstop, rfl, rfl⟩, producer := rfl, blocks := rfl, added := rfl
          event := by simp
          taken := (List.append_nil _).symm, empty := by simp, peeked := by simp }⟩
  | pop =>
      obtain ⟨rfl, rfl⟩ := Prod.mk.inj (Option.some.inj hstep)
      exact ⟨{ C with visit := C.visit + 1 },
        { layout := h.consume hpath h.freed_eq h.gone_le hvisit rfl rfl rfl rfl
          ok := ⟨hlt, hstop, rfl, rfl⟩, producer := rfl, blocks := rfl, added := rfl
          event := by simp
          taken := (List.append_nil _).symm, empty := by simp, peeked := by simp }⟩

theorem step_taking (h : Layout e q H P₀ P C₀ C) {b i : ℕ} (hpc : q.consumer = .taking op b i)
    (hok : q.consumer.Ok e n H P₀ C) (hstep : q.stepDequeue = some (q', ev)) :
    ∃ C', DequeueStep e n q q' ev H P₀ P C₀ C C' := by
  rw [hpc] at hok
  obtain ⟨hlt, hstop, rfl, rfl⟩ := hok
  have hplace := h.place_gone hstop
  have hlen : C.gone < H.values.length :=
    hlt.trans_le (h.produced.told_le.trans h.produced.made_le)
  have hx : H.values[C.gone]? = some H.values[C.gone] := List.getElem?_eq_getElem hlen
  have hlive := h.consumer_view.live C.gone _ le_rfl (hlt.trans_le h.produced.told_le) hx
  rw [hplace] at hlive
  have hafter : q.after (H.block C.visit) (H.slot (blockCap e) C.gone) =
      H.count (C.gone + 1) (H.block C.visit) % blockCap e (H.block C.visit) := by
    rw [QueueHistory.slot, hplace, h.after_eq (h.block_lt _ h.consumed_own.visit_le),
      QueueHistory.count_succ_self hplace]
  simp only [ReaderWriterQueue.stepDequeue, hpc, hlive, hafter] at hstep
  obtain ⟨rfl, rfl⟩ := Prod.mk.inj (Option.some.inj hstep)
  have hpath := path_take (blockCap e) h.freed_eq hstop
  rw [hplace] at hpath
  exact ⟨{ C with gone := C.gone + 1, freed := C.freed + 1 },
    { layout := h.consume hpath (congrArg (· + 1) h.freed_eq) hlt h.visit_le rfl rfl rfl rfl
      ok := trivial, producer := rfl, blocks := rfl, added := rfl, event := by simp
      taken := List.take_succ_eq_append_getElem hlen, empty := by simp, peeked := by simp }⟩

/-- Every step of the consumer keeps the layout and the history's account of it. -/
theorem step_consumer (h : Layout e q H P₀ P C₀ C) (hok : q.consumer.Ok e n H P₀ C)
    (hn : n ≤ P₀.told) (hn' : n ≤ H.stop P₀.visit) (hstep : q.stepDequeue = some (q', ev)) :
    ∃ C', DequeueStep e n q q' ev H P₀ P C₀ C C' := by
  cases hpc : q.consumer with
  | idle => simp [ReaderWriterQueue.stepDequeue, hpc] at hstep
  | start op =>
      simp only [ReaderWriterQueue.stepDequeue, hpc, h.consumer_view.tailBlock] at hstep
      obtain ⟨rfl, rfl⟩ := Prod.mk.inj (Option.some.inj hstep)
      exact ⟨C, h.move_consumer ⟨P₀.visit, rfl, h.visit_le, le_rfl, hn'⟩⟩
  | seen op tb => exact h.step_seen hpc hok hn hstep
  | leaving op => exact h.step_leaving hpc hok hstep
  | entering op nb => exact h.step_entering hpc hok hstep
  | taking op b i => exact h.step_taking hpc hok hstep
  | failed => simp [ReaderWriterQueue.stepDequeue, hpc] at hstep

end Layout

end Qing
