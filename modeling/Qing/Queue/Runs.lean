import Qing.Queue.Explained

/-!
# Runs of the queue

From the history of a run: event by event the queue does what a list does that
is appended to and taken from the front (`refines_fifo`), no thread ever fails
(`never_failed`), a call that finds the queue empty has missed nothing that was there when
it began (`empty_complete`), what `peek` points to stays (`peeked_stays`), and a block is
made, or refused, only when the ones there are hold `maxSize` elements (`no_room_full`).
-/

namespace Qing

variable {T : Type*}

/-! ## The queue as a list -/

/-- A queue as its users know it: the elements in it, the oldest first. -/
def fifo : System (List T) (QueueEvent T) where
  init l := l = []
  step l ev l' := match ev with
    | .enqueued x result => l' = if result.ret then l ++ [x] else l
    | .removed _ x => l = x :: l'
    | .internal | .empty _ | .peeked _ _ => l' = l

theorem fifo_step_iff {l l' : List T} {ev : QueueEvent T} :
    fifo.step l ev l' ↔ ev.taken ++ l' = l ++ ev.added := by
  cases ev with
  | enqueued x result =>
      cases hret : result.ret <;> simp [fifo, QueueEvent.taken, QueueEvent.added, hret]
  | removed op x =>
      simp only [fifo, QueueEvent.taken, QueueEvent.added, List.append_nil, List.singleton_append]
      exact eq_comm
  | internal => simp [fifo, QueueEvent.taken, QueueEvent.added]
  | empty op => simp [fifo, QueueEvent.taken, QueueEvent.added]
  | peeked b i => simp [fifo, QueueEvent.taken, QueueEvent.added]

/-- What went in is what came out and what is left, in this order. -/
theorem enqueued_eq_of_fifo {tr : List (QueueEvent T)} {l : List T} (h : fifo.Run tr l) :
    enqueued tr = removed tr ++ l := by
  refine System.Run.induction (P := fun tr l => enqueued tr = removed tr ++ l) ?_ ?_ h
  · rintro l rfl
    rfl
  · intro tr l ev l' _ ih hst
    rw [enqueued_append, removed_append, enqueued_singleton, removed_singleton, ih,
      List.append_assoc, List.append_assoc, fifo_step_iff.mp hst]

variable {maxSize : UInt64} {tr tr' : List (QueueEvent T)} {q q₀ q₁ : ReaderWriterQueue T}

section Sample

/-- A queue for one element after some actions, and their events. -/
def sampleQueue (acts : List (QueueAct ℕ)) : ReaderWriterQueue ℕ × List (QueueEvent ℕ) :=
  (System.exec ReaderWriterQueue.next acts (.construct 1)).getD (.construct 1, [])

/-- An element is enqueued and all can see it. -/
def sampleStored : List (QueueAct ℕ) :=
  [.enqueue 7 .canAlloc, .producer true, .drain .producer, .drain .producer]

/-- Then another one needs a second block, and the first one is taken out. -/
def sampleGrown : List (QueueAct ℕ) :=
  sampleStored ++ [.enqueue 8 .canAlloc, .producer true, .producer true, .producer true,
    .dequeue .pop, .consumer, .consumer, .consumer]

theorem run_sampleQueue (acts : List (QueueAct ℕ))
    (h : (System.exec ReaderWriterQueue.next acts (.construct 1)).isSome = true) :
    (ReaderWriterQueue.system 1).Run (sampleQueue acts).2 (sampleQueue acts).1 := by
  obtain ⟨p, hp⟩ := Option.isSome_iff_exists.mp h
  rw [sampleQueue, hp]
  exact System.run_of_exec ⟨by decide, by decide, rfl⟩ hp

theorem run_sampleGrown :
    (ReaderWriterQueue.system 1).Run (sampleQueue sampleGrown).2 (sampleQueue sampleGrown).1 :=
  run_sampleQueue sampleGrown rfl

end Sample

/-- The list that a queue stands for. -/
def Contents (q : ReaderWriterQueue T) (l : List T) : Prop :=
  ∃ e H P₀ P C₀ C, Explained e (fun freed _ => 0 ≤ freed) 0 q H P₀ P C₀ C ∧
    H.values.drop C.gone = l

theorem contents_simulation (maxSize : UInt64) :
    System.Simulation (ReaderWriterQueue.system (T := T) maxSize) fifo Contents where
  init := by
    rintro _ ⟨hpos, hlt, rfl⟩
    obtain ⟨e, hsize, -⟩ := exists_firstSize hpos hlt
    exact ⟨[], rfl, e, _, _, _, _, _,
      { layout := layout_construct hsize, producer := trivial, consumer := trivial
        told := Nat.zero_le _, shown := Nat.zero_le _ }, rfl⟩
  step := by
    rintro q _ ev q' ⟨e, H, P₀, P, C₀, C, hq, rfl⟩ ⟨act, hact⟩
    obtain ⟨H', P₁, P', C₁, C', hstep⟩ := hq.step (Nat.zero_le _) hact
    refine ⟨H'.values.drop C'.gone, ?_, e, H', P₁, P', C₁, C', hstep.explained, rfl⟩
    have hsame : H.values.take C.gone ++ (ev.taken ++ H'.values.drop C'.gone) =
        H.values.take C.gone ++ (H.values.drop C.gone ++ ev.added) := by
      rw [← List.append_assoc, ← hstep.taken, List.take_append_drop, ← List.append_assoc,
        List.take_append_drop, hstep.values]
    exact fifo_step_iff.mpr (List.append_cancel_left hsame)

/-- Under any schedule the queue does, event by event, what a list does to which elements are
appended and from which they are taken at the front: none is lost, doubled or
overtaken. -/
theorem refines_fifo (h : (ReaderWriterQueue.system maxSize).Run tr q) :
    ∃ l, fifo.Run tr l ∧ Contents q l ∧ enqueued tr = removed tr ++ l := by
  obtain ⟨l, hrun, hcontents⟩ := h.simulate (contents_simulation maxSize)
  exact ⟨l, hrun, hcontents, enqueued_eq_of_fifo hrun⟩

theorem refines_fifo_sample :
    ∃ l, fifo.Run (sampleQueue sampleGrown).2 l ∧ [7, 8] = [7] ++ l := by
  obtain ⟨l, hrun, -, hl⟩ := refines_fifo run_sampleGrown
  exact ⟨l, hrun, hl⟩

/-- No assertion of the source fails, no null pointer is followed, no element is
constructed over another, and no raw slot is used. -/
theorem never_failed (h : (ReaderWriterQueue.system maxSize).Run tr q) :
    q.producer ≠ .failed ∧ q.consumer ≠ .failed := by
  obtain ⟨e, H, P₀, P, C₀, C, -, -, hq, -, -⟩ := run_explained h
  have hproducer := hq.producer
  have hconsumer := hq.consumer
  exact ⟨fun hfailed => by rwa [hfailed] at hproducer, fun hfailed => by rwa [hfailed] at hconsumer⟩

theorem never_failed_sample :
    (sampleQueue sampleGrown).1.producer ≠ .failed ∧
      (sampleQueue sampleGrown).1.consumer ≠ .failed :=
  never_failed run_sampleGrown

/-- The consumer has read nothing yet in this call. -/
def Dequeuing.fresh : Dequeuing → Bool
  | idle | start _ => true
  | _ => false

/-- The producer has read nothing yet in this call. -/
def Enqueuing.fresh : Enqueuing T → Bool
  | idle | start _ _ => true
  | _ => false

theorem Dequeuing.Ok.of_fresh {e n : ℕ} {H : QueueHistory T} {P₀ : Produced} {C : Consumed} :
    ∀ {pc : Dequeuing}, pc.fresh = true → pc.Ok e n H P₀ C
  | .idle, _ | .start _, _ => trivial

theorem Enqueuing.Ok.of_fresh {e n : ℕ} {Seen : ℕ → ℕ → Prop} {H : QueueHistory T}
    {P : Produced} {C₀ : Consumed} :
    ∀ {pc : Enqueuing T}, pc.fresh = true → pc.Ok e Seen n H P C₀
  | .idle, _ | .start _ _, _ => trivial

/-- A call that finds the queue empty: all that was enqueued, and whose stores had reached the
memory before it looked, has been removed. -/
theorem empty_complete (h : (ReaderWriterQueue.system maxSize).Run tr q₁)
    {acts : List (QueueAct T)} {tr₁ : List (QueueEvent T)}
    (hexec : System.exec ReaderWriterQueue.next acts q₁ = some (q₀, tr₁))
    (hdrains : (q₁.memory.buffer .producer).length ≤ acts.countP (QueueAct.drains .producer))
    (hfresh : q₀.consumer.fresh = true) {op : Dequeue}
    (hpath : (ReaderWriterQueue.system maxSize).Path q₀ (tr' ++ [.empty op]) q) :
    enqueued tr <+: removed (tr ++ tr₁ ++ tr') := by
  obtain ⟨e, H, P₀, P, C₀, C, -, -, hq, hvalues, htaken⟩ := run_explained h
  obtain ⟨H₁, P₁, P₁', C₁, C₁', hr, hq₁⟩ := hq.exec (Nat.zero_le _) hexec
  obtain ⟨htold, hvisit⟩ := hq₁.produced_passed hq.layout hdrains
  have hlayout := hq₁.explained.layout
  have hshown : H.length ≤ H₁.stop P₁.visit := by
    rw [← QueueHistory.stop_last]
    exact (hq₁.grows.stop_le le_rfl).trans
      (hlayout.wf.stop_mono hvisit hlayout.produced.visit_le)
  have hlook : Explained e (fun freed _ => 0 ≤ freed) H.length q₀ H₁ P₁ P₁' C₁ C₁' :=
    { hq₁.explained with consumer := .of_fresh hfresh, told := htold, shown := hshown }
  obtain ⟨q₂, hpath₂, hlast⟩ := hpath.split
  obtain ⟨_, H₂, P₂, P₂', C₂, C₂', hr₂, hq₂⟩ := hlook.path hr hpath₂
  obtain ⟨act, hact⟩ := hlast.step_of_single
  obtain ⟨_, _, _, _, _, hstep⟩ := hq₂.explained.step hr₂ hact
  have hgone := hstep.event.empty op rfl
  have hremoved : H₂.values.take C₂'.gone = removed (tr ++ tr₁ ++ tr') := by
    rw [hq₂.taken, hq₁.taken, htaken, removed_append, removed_append]
  rw [← hvalues, ← hremoved]
  refine List.prefix_of_prefix_length_le (hq₁.grows.trans hq₂.grows).values
    (List.take_prefix _ _) ?_
  rw [hq₂.explained.length_taken rfl]
  exact hgone

/-- The stores of another element wait when the queue is looked at again. -/
def sampleBehind : List (QueueAct ℕ) :=
  [.drain .producer, .drain .producer, .enqueue 8 .canAlloc, .producer true, .producer true,
    .producer true, .dequeue .pop, .consumer, .consumer, .consumer, .dequeue .tryDequeue]

theorem empty_complete_sample :
    enqueued (sampleQueue (sampleStored.take 2)).2 <+:
      removed (sampleQueue (sampleStored.take 2 ++ sampleBehind ++ [.consumer])).2 := by
  have hexec : System.exec ReaderWriterQueue.next sampleBehind
      (sampleQueue (sampleStored.take 2)).1 =
      some ((sampleQueue (sampleStored.take 2 ++ sampleBehind)).1, _) := rfl
  have hlook : System.exec ReaderWriterQueue.next [.consumer, .consumer]
      (sampleQueue (sampleStored.take 2 ++ sampleBehind)).1 =
      some (_, [.internal] ++ [.empty .tryDequeue]) := rfl
  exact empty_complete (run_sampleQueue (sampleStored.take 2) rfl) hexec (by decide) rfl
    (System.exec_path hlook)

/-- What `peek` points to is the element that is removed next, and stays in its place until
then. -/
theorem peeked_stays {b i : ℕ}
    (h : (ReaderWriterQueue.system maxSize).Run (tr ++ [.peeked b i]) q₀)
    (hpath : (ReaderWriterQueue.system maxSize).Path q₀ tr' q) (hkept : removed tr' = []) :
    ∃ x, (enqueued tr)[(removed tr).length]? = some x ∧ (q.view .consumer).data b i = some x := by
  obtain ⟨q₁, hrun, hlast⟩ := h.split
  obtain ⟨e, H, P₀, P, C₀, C, -, -, hq, hvalues, htaken⟩ := run_explained hrun
  obtain ⟨act, hact⟩ := hlast.step_of_single
  obtain ⟨H₁, P₁, P₁', C₁, C₁', hstep⟩ := hq.step (Nat.zero_le _) hact
  obtain ⟨hlt, rfl, rfl⟩ := hstep.event.peeked b i rfl
  obtain ⟨_, H₂, P₂, P₂', C₂, C₂', -, hq₂⟩ := hstep.explained.path (Nat.zero_le _) hpath
  have hlen : C.gone < H.length := hlt.trans_le
    (hq.layout.produced.told_le.trans hq.layout.produced.made_le)
  have hgone : C₂'.gone = C.gone := by
    have hsame : H₂.values.take C₂'.gone = removed tr := by
      rw [hq₂.taken, hkept, List.append_nil, hstep.taken, htaken]
      exact List.append_nil _
    rw [← hq₂.explained.length_taken hsame, hq.length_taken htaken]
  have hgrows := hstep.grows.trans hq₂.grows
  have hx : H.values[C.gone]? = some H.values[C.gone] := List.getElem?_eq_getElem hlen
  refine ⟨H.values[C.gone], ?_, ?_⟩
  · rw [← hvalues, hq.length_taken htaken, hx]
  · have hlayout := hq₂.explained.layout
    have hlive := hlayout.consumer_view.live C.gone H.values[C.gone] hgone.le
      ((hlt.trans_le (hstep.told.trans hq₂.told)).trans_le hlayout.produced.told_le)
      (by rw [hgrows.getElem?_eq hlen, hx])
    rwa [hgrows.place _ hlen, hgrows.slot_eq hlen] at hlive

def samplePeeked : List (QueueAct ℕ) := sampleStored ++ [.dequeue .peek, .consumer, .consumer]

theorem peeked_stays_sample :
    ((sampleQueue (samplePeeked ++ [.enqueue 8 .canAlloc, .producer true])).1.view
      .consumer).data 0 0 = some 7 := by
  have hrun : (ReaderWriterQueue.system 1).Run
      ([.internal, .enqueued 7 .stored, .internal, .internal, .internal, .internal] ++
        [.peeked 0 0]) (sampleQueue samplePeeked).1 := run_sampleQueue samplePeeked rfl
  have hexec : System.exec ReaderWriterQueue.next [.enqueue 8 .canAlloc, .producer true]
      (sampleQueue samplePeeked).1 =
      some ((sampleQueue (samplePeeked ++ [.enqueue 8 .canAlloc, .producer true])).1,
        [.internal, .internal]) := rfl
  obtain ⟨x, hx, hdata⟩ := peeked_stays hrun (System.exec_path hexec) rfl
  rw [hdata, ← hx]
  rfl

theorem held_le {r k : ℕ} {H : QueueHistory T}
    (hheld : Enqueuing.Held (fun freed _ => r ≤ freed) H k) : r + k ≤ H.values.length := by
  obtain ⟨freed, hr, hle⟩ := hheld
  exact (Nat.add_le_add_right hr k).trans hle

/-- A block is made, or an element refused for want of one, only when, of the elements
enqueued so far, all but those whose removal had reached the memory before the producer
looked fill the blocks there are: the first one, with its `maxSize` elements or more, and
of several all but the largest. -/
theorem no_room_full (h : (ReaderWriterQueue.system maxSize).Run tr q₁)
    {acts : List (QueueAct T)} {tr₁ : List (QueueEvent T)}
    (hexec : System.exec ReaderWriterQueue.next acts q₁ = some (q₀, tr₁))
    (hdrains : (q₁.memory.buffer .consumer).length ≤ acts.countP (QueueAct.drains .consumer))
    (hfresh : q₀.producer.fresh = true) {x : T}
    {result : EnqueueResult} (hresult : result = .allocated ∨ result = .noRoom)
    (hpath : (ReaderWriterQueue.system maxSize).Path q₀ (tr' ++ [.enqueued x result]) q) :
    (removed tr).length + maxSize.toNat ≤ (enqueued (tr ++ tr₁ ++ tr')).length ∧
      (result = .allocated →
        (removed tr).length + ((ceilToPow2 (maxSize + 1)).toNat * (2 ^ (q.blocks - 2) - 1) -
          (q.blocks - 2)) ≤ (enqueued (tr ++ tr₁ ++ tr')).length) := by
  obtain ⟨e, H, P₀, P, C₀, C, hsize, hmax, hq, hvalues, htaken⟩ := run_explained h
  obtain ⟨H₁, P₁, P₁', C₁, C₁', -, hq₁⟩ := hq.exec (Nat.zero_le _) hexec
  have hfreed : (removed tr).length ≤ C₁.freed := by
    rw [hq.length_taken htaken]
    exact hq₁.consumed_passed hq.layout hdrains
  have hlook : Explained e (fun freed _ => (removed tr).length ≤ freed) 0 q₀ H₁ P₁ P₁' C₁ C₁' :=
    { hq₁.explained with producer := .of_fresh hfresh }
  obtain ⟨q₂, hpath₂, hlast⟩ := hpath.split
  obtain ⟨_, H₂, P₂, P₂', C₂, C₂', hr, hq₂⟩ := hlook.path hfreed hpath₂
  obtain ⟨act, hact⟩ := hlast.step_of_single
  obtain ⟨_, _, _, _, _, hstep⟩ := hq₂.explained.step hr hact
  have hlen : H₂.values.length = (enqueued (tr ++ tr₁ ++ tr')).length := by
    rw [hq₂.values, hq₁.values, hvalues, enqueued_append, enqueued_append]
  constructor
  · have hheld := held_le (hstep.event.needed x (by simpa using hresult))
    omega
  · rintro rfl
    obtain ⟨hblocks, hheld⟩ := hstep.event.allocated x rfl
    have hle := held_le hheld
    rw [hsize, hblocks]
    rwa [hlen] at hle

def sampleTaken : List (QueueAct ℕ) :=
  sampleStored ++ [.dequeue .pop, .consumer, .consumer, .consumer]

/-- Four more, when the first is known to be gone, fill the first block and a second one. -/
def sampleFilled : List (QueueAct ℕ) :=
  [.drain .consumer, .drain .consumer, .enqueue 8 .canAlloc, .producer true,
    .enqueue 9 .canAlloc, .producer true, .producer true, .producer true,
    .enqueue 10 .canAlloc, .producer true, .enqueue 11 .canAlloc, .producer true]

/-- The call of `enqueue` that then makes a third block. -/
def sampleThird : List (QueueAct ℕ) :=
  [.enqueue 12 .canAlloc, .producer true, .producer true, .producer true]

theorem sampleThird_eq :
    ((System.exec ReaderWriterQueue.next sampleFilled (sampleQueue sampleTaken).1).bind fun p =>
      (System.exec ReaderWriterQueue.next sampleThird p.1).map fun p' =>
        (p.1.producer.fresh, enqueued p.2, p'.2, p'.1.blocks)) =
      some (true, [8, 9, 10, 11],
        [.internal, .internal, .internal] ++ [.enqueued 12 .allocated], 3) := by
  decide +kernel

theorem no_room_full_sample :
    ∃ q : ReaderWriterQueue ℕ, q.blocks = 3 ∧ [7].length +
      ((ceilToPow2 (1 + 1)).toNat * (2 ^ (q.blocks - 2) - 1) - (q.blocks - 2)) ≤
        [7, 8, 9, 10, 11].length := by
  obtain ⟨⟨q₀, tr₁⟩, hexec, hmap⟩ := Option.bind_eq_some_iff.mp sampleThird_eq
  obtain ⟨⟨q, tr'⟩, hthird, heq⟩ := Option.map_eq_some_iff.mp hmap
  obtain ⟨hfresh, hadded, rfl, hblocks⟩ := by simpa only [Prod.mk.injEq] using heq
  have hfull := no_room_full (run_sampleQueue sampleTaken rfl) hexec (by decide) hfresh
    (Or.inl rfl) (System.exec_path hthird)
  refine ⟨q, hblocks, ?_⟩
  have hlen := hfull.2 rfl
  rw [enqueued_append, enqueued_append, hadded] at hlen
  exact hlen

end Qing
