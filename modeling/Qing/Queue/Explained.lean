import Qing.Queue.Construct

/-!
# Histories of runs

A run of the queue, under any schedule of the two threads and of the drains of their stores,
has a history (`Explained`, `run_explained`). A step tells what there is
(`EventOk`), and a stretch of steps what it adds and how far the stores get that were waiting
when it began (`ExplainedPath`): once as many have been drained, the memory has come to
where the thread was (`ExplainedPath.produced_passed`, `ExplainedPath.consumed_passed`).
-/

namespace Qing

variable {T : Type*}

/-- The elements that a history of events put into the queue. -/
def enqueued (tr : List (QueueEvent T)) : List T := tr.flatMap QueueEvent.added

/-- The elements that a history of events took out of the queue. -/
def removed (tr : List (QueueEvent T)) : List T := tr.flatMap QueueEvent.taken

@[simp] theorem enqueued_append (tr tr' : List (QueueEvent T)) :
    enqueued (tr ++ tr') = enqueued tr ++ enqueued tr' := List.flatMap_append

@[simp] theorem removed_append (tr tr' : List (QueueEvent T)) :
    removed (tr ++ tr') = removed tr ++ removed tr' := List.flatMap_append

@[simp] theorem enqueued_singleton (ev : QueueEvent T) : enqueued [ev] = ev.added := by
  simp [enqueued]

@[simp] theorem removed_singleton (ev : QueueEvent T) : removed [ev] = ev.taken := by
  simp [removed]

/-! ## What a thread changes -/

namespace ReaderWriterQueue

variable {q q' : ReaderWriterQueue T} {ev : QueueEvent T} {malloc : Bool} {thread : QueueThread}

/-- From one queue to the other, the thread has only made stores. -/
def Stored (thread : QueueThread) (q q' : ReaderWriterQueue T) : Prop :=
  ∃ made, q'.memory = q.memory.push thread made

theorem Stored.of_eq (h : q'.memory = q.memory) : Stored thread q q' :=
  ⟨[], by rw [h, Buffered.push_nil]⟩

theorem Stored.trans {q'' : ReaderWriterQueue T} (h : Stored thread q q')
    (h' : Stored thread q' q'') : Stored thread q q'' := by
  obtain ⟨made, hmade⟩ := h
  obtain ⟨made', hmade'⟩ := h'
  exact ⟨made ++ made', by rw [hmade', hmade, Buffered.push_push]⟩

theorem stored_place (q : ReaderWriterQueue T) (block i : ℕ) (x : T)
    (stores : List (QueueStore T)) (result : EnqueueResult) :
    Stored .producer q (q.place block i x stores result).1 := by
  rw [place]
  split
  · exact .of_eq rfl
  · exact ⟨_, rfl⟩

theorem Stored.of_makeBlock {capacity : ℕ} (h : q.makeBlock capacity malloc = some q') :
    Stored .producer q q' := by
  rw [makeBlock] at h
  split_ifs at h
  obtain rfl := Option.some.inj h
  exact ⟨_, rfl⟩

theorem Stored.of_some {p : ReaderWriterQueue T × QueueEvent T} (heq : some p = some (q', ev))
    (h : Stored thread q p.1) : Stored thread q q' := by
  obtain rfl := Option.some.inj heq
  exact h

theorem Stored.of_same {q₁ : ReaderWriterQueue T} {ev₁ : QueueEvent T}
    (heq : some (q₁, ev₁) = some (q', ev)) (h : q₁.memory = q.memory) : Stored thread q q' :=
  .of_some heq (.of_eq h)

theorem Stored.of_place {q₁ : ReaderWriterQueue T} {block i : ℕ} {x : T}
    {stores : List (QueueStore T)} {result : EnqueueResult} (h : Stored .producer q q₁) :
    Stored .producer q (q₁.place block i x stores result).1 :=
  h.trans (q₁.stored_place block i x stores result)

/-- The producer changes what is shared by its stores only. -/
theorem Stored.of_innerEnqueue (h : q.innerEnqueue malloc = some (q', ev)) :
    Stored .producer q q' := by
  cases hq : q.producer with
  | idle => simp [innerEnqueue, hq] at h
  | failed => simp [innerEnqueue, hq] at h
  | start x mode =>
      simp only [innerEnqueue, hq] at h
      split at h
      · exact .of_some h (.of_place (.of_eq rfl))
      · exact .of_same h rfl
  | full x mode =>
      simp only [innerEnqueue, hq] at h
      split at h
      · exact .of_same h rfl
      · cases mode with
        | canAlloc => exact .of_same h rfl
        | cannotAlloc => exact .of_same h rfl
  | advance x =>
      simp only [innerEnqueue, hq] at h
      split at h
      · exact .of_same h rfl
      · split at h
        · exact .of_some h (.of_place (.of_eq rfl))
        · exact .of_same h rfl
  | allocate x =>
      simp only [innerEnqueue, hq] at h
      split at h
      · exact .of_same h rfl
      · rename_i q₁ hmake
        have hmade : Stored .producer q q₁ := .of_makeBlock hmake
        split at h
        · exact .of_some h (.of_place hmade)
        · exact .of_some h hmade

theorem Stored.of_stepDequeue (h : q.stepDequeue = some (q', ev)) : Stored .consumer q q' := by
  cases hq : q.consumer with
  | idle => simp [stepDequeue, hq] at h
  | failed => simp [stepDequeue, hq] at h
  | start op =>
      simp only [stepDequeue, hq] at h
      exact .of_same h rfl
  | seen op block =>
      simp only [stepDequeue, hq] at h
      split at h
      · cases op <;> exact .of_same h rfl
      · split at h <;> exact .of_same h rfl
  | leaving op =>
      simp only [stepDequeue, hq] at h
      split at h <;> exact .of_same h rfl
  | entering op block =>
      simp only [stepDequeue, hq] at h
      split at h
      · exact .of_same h rfl
      · cases op with
        | tryDequeue => exact .of_some h ⟨_, rfl⟩
        | pop => exact .of_some h ⟨_, rfl⟩
        | peek => exact .of_some h (.of_eq rfl)
  | taking op block i =>
      simp only [stepDequeue, hq] at h
      split at h
      · exact .of_same h rfl
      · exact .of_some h ⟨_, rfl⟩

end ReaderWriterQueue

/-! ## Histories of runs -/

/-- A queue with its history and its threads where they may be, when the memory has shown
`n` elements to the consumer. -/
structure Explained (e : ℕ) (Seen : ℕ → ℕ → Prop) (n : ℕ) (q : ReaderWriterQueue T)
    (H : QueueHistory T) (P₀ P : Produced) (C₀ C : Consumed) : Prop where
  layout : Layout e q H P₀ P C₀ C
  producer : q.producer.Ok e Seen q.blocks H P C₀
  consumer : q.consumer.Ok e n H P₀ C
  told : n ≤ P₀.told
  shown : n ≤ H.stop P₀.visit

/-- What a step tells of the elements there are. -/
structure EventOk (e : ℕ) (Seen : ℕ → ℕ → Prop) (n : ℕ) (q q' : ReaderWriterQueue T)
    (ev : QueueEvent T) (H : QueueHistory T) (P₀ : Produced) (C : Consumed) : Prop where
  needed : ∀ x, ev = .enqueued x .allocated ∨ ev = .enqueued x .noRoom →
    Enqueuing.Held Seen H (2 ^ (e + 1) - 1)
  allocated : ∀ x, ev = .enqueued x .allocated → q'.blocks = q.blocks + 1 ∧
    Enqueuing.Held Seen H (2 ^ (e + 1) * (2 ^ (q.blocks - 1) - 1) - (q.blocks - 1))
  kept : (∀ x, ev ≠ .enqueued x .allocated) → q'.blocks = q.blocks
  empty : ∀ op, ev = .empty op → n ≤ C.gone
  peeked : ∀ b i, ev = .peeked b i →
    C.gone < P₀.told ∧ b = H.place C.gone ∧ i = H.slot (blockCap e) C.gone

theorem EventOk.internal {e n : ℕ} {Seen : ℕ → ℕ → Prop} {q q' : ReaderWriterQueue T}
    {H : QueueHistory T} {P₀ : Produced} {C : Consumed} (h : q'.blocks = q.blocks) :
    EventOk e Seen n q q' .internal H P₀ C where
  needed := by simp
  allocated := by simp
  kept _ := h
  empty := by simp
  peeked := by simp

/-- The action drains a store of the thread. -/
def QueueAct.drains (thread : QueueThread) : QueueAct T → Bool
  | drain thread' => thread' == thread
  | _ => false

/-- The history, the positions and what a stretch of steps adds to them, with so many stores of
each thread drained. -/
structure ExplainedPath (e : ℕ) (Seen : ℕ → ℕ → Prop) (n : ℕ) (drains : QueueThread → ℕ)
    (q q' : ReaderWriterQueue T) (ins outs : List T) (H H' : QueueHistory T)
    (P₀ P₁ P' : Produced) (C₀ C C₁ C' : Consumed) : Prop where
  explained : Explained e Seen n q' H' P₁ P' C₁ C'
  grows : H.Extends H'
  values : H'.values = H.values ++ ins
  taken : H'.values.take C'.gone = H.values.take C.gone ++ outs
  produced : Buffered.Drained (produceSystem H' (blockCap e)) (drains .producer)
    (q.memory.buffer .producer) (q'.memory.buffer .producer) P₀ P₁
  consumed : Buffered.Drained (consumeSystem H' (blockCap e)) (drains .consumer)
    (q.memory.buffer .consumer) (q'.memory.buffer .consumer) C₀ C₁

/-- The same of one step, and what it tells. -/
structure ExplainedStep (e : ℕ) (Seen : ℕ → ℕ → Prop) (n : ℕ) (act : QueueAct T)
    (q q' : ReaderWriterQueue T) (ev : QueueEvent T) (H H' : QueueHistory T)
    (P₀ P₁ P' : Produced) (C₀ C C₁ C' : Consumed) : Prop
    extends ExplainedPath e Seen n (fun thread => [act].countP (QueueAct.drains thread)) q q'
      ev.added ev.taken H H' P₀ P₁ P' C₀ C C₁ C' where
  event : EventOk e Seen n q q' ev H P₀ C

section Drained

variable {H : QueueHistory T} {cap : ℕ → ℕ} {n : ℕ} {buffer buffer' : List (QueueStore T)}

theorem produced_mono {P P' : Produced}
    (h : Buffered.Drained (produceSystem H cap) n buffer buffer' P P') :
    P.made ≤ P'.made ∧ P.told ≤ P'.told ∧ P.visit ≤ P'.visit := by
  obtain ⟨_, _, hpath, -⟩ := h
  exact produce_path_mono hpath

theorem consumed_mono {C C' : Consumed}
    (h : Buffered.Drained (consumeSystem H cap) n buffer buffer' C C') :
    C.gone ≤ C'.gone ∧ C.freed ≤ C'.freed ∧ C.visit ≤ C'.visit := by
  obtain ⟨_, _, hpath, -⟩ := h
  exact consume_path_mono hpath

end Drained

namespace ExplainedPath

variable {e n : ℕ} {Seen : ℕ → ℕ → Prop} {drains drains' : QueueThread → ℕ}
  {q q' q'' : ReaderWriterQueue T} {ins ins' outs outs' : List T} {H H' H'' : QueueHistory T}
  {P₀ P P₁ P₂ P' P'' : Produced} {C₀ C C₁ C₂ C' C'' : Consumed}

theorem refl (h : Explained e Seen n q H P₀ P C₀ C) :
    ExplainedPath e Seen n (fun _ => 0) q q [] [] H H P₀ P₀ P C₀ C C₀ C where
  explained := h
  grows := .refl H
  values := (List.append_nil _).symm
  taken := (List.append_nil _).symm
  produced := .refl ..
  consumed := .refl ..

theorem trans (h : ExplainedPath e Seen n drains q q' ins outs H H' P₀ P₁ P' C₀ C C₁ C')
    (h' : ExplainedPath e Seen n drains' q' q'' ins' outs' H' H'' P₁ P₂ P'' C₁ C' C₂ C'') :
    ExplainedPath e Seen n (fun thread => drains thread + drains' thread) q q'' (ins ++ ins')
      (outs ++ outs') H H'' P₀ P₂ P'' C₀ C C₂ C'' := by
  have hlayout := h.explained.layout
  have hmono := consume_path_mono hlayout.consumer_path
  exact
    { explained := h'.explained
      grows := h.grows.trans h'.grows
      values := by rw [h'.values, h.values, List.append_assoc]
      taken := by rw [h'.taken, h.taken, List.append_assoc]
      produced := (h.produced.imp fun _ hpath =>
        produce_path_extend h'.grows hpath hlayout.produced.made_le).trans h'.produced
      consumed := (h.consumed.imp fun _ hpath =>
        consume_path_extend h'.grows hpath (hmono.1.trans hlayout.gone_le_length)
          hlayout.freed_le_length hlayout.consumed.visit_le).trans h'.consumed }

theorem told (h : ExplainedPath e Seen n drains q q' ins outs H H' P₀ P₁ P' C₀ C C₁ C') :
    P₀.told ≤ P₁.told :=
  (produced_mono h.produced).2.1

theorem freed (h : ExplainedPath e Seen n drains q q' ins outs H H' P₀ P₁ P' C₀ C C₁ C') :
    C₀.freed ≤ C₁.freed :=
  (consumed_mono h.consumed).2.1

/-- Once the stores of the producer have been drained that were waiting, the memory shows what
the producer had done, or more. -/
theorem produced_passed (h : ExplainedPath e Seen n drains q q' ins outs H H' P₀ P₁ P' C₀ C C₁ C')
    (hlayout : Layout e q H P₀ P C₀ C)
    (hdrains : (q.memory.buffer .producer).length ≤ drains .producer) :
    H.length ≤ P₁.told ∧ H.last ≤ P₁.visit := by
  have hpath := produce_path_extend h.grows hlayout.producer_path hlayout.made_eq.le
  obtain ⟨stores, hrest⟩ := h.produced.passed (fun _ _ _ _ => ProduceStep.unique) hdrains hpath
  have hmono := produce_path_mono hrest
  exact ⟨hlayout.told_eq.ge.trans hmono.2.1, hlayout.visit_eq.ge.trans hmono.2.2⟩

/-- Once the stores of the consumer have been drained that were waiting, the memory shows all
freed that the consumer had taken out. -/
theorem consumed_passed (h : ExplainedPath e Seen n drains q q' ins outs H H' P₀ P₁ P' C₀ C C₁ C')
    (hlayout : Layout e q H P₀ P C₀ C)
    (hdrains : (q.memory.buffer .consumer).length ≤ drains .consumer) : C.gone ≤ C₁.freed := by
  have hgone := hlayout.gone_le_length
  have hpath := consume_path_extend h.grows hlayout.consumer_path hgone
    (hlayout.freed_eq.trans_le hgone) hlayout.consumed_own.visit_le
  obtain ⟨stores, hrest⟩ := h.consumed.passed (fun _ _ _ _ => ConsumeStep.unique) hdrains hpath
  exact hlayout.freed_eq.ge.trans (consume_path_mono hrest).2.1

end ExplainedPath

namespace Explained

variable {e n : ℕ} {Seen : ℕ → ℕ → Prop} {q q' : ReaderWriterQueue T} {H : QueueHistory T}
  {P₀ P : Produced} {C₀ C : Consumed} {act : QueueAct T} {ev : QueueEvent T}

theorem step_quiet {P₁ : Produced} {C₁ : Consumed} (h : Explained e Seen n q' H P₁ P C₁ C)
    (hblocks : q'.blocks = q.blocks)
    (hproduced : Buffered.Drained (produceSystem H (blockCap e))
      ([act].countP (QueueAct.drains .producer)) (q.memory.buffer .producer)
      (q'.memory.buffer .producer) P₀ P₁)
    (hconsumed : Buffered.Drained (consumeSystem H (blockCap e))
      ([act].countP (QueueAct.drains .consumer)) (q.memory.buffer .consumer)
      (q'.memory.buffer .consumer) C₀ C₁) :
    ExplainedStep e Seen n act q q' .internal H H P₀ P₁ P C₀ C C₁ C where
  explained := h
  grows := .refl H
  values := (List.append_nil _).symm
  taken := (List.append_nil _).symm
  produced := hproduced
  consumed := hconsumed
  event := .internal hblocks

theorem drained_of_stored {π : Type*} {M : System π (QueueStore T)} {p : π}
    {thread thread' : QueueThread} (h : ReaderWriterQueue.Stored thread q q') :
    Buffered.Drained M 0 (q.memory.buffer thread') (q'.memory.buffer thread') p p := by
  obtain ⟨made, hmade⟩ := h
  rw [hmade]
  rcases eq_or_ne thread' thread with rfl | hne
  · rw [Buffered.push_buffer_self]
    exact .made ..
  · rw [Buffered.push_buffer_of_ne _ hne]
    exact .refl ..

/-- A step that the producer does not take leaves the history and the producer's place as
they are. -/
theorem step_other (h : Explained e Seen n q H P₀ P C₀ C) (hact : act.thread ≠ some .producer)
    (hstep : ReaderWriterQueue.next act q = some (q', ev)) :
    ∃ P₁ C₁ C', ExplainedStep e Seen n act q q' ev H H P₀ P₁ P C₀ C C₁ C' := by
  have hlayout := h.layout
  cases act with
  | enqueue x mode => exact absurd rfl hact
  | producer malloc => exact absurd rfl hact
  | dequeue op =>
      simp only [ReaderWriterQueue.next] at hstep
      split at hstep
      · obtain ⟨rfl, rfl⟩ := Prod.mk.inj (Option.some.inj hstep)
        have hq : Explained e Seen n { q with consumer := .start op } H P₀ P C₀ C :=
          { h with layout := { hlayout with }, consumer := trivial }
        exact ⟨P₀, C₀, C, hq.step_quiet rfl (.refl ..) (.refl ..)⟩
      · cases hstep
  | consumer =>
      obtain ⟨C', hspec⟩ := hlayout.step_consumer h.consumer h.told h.shown hstep
      have hproducer : q'.producer.Ok e Seen q'.blocks H P C₀ := by
        rw [hspec.producer, hspec.blocks]
        exact h.producer
      have hstored := ReaderWriterQueue.Stored.of_stepDequeue hstep
      exact ⟨P₀, C₀, C',
        { explained :=
            { h with layout := hspec.layout, producer := hproducer, consumer := hspec.ok }
          grows := .refl H
          values := by rw [hspec.added, List.append_nil]
          taken := hspec.taken
          produced := drained_of_stored hstored
          consumed := drained_of_stored hstored
          event :=
            { needed := fun x hx =>
                hx.elim (absurd · (hspec.event x _)) (absurd · (hspec.event x _))
              allocated := fun x hx => absurd hx (hspec.event x _)
              kept := fun _ => hspec.blocks, empty := hspec.empty
              peeked := hspec.peeked } }⟩
  | drain thread =>
      obtain ⟨memory, hdrain, heq⟩ := Option.map_eq_some_iff.mp hstep
      obtain ⟨rfl, rfl⟩ := Prod.mk.inj heq
      cases thread with
      | producer =>
          obtain ⟨P₁, hnew, hdrained⟩ := hlayout.drain_producer hdrain
          have hmono := produced_mono hdrained
          have hq : Explained e Seen n { q with memory } H P₁ P C₀ C :=
            { layout := hnew, producer := h.producer
              consumer := h.consumer.mono hmono.2.1 hmono.2.2
              told := h.told.trans hmono.2.1
              shown := h.shown.trans (hlayout.wf.stop_mono hmono.2.2 hnew.produced.visit_le) }
          refine ⟨P₁, C₀, C, hq.step_quiet rfl hdrained ?_⟩
          rw [Buffered.drain_buffer_of_ne _ hdrain (j := .consumer) nofun]
          exact .refl ..
      | consumer =>
          obtain ⟨C₁, hnew, hdrained⟩ := hlayout.drain_consumer hdrain
          have hq : Explained e Seen n { q with memory } H P₀ P C₁ C :=
            { h with layout := hnew, producer := h.producer.mono (consumed_mono hdrained).2.2 }
          refine ⟨P₀, C₁, C, hq.step_quiet rfl ?_ hdrained⟩
          rw [Buffered.drain_buffer_of_ne _ hdrain (j := .producer) nofun]
          exact .refl ..

theorem step (h : Explained e Seen n q H P₀ P C₀ C) (hseen : Seen C₀.freed H.length)
    (hstep : ReaderWriterQueue.next act q = some (q', ev)) :
    ∃ H' P₁ P' C₁ C', ExplainedStep e Seen n act q q' ev H H' P₀ P₁ P' C₀ C C₁ C' := by
  have hlayout := h.layout
  by_cases hact : act.thread = some .producer
  · cases act with
    | enqueue x mode =>
        simp only [ReaderWriterQueue.next] at hstep
        split at hstep
        · obtain ⟨rfl, rfl⟩ := Prod.mk.inj (Option.some.inj hstep)
          have hq : Explained e Seen n { q with producer := .start x mode } H P₀ P C₀ C :=
            { h with layout := { hlayout with }, producer := trivial }
          exact ⟨H, P₀, P, C₀, C, hq.step_quiet rfl (.refl ..) (.refl ..)⟩
        · cases hstep
    | producer malloc =>
        obtain ⟨H', P', hspec⟩ := hlayout.step_producer hseen h.producer hstep
        have hconsumer : q'.consumer.Ok e n H' P₀ C := by
          rw [hspec.consumer]
          exact h.consumer.extend hspec.grows hlayout.produced hlayout.consumed_own
        have hstored := ReaderWriterQueue.Stored.of_innerEnqueue hstep
        exact ⟨H', P₀, P', C₀, C,
          { explained :=
              { layout := hspec.layout, producer := hspec.ok, consumer := hconsumer
                told := h.told
                shown := h.shown.trans (hspec.grows.stop_le hlayout.produced.visit_le) }
            grows := hspec.grows, values := hspec.values
            taken := by
              rw [hspec.values, hspec.taken, List.append_nil,
                List.take_append_of_le_length hlayout.gone_le_length]
            produced := drained_of_stored hstored
            consumed := drained_of_stored hstored
            event :=
              { needed := hspec.needed, allocated := hspec.allocated, kept := hspec.kept
                empty := fun op hop => absurd hop (hspec.event.1 op)
                peeked := fun b i hpeek => absurd hpeek (hspec.event.2 b i) } }⟩
    | dequeue op => cases hact
    | consumer => cases hact
    | drain thread => cases hact
  · obtain ⟨P₁, C₁, C', hother⟩ := h.step_other hact hstep
    exact ⟨H, P₁, P, C₁, C', hother⟩

/-! ### Runs -/

theorem exec {r : ℕ} : ∀ {acts : List (QueueAct T)} {q : ReaderWriterQueue T}
    {H : QueueHistory T} {P₀ P : Produced} {C₀ C : Consumed} {tr : List (QueueEvent T)},
    Explained e (fun freed _ => r ≤ freed) n q H P₀ P C₀ C → r ≤ C₀.freed →
    System.exec ReaderWriterQueue.next acts q = some (q', tr) →
    ∃ H' P₁ P' C₁ C', r ≤ C₁.freed ∧
      ExplainedPath e (fun freed _ => r ≤ freed) n
        (fun thread => acts.countP (QueueAct.drains thread)) q q' (enqueued tr) (removed tr)
        H H' P₀ P₁ P' C₀ C C₁ C'
  | [], q, H, P₀, P, C₀, C, tr, h, hr, hexec => by
      obtain ⟨rfl, rfl⟩ := Prod.mk.inj (Option.some.inj hexec)
      exact ⟨H, P₀, P, C₀, C, hr, .refl h⟩
  | act :: acts, q, H, P₀, P, C₀, C, tr, h, hr, hexec => by
      obtain ⟨q₁, ev, tr', hnext, hrest, rfl⟩ := System.exec_cons hexec
      obtain ⟨H₁, P₁, P₁', C₁, C₁', hstep⟩ := h.step hr hnext
      have hr₁ := hr.trans hstep.freed
      obtain ⟨H', P₂, P', C₂, C', hr', hpath⟩ := exec hstep.explained hr₁ hrest
      refine ⟨H', P₂, P', C₂, C', hr', ?_⟩
      have hcount : (fun thread => (act :: acts).countP (QueueAct.drains thread)) =
          fun thread =>
            [act].countP (QueueAct.drains thread) + acts.countP (QueueAct.drains thread) := by
        funext thread
        rw [← List.countP_append, List.singleton_append]
      rw [hcount]
      exact hstep.toExplainedPath.trans hpath

theorem path {r : ℕ} {maxSize : UInt64} {tr : List (QueueEvent T)}
    (h : Explained e (fun freed _ => r ≤ freed) n q H P₀ P C₀ C) (hr : r ≤ C₀.freed)
    (hpath : (ReaderWriterQueue.system maxSize).Path q tr q') :
    ∃ drains H' P₁ P' C₁ C', r ≤ C₁.freed ∧
      ExplainedPath e (fun freed _ => r ≤ freed) n drains q q' (enqueued tr) (removed tr) H H'
        P₀ P₁ P' C₀ C C₁ C' := by
  obtain ⟨acts, hexec⟩ := hpath.exists_exec
  exact ⟨_, h.exec hr hexec⟩

theorem length_taken (h : Explained e Seen n q H P₀ P C₀ C) {l : List T}
    (htaken : H.values.take C.gone = l) : l.length = C.gone := by
  rw [← htaken, List.length_take]
  exact min_eq_left h.layout.gone_le_length

end Explained

/-- Every run has a history. -/
theorem run_explained {maxSize : UInt64} {tr : List (QueueEvent T)} {q : ReaderWriterQueue T}
    (h : (ReaderWriterQueue.system maxSize).Run tr q) :
    ∃ e H P₀ P C₀ C, (ceilToPow2 (maxSize + 1)).toNat = 2 ^ (e + 1) ∧
      maxSize.toNat + 1 ≤ 2 ^ (e + 1) ∧ Explained e (fun freed _ => 0 ≤ freed) 0 q H P₀ P C₀ C ∧
      H.values = enqueued tr ∧ H.values.take C.gone = removed tr := by
  obtain ⟨q₀, ⟨hpos, hlt, rfl⟩, hpath⟩ := h
  obtain ⟨e, hsize, hle⟩ := exists_firstSize hpos hlt
  have hinit : Explained e (fun freed _ => 0 ≤ freed) 0
      (ReaderWriterQueue.construct maxSize : ReaderWriterQueue T) _ _ _ _ _ :=
    { layout := layout_construct hsize, producer := trivial, consumer := trivial
      told := Nat.zero_le _, shown := Nat.zero_le _ }
  obtain ⟨_, H, P₀, P, C₀, C, -, hq⟩ := hinit.path (Nat.zero_le _) hpath
  exact ⟨e, H, P₀, P, C₀, C, hsize, hle, hq.explained, hq.values, hq.taken⟩

end Qing
