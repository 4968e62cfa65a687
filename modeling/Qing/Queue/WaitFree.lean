import Qing.Queue.Runs

/-!
# Every call returns

A thread inside a call is never blocked, and it has only so many steps to make, whatever
the other thread does and however late the stores are drained (`enqueue_returns`,
`dequeue_returns`).
-/

namespace Qing

variable {T : Type*}

def Enqueuing.left : Enqueuing T → ℕ
  | idle | failed => 0
  | start _ _ => 3
  | full _ _ => 2
  | advance _ | allocate _ => 1

def Dequeuing.left : Dequeuing → ℕ
  | idle | failed => 0
  | start _ => 5
  | seen _ _ => 4
  | leaving _ => 3
  | entering _ _ => 2
  | taking _ _ _ => 1

def QueueEvent.isEnqueued : QueueEvent T → Bool
  | enqueued _ _ => true
  | _ => false

def QueueEvent.isDequeued : QueueEvent T → Bool
  | removed _ _ | empty _ | peeked _ _ => true
  | _ => false

def QueueAct.isProducer : QueueAct T → Bool
  | producer _ => true
  | _ => false

def QueueAct.isConsumer : QueueAct T → Bool
  | consumer => true
  | _ => false

namespace ReaderWriterQueue

variable {q q' : ReaderWriterQueue T} {ev : QueueEvent T} {act : QueueAct T} {malloc : Bool}

theorem place_returns (q : ReaderWriterQueue T) (block i : ℕ) (x : T)
    (stores : List (QueueStore T)) (result : EnqueueResult) :
    (q.place block i x stores result).2.isEnqueued = true ∨
      (q.place block i x stores result).1.producer = .failed := by
  rw [place]
  split
  · exact Or.inr rfl
  · exact Or.inl rfl

theorem innerEnqueue_isSome (h : 0 < q.producer.left) :
    (q.innerEnqueue malloc).isSome = true := by
  cases hq : q.producer with
  | idle => simp [hq, Enqueuing.left] at h
  | failed => simp [hq, Enqueuing.left] at h
  | start x mode =>
      simp only [innerEnqueue, hq]
      split <;> rfl
  | full x mode =>
      simp only [innerEnqueue, hq]
      split
      · rfl
      · cases mode <;> rfl
  | advance x =>
      simp only [innerEnqueue, hq]
      split
      · rfl
      · split <;> rfl
  | allocate x =>
      simp only [innerEnqueue, hq]
      split
      · rfl
      · split <;> rfl

theorem innerEnqueue_left (h : q.innerEnqueue malloc = some (q', ev)) :
    ev.isEnqueued = true ∨ q'.producer = .failed ∨
      q'.producer ≠ .idle ∧ q'.producer.left < q.producer.left := by
  have hplace : ∀ (q₁ : ReaderWriterQueue T) block i x stores result,
      some (q₁.place block i x stores result) = some (q', ev) →
      ev.isEnqueued = true ∨ q'.producer = .failed ∨
        q'.producer ≠ .idle ∧ q'.producer.left < q.producer.left := by
    intro q₁ block i x stores result heq
    have hreturns := q₁.place_returns block i x stores result
    rw [Option.some.inj heq] at hreturns
    exact hreturns.imp_right Or.inl
  cases hq : q.producer with
  | idle => simp [innerEnqueue, hq] at h
  | failed => simp [innerEnqueue, hq] at h
  | start x mode =>
      rw [hq] at hplace
      simp only [innerEnqueue, hq] at h
      split at h
      · exact hplace _ _ _ _ _ _ h
      · obtain ⟨rfl, rfl⟩ := Prod.mk.inj (Option.some.inj h)
        exact Or.inr (Or.inr ⟨by simp, by simp [Enqueuing.left]⟩)
  | full x mode =>
      simp only [innerEnqueue, hq] at h
      split at h
      · obtain ⟨rfl, rfl⟩ := Prod.mk.inj (Option.some.inj h)
        exact Or.inr (Or.inr ⟨by simp, by simp [Enqueuing.left]⟩)
      · cases mode with
        | canAlloc =>
            obtain ⟨rfl, rfl⟩ := Prod.mk.inj (Option.some.inj h)
            exact Or.inr (Or.inr ⟨by simp, by simp [Enqueuing.left]⟩)
        | cannotAlloc =>
            obtain ⟨rfl, rfl⟩ := Prod.mk.inj (Option.some.inj h)
            exact Or.inl rfl
  | advance x =>
      rw [hq] at hplace
      simp only [innerEnqueue, hq] at h
      split at h
      · obtain ⟨rfl, rfl⟩ := Prod.mk.inj (Option.some.inj h)
        exact Or.inr (Or.inl rfl)
      · split at h
        · exact hplace _ _ _ _ _ _ h
        · obtain ⟨rfl, rfl⟩ := Prod.mk.inj (Option.some.inj h)
          exact Or.inr (Or.inl rfl)
  | allocate x =>
      rw [hq] at hplace
      simp only [innerEnqueue, hq] at h
      split at h
      · obtain ⟨rfl, rfl⟩ := Prod.mk.inj (Option.some.inj h)
        exact Or.inl rfl
      · split at h
        · exact hplace _ _ _ _ _ _ h
        · obtain ⟨rfl, rfl⟩ := Prod.mk.inj (Option.some.inj h)
          exact Or.inr (Or.inl rfl)

theorem stepDequeue_isSome (h : 0 < q.consumer.left) : q.stepDequeue.isSome = true := by
  cases hq : q.consumer with
  | idle => simp [hq, Dequeuing.left] at h
  | failed => simp [hq, Dequeuing.left] at h
  | start op => simp [stepDequeue, hq]
  | seen op tb =>
      simp only [stepDequeue, hq]
      split
      · cases op <;> rfl
      · split <;> rfl
  | leaving op =>
      simp only [stepDequeue, hq]
      split <;> rfl
  | entering op nb =>
      simp only [stepDequeue, hq]
      split
      · rfl
      · cases op <;> rfl
  | taking op b i =>
      simp only [stepDequeue, hq]
      split <;> rfl

theorem stepDequeue_left (h : q.stepDequeue = some (q', ev)) :
    ev.isDequeued = true ∨ q'.consumer = .failed ∨
      q'.consumer ≠ .idle ∧ q'.consumer.left < q.consumer.left := by
  cases hq : q.consumer with
  | idle => simp [stepDequeue, hq] at h
  | failed => simp [stepDequeue, hq] at h
  | start op =>
      simp only [stepDequeue, hq] at h
      obtain ⟨rfl, rfl⟩ := Prod.mk.inj (Option.some.inj h)
      exact Or.inr (Or.inr ⟨by simp, by simp [Dequeuing.left]⟩)
  | seen op tb =>
      simp only [stepDequeue, hq] at h
      split at h
      · cases op with
        | peek =>
            obtain ⟨rfl, rfl⟩ := Prod.mk.inj (Option.some.inj h)
            exact Or.inl rfl
        | tryDequeue =>
            obtain ⟨rfl, rfl⟩ := Prod.mk.inj (Option.some.inj h)
            exact Or.inr (Or.inr ⟨by simp, by simp [Dequeuing.left]⟩)
        | pop =>
            obtain ⟨rfl, rfl⟩ := Prod.mk.inj (Option.some.inj h)
            exact Or.inr (Or.inr ⟨by simp, by simp [Dequeuing.left]⟩)
      · split at h
        · obtain ⟨rfl, rfl⟩ := Prod.mk.inj (Option.some.inj h)
          exact Or.inr (Or.inr ⟨by simp, by simp [Dequeuing.left]⟩)
        · obtain ⟨rfl, rfl⟩ := Prod.mk.inj (Option.some.inj h)
          exact Or.inl rfl
  | leaving op =>
      simp only [stepDequeue, hq] at h
      split at h
      · obtain ⟨rfl, rfl⟩ := Prod.mk.inj (Option.some.inj h)
        exact Or.inr (Or.inl rfl)
      · obtain ⟨rfl, rfl⟩ := Prod.mk.inj (Option.some.inj h)
        exact Or.inr (Or.inr ⟨by simp, by simp [Dequeuing.left]⟩)
  | entering op nb =>
      simp only [stepDequeue, hq] at h
      split at h
      · obtain ⟨rfl, rfl⟩ := Prod.mk.inj (Option.some.inj h)
        exact Or.inr (Or.inl rfl)
      · cases op with
        | peek =>
            obtain ⟨rfl, rfl⟩ := Prod.mk.inj (Option.some.inj h)
            exact Or.inl rfl
        | tryDequeue =>
            obtain ⟨rfl, rfl⟩ := Prod.mk.inj (Option.some.inj h)
            exact Or.inr (Or.inr ⟨by simp, by simp [Dequeuing.left]⟩)
        | pop =>
            obtain ⟨rfl, rfl⟩ := Prod.mk.inj (Option.some.inj h)
            exact Or.inr (Or.inr ⟨by simp, by simp [Dequeuing.left]⟩)
  | taking op b i =>
      simp only [stepDequeue, hq] at h
      split at h
      · obtain ⟨rfl, rfl⟩ := Prod.mk.inj (Option.some.inj h)
        exact Or.inr (Or.inl rfl)
      · obtain ⟨rfl, rfl⟩ := Prod.mk.inj (Option.some.inj h)
        exact Or.inl rfl

end ReaderWriterQueue

section Calls

variable {maxSize : UInt64} {tr tr' : List (QueueEvent T)} {q q' : ReaderWriterQueue T}
  {ev : QueueEvent T} {act : QueueAct T}

theorem producer_left_pos (h : (ReaderWriterQueue.system maxSize).Run tr q)
    (hcall : q.producer ≠ .idle) : 0 < q.producer.left := by
  obtain ⟨e, H, P₀, P, C₀, C, -, -, hq, -, -⟩ := run_explained h
  have hok := hq.producer
  cases hpc : q.producer with
  | idle => exact absurd hpc hcall
  | failed => rw [hpc] at hok; exact hok.elim
  | start x mode => simp [Enqueuing.left]
  | full x mode => simp [Enqueuing.left]
  | advance x => simp [Enqueuing.left]
  | allocate x => simp [Enqueuing.left]

theorem consumer_left_pos (h : (ReaderWriterQueue.system maxSize).Run tr q)
    (hcall : q.consumer ≠ .idle) : 0 < q.consumer.left := by
  obtain ⟨e, H, P₀, P, C₀, C, -, -, hq, -, -⟩ := run_explained h
  have hok := hq.consumer
  cases hpc : q.consumer with
  | idle => exact absurd hpc hcall
  | failed => rw [hpc] at hok; exact hok.elim
  | start op => simp [Dequeuing.left]
  | seen op tb => simp [Dequeuing.left]
  | leaving op => simp [Dequeuing.left]
  | entering op nb => simp [Dequeuing.left]
  | taking op b i => simp [Dequeuing.left]

theorem producer_step (h : (ReaderWriterQueue.system maxSize).Run tr q)
    (hcall : q.producer ≠ .idle) (hstep : ReaderWriterQueue.next act q = some (q', ev)) :
    ev.isEnqueued = true ∨
      q'.producer ≠ .idle ∧ q'.producer.left + [act].countP QueueAct.isProducer ≤
        q.producer.left := by
  obtain ⟨e, H, P₀, P, C₀, C, -, -, hq, -, -⟩ := run_explained h
  cases act with
  | enqueue x mode =>
      simp [ReaderWriterQueue.next] at hstep
  | producer malloc =>
      rcases ReaderWriterQueue.innerEnqueue_left hstep with hret | hfailed | ⟨hidle, hlt⟩
      · exact Or.inl hret
      · have hleft := producer_left_pos (h.snoc ⟨_, hstep⟩) (by simp [hfailed])
        simp [hfailed, Enqueuing.left] at hleft
      · exact Or.inr ⟨hidle, hlt⟩
  | dequeue op =>
      simp only [ReaderWriterQueue.next] at hstep
      split at hstep
      · obtain ⟨rfl, rfl⟩ := Prod.mk.inj (Option.some.inj hstep)
        exact Or.inr ⟨hcall, le_rfl⟩
      · cases hstep
  | consumer =>
      obtain ⟨C', hspec⟩ := hq.layout.step_consumer hq.consumer hq.told hq.shown hstep
      rw [hspec.producer]
      exact Or.inr ⟨hcall, le_rfl⟩
  | drain thread =>
      obtain ⟨memory, -, heq⟩ := Option.map_eq_some_iff.mp hstep
      obtain ⟨rfl, rfl⟩ := Prod.mk.inj heq
      exact Or.inr ⟨hcall, le_rfl⟩

theorem consumer_step (h : (ReaderWriterQueue.system maxSize).Run tr q)
    (hcall : q.consumer ≠ .idle) (hstep : ReaderWriterQueue.next act q = some (q', ev)) :
    ev.isDequeued = true ∨
      q'.consumer ≠ .idle ∧ q'.consumer.left + [act].countP QueueAct.isConsumer ≤
        q.consumer.left := by
  obtain ⟨e, H, P₀, P, C₀, C, -, -, hq, -, -⟩ := run_explained h
  cases act with
  | enqueue x mode =>
      simp only [ReaderWriterQueue.next] at hstep
      split at hstep
      · obtain ⟨rfl, rfl⟩ := Prod.mk.inj (Option.some.inj hstep)
        exact Or.inr ⟨hcall, le_rfl⟩
      · cases hstep
  | producer malloc =>
      obtain ⟨H', P', hspec⟩ := hq.layout.step_producer (Nat.zero_le _) hq.producer hstep
      rw [hspec.consumer]
      exact Or.inr ⟨hcall, le_rfl⟩
  | dequeue op =>
      simp [ReaderWriterQueue.next] at hstep
  | consumer =>
      rcases ReaderWriterQueue.stepDequeue_left hstep with hret | hfailed | ⟨hidle, hlt⟩
      · exact Or.inl hret
      · have hleft := consumer_left_pos (h.snoc ⟨_, hstep⟩) (by simp [hfailed])
        simp [hfailed, Dequeuing.left] at hleft
      · exact Or.inr ⟨hidle, hlt⟩
  | drain thread =>
      obtain ⟨memory, -, heq⟩ := Option.map_eq_some_iff.mp hstep
      obtain ⟨rfl, rfl⟩ := Prod.mk.inj heq
      exact Or.inr ⟨hcall, le_rfl⟩

/-- `enqueue` and `try_enqueue` are never blocked, and return by the third of their own steps
at the latest. -/
theorem enqueue_returns (h : (ReaderWriterQueue.system maxSize).Run tr q)
    (hcall : q.producer ≠ .idle) :
    (∀ malloc, (ReaderWriterQueue.next (.producer malloc) q).isSome = true) ∧
      ∀ acts q' tr', System.exec ReaderWriterQueue.next acts q = some (q', tr') →
        3 ≤ acts.countP QueueAct.isProducer → tr'.any QueueEvent.isEnqueued = true := by
  refine ⟨fun malloc => ReaderWriterQueue.innerEnqueue_isSome (producer_left_pos h hcall),
    fun acts q' tr' hexec hsteps => ?_⟩
  have hleft : q.producer.left ≤ 3 := by cases q.producer <;> simp [Enqueuing.left]
  exact System.any_of_exec (P := fun q => q.producer ≠ .idle)
    (fun tr q hrun hq => producer_left_pos hrun hq)
    (fun tr q act q' ev hrun hq hstep => producer_step hrun hq hstep) h hcall hexec
    (hleft.trans hsteps)

/-- An element is enqueued, and the next call begins on either side. -/
def sampleInCalls : List (QueueAct ℕ) :=
  [.enqueue 7 .canAlloc, .producer true, .enqueue 8 .canAlloc, .dequeue .pop]

theorem enqueue_returns_sample :
    [QueueEvent.internal, .internal, .internal, .internal, .enqueued 8 .allocated].any
      QueueEvent.isEnqueued = true := by
  have hcall : (sampleQueue sampleInCalls).1.producer = .start 8 .canAlloc := rfl
  have hexec : System.exec ReaderWriterQueue.next
      [.drain .producer, .producer true, .consumer, .producer true, .producer true]
      (sampleQueue sampleInCalls).1 =
      some (_, [.internal, .internal, .internal, .internal, .enqueued 8 .allocated]) := rfl
  exact (enqueue_returns (run_sampleQueue sampleInCalls rfl) (by simp [hcall])).2 _ _ _ hexec
    (by decide)

/-- `try_dequeue`, `pop` and `peek` are never blocked, and return by the fifth of their own
steps at the latest. -/
theorem dequeue_returns (h : (ReaderWriterQueue.system maxSize).Run tr q)
    (hcall : q.consumer ≠ .idle) :
    (ReaderWriterQueue.next .consumer q).isSome = true ∧
      ∀ acts q' tr', System.exec ReaderWriterQueue.next acts q = some (q', tr') →
        5 ≤ acts.countP QueueAct.isConsumer → tr'.any QueueEvent.isDequeued = true := by
  refine ⟨ReaderWriterQueue.stepDequeue_isSome (consumer_left_pos h hcall),
    fun acts q' tr' hexec hsteps => ?_⟩
  have hleft : q.consumer.left ≤ 5 := by cases q.consumer <;> simp [Dequeuing.left]
  exact System.any_of_exec (P := fun q => q.consumer ≠ .idle)
    (fun tr q hrun hq => consumer_left_pos hrun hq)
    (fun tr q act q' ev hrun hq hstep => consumer_step hrun hq hstep) h hcall hexec
    (hleft.trans hsteps)

theorem dequeue_returns_sample :
    (ReaderWriterQueue.next .consumer (sampleQueue sampleInCalls).1).isSome = true := by
  have hcall : (sampleQueue sampleInCalls).1.consumer = .start .pop := rfl
  exact (dequeue_returns (run_sampleQueue sampleInCalls rfl) (by simp [hcall])).1

end Calls

end Qing
