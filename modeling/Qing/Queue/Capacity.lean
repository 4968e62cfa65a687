import Qing.Queue.SizeApprox

/-!
# How large the queue grows

Blocks are never removed, so how many there are shows how full the queue has been, as the
producer reads it: logarithmically many in the number of elements (`blocks_log`).
-/

namespace Qing

variable {T : Type*} {maxSize : UInt64} {tr : List (QueueEvent T)} {q : ReaderWriterQueue T}

/-- The steps after which `size_approx` tells the producer of at most `n` elements. -/
def HoldsAtMost (n : ℕ) (_ : ReaderWriterQueue T) (_ : QueueEvent T) (q : ReaderWriterQueue T) :
    Prop :=
  ∃ k ≤ n, q.sizeApprox .producer = some k

/-- What the producer has seen when at most `n` elements are held. -/
def SeenAtMost (n freed length : ℕ) : Prop := length ≤ freed + n

theorem SeenAtMost.le_of_held {n k : ℕ} {H : QueueHistory T}
    (h : Enqueuing.Held (SeenAtMost n) H k) : k ≤ n := by
  obtain ⟨freed, hseen, hle⟩ := h
  rw [SeenAtMost] at hseen
  omega

/-- A queue with a history, holding at most `n` elements and with as few blocks as that
allows. -/
structure Sparing (e n : ℕ) (maxSize : UInt64) (q : ReaderWriterQueue T) (H : QueueHistory T)
    (P₀ P : Produced) (C₀ C : Consumed) : Prop where
  explained : Explained e (SeenAtMost n) 0 q H P₀ P C₀ C
  seen : SeenAtMost n C₀.freed H.length
  log : 2 ^ (e + 1) * (2 ^ (q.blocks - 2) - 1) ≤ n + (q.blocks - 2)
  first : n < maxSize.toNat → q.blocks = 1

theorem Sparing.step {e n : ℕ} {q q' : ReaderWriterQueue T} {ev : QueueEvent T}
    {H : QueueHistory T} {P₀ P : Produced} {C₀ C : Consumed}
    (hmax : maxSize.toNat + 1 ≤ 2 ^ (e + 1)) (h : Sparing e n maxSize q H P₀ P C₀ C)
    (hstep : ((ReaderWriterQueue.system maxSize).restrict (HoldsAtMost n)).step q ev q') :
    ∃ H' P₁ P' C₁ C', Sparing e n maxSize q' H' P₁ P' C₁ C' := by
  obtain ⟨⟨act, hact⟩, k, hk, hsize⟩ := hstep
  obtain ⟨H', P₁, P', C₁, C', hnext⟩ := h.explained.step h.seen hact
  have hlayout := hnext.explained.layout
  have hseen : SeenAtMost n C₁.freed H'.length := by
    have hlen := hlayout.sizeApprox_producer.symm.trans hsize
    have hle := hlayout.freed_le_length
    have := Option.some.inj hlen
    rw [SeenAtMost]
    omega
  by_cases hev : ∃ x, ev = .enqueued x .allocated
  · obtain ⟨x, rfl⟩ := hev
    obtain ⟨hblocks, hheld⟩ := hnext.event.allocated x rfl
    have hlog := SeenAtMost.le_of_held hheld
    have hfirst := SeenAtMost.le_of_held (hnext.event.needed x (Or.inl rfl))
    exact ⟨H', P₁, P', C₁, C',
      { explained := hnext.explained, seen := hseen
        log := by
          rw [hblocks, show q.blocks + 1 - 2 = q.blocks - 1 by omega]
          omega
        first := fun hlt => by omega }⟩
  · push Not at hev
    have hblocks := hnext.event.kept hev
    exact ⟨H', P₁, P', C₁, C',
      { explained := hnext.explained, seen := hseen
        log := by rw [hblocks]; exact h.log
        first := by rw [hblocks]; exact h.first }⟩

/-- A queue that never holds more than `n` elements has logarithmically many blocks, and
only its first if `n` is less than the `maxSize` it was made for. -/
theorem blocks_log {n : ℕ}
    (h : ((ReaderWriterQueue.system maxSize).restrict (HoldsAtMost n)).Run tr q) :
    (ceilToPow2 (maxSize + 1)).toNat * (2 ^ (q.blocks - 2) - 1) ≤ n + (q.blocks - 2) ∧
      (n < maxSize.toNat → q.blocks = 1) := by
  obtain ⟨q₀, ⟨hpos, hlt, rfl⟩, hpath⟩ := h
  obtain ⟨e, hsize, hmax⟩ := exists_firstSize hpos hlt
  have hinit : Sparing e n maxSize (ReaderWriterQueue.construct maxSize : ReaderWriterQueue T)
      .empty _ _ _ _ :=
    { explained :=
        { layout := layout_construct hsize, producer := trivial, consumer := trivial
          told := Nat.zero_le _, shown := Nat.zero_le _ }
      seen := Nat.zero_le _
      log := by simp [ReaderWriterQueue.construct]
      first := fun _ => rfl }
  obtain ⟨H, P₀, P, C₀, C, hq⟩ : ∃ H P₀ P C₀ C, Sparing e n maxSize q H P₀ P C₀ C := by
    refine hpath.preserve (I := fun q => ∃ H P₀ P C₀ C, Sparing e n maxSize q H P₀ P C₀ C) ?_
      ⟨_, _, _, _, _, hinit⟩
    rintro s ev s' ⟨H, P₀, P, C₀, C, hs⟩ hst
    exact hs.step hmax hst
  rw [hsize]
  exact ⟨hq.log, hq.first⟩

/-- A queue for two elements, in a call of `enqueue`. -/
def sampleCalled : ReaderWriterQueue ℕ :=
  { ReaderWriterQueue.construct 2 with producer := .start 7 .canAlloc }

theorem blocks_log_sample :
    ∃ q : ReaderWriterQueue ℕ,
      ((ReaderWriterQueue.system 2).restrict (HoldsAtMost 1)).Run
        [.internal, .enqueued 7 .stored] q ∧ q.blocks = 1 := by
  have hcall : ReaderWriterQueue.next (.enqueue 7 .canAlloc) (.construct 2) =
      some (sampleCalled, .internal) := rfl
  have hstore : ReaderWriterQueue.next (.producer true) sampleCalled =
      some (_, .enqueued 7 .stored) := rfl
  have hinit : ((ReaderWriterQueue.system (T := ℕ) 2).restrict (HoldsAtMost 1)).Run []
      (ReaderWriterQueue.construct 2) := ⟨_, ⟨by decide, by decide, rfl⟩, .refl _⟩
  have hrun := (hinit.snoc ⟨⟨_, hcall⟩, 0, Nat.zero_le 1, rfl⟩).snoc ⟨⟨_, hstore⟩, 1, le_rfl, rfl⟩
  exact ⟨_, hrun, (blocks_log hrun).2 (by decide)⟩

end Qing
