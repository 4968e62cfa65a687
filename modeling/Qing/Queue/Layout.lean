import Qing.Lib.Circle
import Qing.Queue.Moves

/-!
# How the queue lies in memory

`Layout` ties a queue to its history: the memory is at a position of either thread, the
stores that wait lead each thread on to its own, and the blocks are linked in a circle
that begins with the ones in use. The consumer never gets ahead of what of the
producer has reached the memory, and the producer leaves alone what the consumer
has not freed there; so all positions between fit together (`Layout.fits`), and
what a thread reads is its own position and the other's as the memory has it
(`Layout.producer_view`, `Layout.consumer_view`).
-/

namespace Qing

variable {T : Type*}

/-! ## The two threads over one memory -/

def QueuePos : QueueThread → Type
  | .producer => Produced
  | .consumer => Consumed

def queuePos (P : Produced) (C : Consumed) : ∀ thread, QueuePos thread
  | .producer => P
  | .consumer => C

def queueMoves (H : QueueHistory T) (cap : ℕ → ℕ) :
    ∀ thread, System (QueuePos thread) (QueueStore T)
  | .producer => produceSystem H cap
  | .consumer => consumeSystem H cap

def MatchesAt (H : QueueHistory T) (cap : ℕ → ℕ) (m : QueueMemory T)
    (p : ∀ thread, QueuePos thread) : Prop :=
  Matches H cap m (p .producer) (p .consumer)

def FitsAt (H : QueueHistory T) (cap : ℕ → ℕ) (p : ∀ thread, QueuePos thread) : Prop :=
  Fits H cap (p .producer) (p .consumer)

theorem update_queuePos_producer (P : Produced) (P' : QueuePos .producer) (C : Consumed) :
    Function.update (queuePos P C) .producer P' = queuePos P' C := by
  funext thread
  cases thread <;> rfl

theorem update_queuePos_consumer (P : Produced) (C : Consumed) (C' : QueuePos .consumer) :
    Function.update (queuePos P C) .consumer C' = queuePos P C' := by
  funext thread
  cases thread <;> rfl

theorem queueMoves_sound (H : QueueHistory T) (cap : ℕ → ℕ) :
    Buffered.Sound QueueStore.apply (MatchesAt H cap) (queueMoves H cap) (FitsAt H cap) := by
  intro m p thread s q hm hstep hfit
  cases thread with
  | producer => exact Matches.produce hm hstep hfit
  | consumer => exact Matches.consume hm hstep hfit

/-! ## The layout -/

/-- The `size` of each block: the first has `2 ^ (e + 1)` slots, the next always twice as
many. -/
def blockCap (e b : ℕ) : ℕ := 2 ^ (e + 1 + b)

theorem two_le_blockCap (e b : ℕ) : 2 ≤ blockCap e b :=
  calc 2 = 2 ^ 1 := rfl
    _ ≤ 2 ^ (e + 1 + b) := Nat.pow_le_pow_right (by omega) (by omega)

/-- The queue `q` as the history `H` tells it: its memory is at `P₀` and `C₀`, and its
threads are at `P` and `C`. -/
structure Layout (e : ℕ) (q : ReaderWriterQueue T) (H : QueueHistory T) (P₀ P : Produced)
    (C₀ C : Consumed) : Prop where
  wf : H.Wf
  tracks : Buffered.Tracks (MatchesAt H (blockCap e)) (queueMoves H (blockCap e)) q.memory
    (queuePos P₀ C₀) (queuePos P C)
  produced : P₀.Wf H
  consumed : C₀.Wf H
  made_eq : P.made = H.length
  told_eq : P.told = H.length
  visit_eq : P.visit = H.last
  freed_eq : C.freed = C.gone
  /-- The consumer takes only what it has been told of. -/
  gone_le : C.gone ≤ P₀.told
  visit_le : C.visit ≤ P₀.visit
  /-- The producer fills only slots that it has seen freed, and one less of a block. -/
  room : ∀ b, H.count H.length b + 1 ≤ H.count C₀.freed b + blockCap e b
  /-- A block is left only when it is full. -/
  left_full : ∀ v < H.last, H.start v + blockCap e (H.block v) ≤ H.start (v + 1) + 1
  linked : ∀ v, C₀.visit ≤ v → v < P₀.visit → P₀.next (H.block v) = some (H.block (v + 1))
  circle : ∃ free, Circle P.next (H.window C₀.visit ++ free) ∧
    (H.window C₀.visit ++ free).Perm (List.range q.blocks)
  block_lt : ∀ v ≤ H.last, H.block v < q.blocks
  size : ∀ b < q.blocks, q.size b = blockCap e b
  largest : q.largestBlockSize * 2 = blockCap e q.blocks
  blocks_lt : e + q.blocks < 64

namespace Layout

variable {e : ℕ} {q : ReaderWriterQueue T} {H : QueueHistory T} {P₀ P R : Produced}
  {C₀ C S : Consumed} {stores stores' : List (QueueStore T)}

theorem producer_path (h : Layout e q H P₀ P C₀ C) :
    (produceSystem H (blockCap e)).Path P₀ (q.memory.buffer .producer) P :=
  h.tracks.path .producer

theorem consumer_path (h : Layout e q H P₀ P C₀ C) :
    (consumeSystem H (blockCap e)).Path C₀ (q.memory.buffer .consumer) C :=
  h.tracks.path .consumer

theorem produced_eq (h : Layout e q H P₀ P C₀ C) (hbuf : q.memory.buffer .producer = []) :
    P = P₀ := by
  have hpath := h.producer_path
  rw [hbuf] at hpath
  exact hpath.eq_of_nil

theorem consumed_eq (h : Layout e q H P₀ P C₀ C) (hbuf : q.memory.buffer .consumer = []) :
    C = C₀ := by
  have hpath := h.consumer_path
  rw [hbuf] at hpath
  exact hpath.eq_of_nil

theorem consumed_own (h : Layout e q H P₀ P C₀ C) : C.Wf H :=
  consume_path_wf h.wf h.consumer_path h.consumed

theorem gone_le_length (h : Layout e q H P₀ P C₀ C) : C.gone ≤ H.length :=
  h.gone_le.trans (h.produced.told_le.trans h.produced.made_le)

theorem freed_le_length (h : Layout e q H P₀ P C₀ C) : C₀.freed ≤ H.length :=
  h.consumed.freed_le.trans
    (h.consumed.gone_le.trans (h.wf.stop_le_length h.consumed.visit_le))

/-- Wherever the threads are between the memory's positions and their own, they fit. -/
theorem fits (h : Layout e q H P₀ P C₀ C) (hR : (produceSystem H (blockCap e)).Path P₀ stores R)
    (hR' : ∃ stores, (produceSystem H (blockCap e)).Path R stores P)
    (hS : (consumeSystem H (blockCap e)).Path C₀ stores' S)
    (hS' : ∃ stores, (consumeSystem H (blockCap e)).Path S stores C) :
    Fits H (blockCap e) R S := by
  obtain ⟨_, hR'⟩ := hR'
  obtain ⟨_, hS'⟩ := hS'
  have hmonoR := produce_path_mono hR
  have hmonoS := consume_path_mono hS
  have hmonoS' := consume_path_mono hS'
  have hwfR := produce_path_wf hR h.produced
  refine ⟨(consume_path_wf h.wf hS h.consumed).freed_le, ?_, hwfR.told_le, fun b => ?_⟩
  · have := h.gone_le
    omega
  · have hmade := QueueHistory.count_mono (H := H) hwfR.made_le b
    have hfreed := QueueHistory.count_mono (H := H) hmonoS.2.1 b
    have hroom := h.room b
    omega

/-- What the producer reads. -/
theorem producer_view (h : Layout e q H P₀ P C₀ C) :
    Matches H (blockCap e) (q.view .producer) P C₀ :=
  h.tracks.view QueueStore.apply (queueMoves_sound H _) (i := QueueThread.producer)
    fun _ ss' _ hR hR' => h.fits hR ⟨ss', hR'⟩ (System.Path.refl C₀) ⟨_, h.consumer_path⟩

/-- What the consumer reads. -/
theorem consumer_view (h : Layout e q H P₀ P C₀ C) :
    Matches H (blockCap e) (q.view .consumer) P₀ C :=
  h.tracks.view QueueStore.apply (queueMoves_sound H _) (i := QueueThread.consumer)
    fun _ ss' _ hS hS' => h.fits (System.Path.refl P₀) ⟨_, h.producer_path⟩ hS ⟨ss', hS'⟩

theorem nodup_window (h : Layout e q H P₀ P C₀ C) : (H.window C₀.visit).Nodup := by
  obtain ⟨free, hcircle, -⟩ := h.circle
  exact hcircle.nodup.of_append_left

theorem visit_le_last (h : Layout e q H P₀ P C₀ C) : C₀.visit ≤ C.visit ∧ C.visit ≤ H.last :=
  ⟨(consume_path_mono h.consumer_path).2.2, h.consumed_own.visit_le⟩

theorem block_inj (h : Layout e q H P₀ P C₀ C) {v w : ℕ} (hv : C₀.visit ≤ v ∧ v ≤ H.last)
    (hw : C₀.visit ≤ w ∧ w ≤ H.last) (heq : H.block v = H.block w) : v = w :=
  QueueHistory.block_inj h.nodup_window hv hw heq

theorem circle_from (h : Layout e q H P₀ P C₀ C) {v : ℕ} (hv : C₀.visit ≤ v) (hlast : v ≤ H.last) :
    ∃ free, Circle P.next (H.window v ++ free) ∧
      (H.window v ++ free).Perm (List.range q.blocks) := by
  induction v, hv using Nat.le_induction with
  | base => exact h.circle
  | succ v hv ih =>
      obtain ⟨free, hcircle, hperm⟩ := ih (by omega)
      rw [QueueHistory.window_cons hlast, List.cons_append] at hcircle hperm
      refine ⟨free ++ [H.block v], ?_, ?_⟩
      · rw [← List.append_assoc]
        exact hcircle.rotate
      · rw [← List.append_assoc]
        exact (List.perm_append_singleton _ _).trans hperm

/-! ### Drains -/

theorem linked_step (h : Layout e q H P₀ P C₀ C) {s : QueueStore T}
    (hstep : ProduceStep H (blockCap e) P₀ s R) {v : ℕ} (hv : C₀.visit ≤ v)
    (hlt : v < R.visit) : R.next (H.block v) = some (H.block (v + 1)) := by
  have hvisit := h.produced.visit_le
  cases hstep with
  | initFront _ => exact h.linked v hv hlt
  | initTail _ => exact h.linked v hv hlt
  | construct _ _ => exact h.linked v hv hlt
  | tail _ _ => exact h.linked v hv hlt
  | @link block target hlast hblock =>
      have hlt' : v < P₀.visit := hlt
      have hne : H.block v ≠ block := by
        rcases hblock with rfl | rfl
        · intro heq
          have := h.block_inj ⟨hv, by omega⟩ ⟨by omega, hvisit⟩ heq
          omega
        · intro heq
          have := h.block_inj ⟨hv, by omega⟩ ⟨by omega, hlast⟩ heq
          omega
      simp only [Function.update_of_ne hne]
      exact h.linked v hv hlt'
  | enter _ _ hnext =>
      rcases Nat.lt_succ_iff_lt_or_eq.mp hlt with hlt' | rfl
      · exact h.linked v hv hlt'
      · exact hnext

theorem drain_producer (h : Layout e q H P₀ P C₀ C)
    {memory : Buffered QueueThread (QueueMemory T) (QueueStore T)}
    (hdrain : q.memory.drain QueueStore.apply .producer = some memory) :
    ∃ P₁, Layout e { q with memory } H P₁ P C₀ C ∧
      Buffered.Drained (produceSystem H (blockCap e)) 1 (q.memory.buffer .producer)
        (memory.buffer .producer) P₀ P₁ := by
  have hfits : ∀ s rest R, ProduceStep H (blockCap e) P₀ s R →
      (produceSystem H (blockCap e)).Path R rest P → Fits H (blockCap e) R C₀ :=
    fun s rest R hstep hrest => h.fits (System.Path.single hstep) ⟨rest, hrest⟩
      (System.Path.refl C₀) ⟨_, h.consumer_path⟩
  obtain ⟨s, R, hbuf, hstep, htracks⟩ := h.tracks.drain QueueStore.apply (queueMoves_sound H _)
    hdrain hfits
  have hstep' : ProduceStep H (blockCap e) P₀ s R := hstep
  have hmono := ProduceStep.mono hstep'
  rw [update_queuePos_producer] at htracks
  refine ⟨R, { h with
    tracks := htracks
    produced := ProduceStep.wf hstep' h.produced
    gone_le := h.gone_le.trans hmono.2.1
    visit_le := h.visit_le.trans hmono.2.2
    linked := fun v hv hlt => h.linked_step hstep' hv hlt },
    [s], [], System.Path.single hstep', rfl, ?_⟩
  rw [List.append_nil, hbuf, List.singleton_append]

theorem drain_consumer (h : Layout e q H P₀ P C₀ C)
    {memory : Buffered QueueThread (QueueMemory T) (QueueStore T)}
    (hdrain : q.memory.drain QueueStore.apply .consumer = some memory) :
    ∃ C₁, Layout e { q with memory } H P₀ P C₁ C ∧
      Buffered.Drained (consumeSystem H (blockCap e)) 1 (q.memory.buffer .consumer)
        (memory.buffer .consumer) C₀ C₁ := by
  have hfits : ∀ s rest S, ConsumeStep H (blockCap e) C₀ s S →
      (consumeSystem H (blockCap e)).Path S rest C → Fits H (blockCap e) P₀ S :=
    fun s rest S hstep hrest => h.fits (System.Path.refl P₀) ⟨_, h.producer_path⟩
      (System.Path.single hstep) ⟨rest, hrest⟩
  obtain ⟨s, S, hbuf, hstep, htracks⟩ := h.tracks.drain QueueStore.apply (queueMoves_sound H _)
    hdrain hfits
  have hstep' : ConsumeStep H (blockCap e) C₀ s S := hstep
  have hmono := ConsumeStep.mono hstep'
  rw [update_queuePos_consumer] at htracks
  have hwf := ConsumeStep.wf h.wf hstep' h.consumed
  refine ⟨S, { h with
    tracks := htracks
    consumed := hwf
    room := fun b => (h.room b).trans
      (Nat.add_le_add_right (QueueHistory.count_mono hmono.2.1 b) _)
    linked := fun v hv hlt => h.linked v (hmono.2.2.trans hv) hlt
    circle := h.circle_from hmono.2.2 hwf.visit_le },
    [s], [], System.Path.single hstep', rfl, ?_⟩
  rw [List.append_nil, hbuf, List.singleton_append]

end Layout

end Qing
