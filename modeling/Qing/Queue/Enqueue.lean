import Qing.Queue.Placing

/-!
# What the producer does

Every step of `inner_enqueue` keeps the layout, and the history grows by what the step
enqueues (`Layout.step_producer`). A block is made, or refused, only when the elements that
the memory does not show to be freed fill the blocks there are.
-/

namespace Qing

variable {T : Type*}

/-- When the producer last looked, the elements freed and enqueued were as `Seen` says, and
they left `k` elements in the queue. -/
def Enqueuing.Held (Seen : ℕ → ℕ → Prop) (H : QueueHistory T) (k : ℕ) : Prop :=
  ∃ freed, Seen freed H.length ∧ freed + k ≤ H.length

/-- What is so where the producer is; the queue has `n` blocks. -/
def Enqueuing.Ok (e : ℕ) (Seen : ℕ → ℕ → Prop) (n : ℕ) (H : QueueHistory T) (P : Produced)
    (C₀ : Consumed) : Enqueuing T → Prop
  | .idle | .start _ _ => True
  | .full _ _ => H.start H.last + blockCap e (H.block H.last) ≤ H.length + 1 ∧
      Held Seen H (2 ^ (e + 1) - 1)
  | .advance _ => H.start H.last + blockCap e (H.block H.last) ≤ H.length + 1 ∧
      ∀ v, C₀.visit ≤ v → v ≤ H.last → P.next (H.block H.last) ≠ some (H.block v)
  | .allocate _ => H.start H.last + blockCap e (H.block H.last) ≤ H.length + 1 ∧
      Held Seen H (2 ^ (e + 1) - 1) ∧
      Held Seen H (2 ^ (e + 1) * (2 ^ (n - 1) - 1) - (n - 1))
  | .failed => False

theorem Enqueuing.Ok.mono {e n : ℕ} {Seen : ℕ → ℕ → Prop} {H : QueueHistory T} {P : Produced}
    {C₀ C₁ : Consumed} (hC : C₀.visit ≤ C₁.visit) :
    ∀ {pc : Enqueuing T}, pc.Ok e Seen n H P C₀ → pc.Ok e Seen n H P C₁
  | .idle, _ | .start _ _, _ => trivial
  | .full _ _, h => h
  | .advance _, h => ⟨h.1, fun v hv => h.2 v (hC.trans hv)⟩
  | .allocate _, h => h

/-- The elements that an event put into the queue. -/
def QueueEvent.added : QueueEvent T → List T
  | enqueued x result => if result.ret then [x] else []
  | _ => []

/-- The elements that an event took out of the queue. -/
def QueueEvent.taken : QueueEvent T → List T
  | removed _ x => [x]
  | _ => []

/-! ## The steps -/

theorem ReaderWriterQueue.place_of_raw {q : ReaderWriterQueue T} {block i : ℕ}
    (h : (q.view .producer).data block i = none) (x : T) (stores : List (QueueStore T))
    (result : EnqueueResult) :
    q.place block i x stores result =
      ({ q.store .producer (.data block i (some x) :: stores) with producer := .idle },
        .enqueued x result) := by
  simp [place, h]

/-- The assertion about a new block: the producer sees what the constructor has stored. -/
theorem ReaderWriterQueue.front_makeBlock {q q' : ReaderWriterQueue T} {capacity : ℕ}
    {malloc : Bool} (h : q.makeBlock capacity malloc = some q') :
    (q'.view .producer).front q.blocks = 0 := by
  rw [makeBlock] at h
  split_ifs at h
  obtain rfl := Option.some.inj h
  change ((q.memory.push .producer _).view QueueStore.apply .producer).front q.blocks = 0
  rw [Buffered.view_push]
  exact Function.update_self ..

/-- What a step of the producer comes to. -/
structure EnqueueStep (e : ℕ) (Seen : ℕ → ℕ → Prop) (q q' : ReaderWriterQueue T)
    (ev : QueueEvent T) (H H' : QueueHistory T) (P₀ P' : Produced) (C₀ C : Consumed) :
    Prop where
  layout : Layout e q' H' P₀ P' C₀ C
  ok : q'.producer.Ok e Seen q'.blocks H' P' C₀
  grows : H.Extends H'
  consumer : q'.consumer = q.consumer
  values : H'.values = H.values ++ ev.added
  taken : ev.taken = []
  event : (∀ op, ev ≠ .empty op) ∧ ∀ b i, ev ≠ .peeked b i
  /-- No block is made, or wished for, while there is room. -/
  needed : ∀ x, ev = .enqueued x .allocated ∨ ev = .enqueued x .noRoom →
    Enqueuing.Held Seen H (2 ^ (e + 1) - 1)
  allocated : ∀ x, ev = .enqueued x .allocated → q'.blocks = q.blocks + 1 ∧
    Enqueuing.Held Seen H (2 ^ (e + 1) * (2 ^ (q.blocks - 1) - 1) - (q.blocks - 1))
  kept : (∀ x, ev ≠ .enqueued x .allocated) → q'.blocks = q.blocks

namespace Layout

variable {e : ℕ} {Seen : ℕ → ℕ → Prop} {q q' : ReaderWriterQueue T} {H : QueueHistory T}
  {P₀ P : Produced} {C₀ C : Consumed} {ev : QueueEvent T} {x : T} {mode : AllocationMode}
  {malloc : Bool}

theorem move_producer (h : Layout e q H P₀ P C₀ C) {pc : Enqueuing T}
    (hok : pc.Ok e Seen q.blocks H P C₀) :
    EnqueueStep e Seen q { q with producer := pc } .internal H H P₀ P C₀ C where
  layout := { h with }
  ok := hok
  grows := .refl H
  consumer := rfl
  values := (List.append_nil _).symm
  taken := rfl
  event := by simp
  needed := by simp
  allocated := by simp
  kept _ := rfl

theorem refuse (h : Layout e q H P₀ P C₀ C) {result : EnqueueResult}
    (hret : result.ret = false) (hneeded : Enqueuing.Held Seen H (2 ^ (e + 1) - 1)) :
    EnqueueStep e Seen q { q with producer := .idle } (.enqueued x result) H H P₀ P C₀ C where
  layout := { h with }
  ok := trivial
  grows := .refl H
  consumer := rfl
  values := by simp [QueueEvent.added, hret]
  taken := rfl
  event := by simp
  needed _ _ := hneeded
  allocated y hy := by
    obtain ⟨-, rfl⟩ := QueueEvent.enqueued.inj hy
    cases hret
  kept _ := rfl

theorem step_start (h : Layout e q H P₀ P C₀ C) (hseen : Seen C₀.freed H.length)
    (hpc : q.producer = .start x mode) (hstep : q.innerEnqueue malloc = some (q', ev)) :
    ∃ H' P', EnqueueStep e Seen q q' ev H H' P₀ P' C₀ C := by
  simp only [ReaderWriterQueue.innerEnqueue, hpc, h.tailBlock_eq] at hstep
  split at hstep
  · rename_i hafter
    have hroom := h.start_room.mp hafter
    rw [h.tail_eq, h.after_eq (h.block_lt _ le_rfl),
      ReaderWriterQueue.place_of_raw (h.raw_of_room (h.room _))] at hstep
    obtain ⟨rfl, rfl⟩ := Prod.mk.inj (Option.some.inj hstep)
    exact ⟨H.add x, _,
      { layout := h.store_tail x hroom rfl rfl rfl rfl, ok := trivial, grows := H.extends_add x
        consumer := rfl, values := rfl, taken := rfl, event := by simp, needed := by simp
        allocated := by simp, kept := fun _ => rfl }⟩
  · rename_i hafter
    obtain ⟨rfl, rfl⟩ := Prod.mk.inj (Option.some.inj hstep)
    have hfull := h.full_of_no_room fun hroom => hafter (h.start_room.mpr hroom)
    have hfreed := h.freed_le_length
    have hpos : 0 < 2 ^ (e + 1) := Nat.two_pow_pos _
    have hcap : 2 ^ (e + 1) ≤ blockCap e (H.block H.last) :=
      Nat.pow_le_pow_right (by omega) (Nat.le_add_right _ _)
    exact ⟨H, P, h.move_producer ⟨hfull.1, C₀.freed, hseen, by omega⟩⟩

theorem step_full (h : Layout e q H P₀ P C₀ C) (hseen : Seen C₀.freed H.length)
    (hpc : q.producer = .full x mode) (hok : q.producer.Ok e Seen q.blocks H P C₀)
    (hstep : q.innerEnqueue malloc = some (q', ev)) :
    ∃ H' P', EnqueueStep e Seen q q' ev H H' P₀ P' C₀ C := by
  simp only [ReaderWriterQueue.innerEnqueue, hpc, h.tailBlock_eq] at hstep
  rw [hpc] at hok
  split at hstep
  · rename_i hnext
    obtain ⟨rfl, rfl⟩ := Prod.mk.inj (Option.some.inj hstep)
    rw [h.producer_view.next, h.producer_view.frontBlock] at hnext
    obtain ⟨b, hb, hfree⟩ := h.next_free hnext
    refine ⟨H, P, h.move_producer ⟨hok.1, fun v hv hvl hv' => ?_⟩⟩
    obtain rfl := Option.some.inj (hb.symm.trans hv')
    exact hfree (QueueHistory.mem_window.mpr ⟨v, hv, hvl, rfl⟩)
  · rename_i hnext
    cases mode with
    | canAlloc =>
        obtain ⟨rfl, rfl⟩ := Prod.mk.inj (Option.some.inj hstep)
        rw [not_not, h.producer_view.next, h.producer_view.frontBlock] at hnext
        have hall := h.all_full hok.1 hnext
        have hfreed := h.freed_le_length
        exact ⟨H, P, h.move_producer ⟨hok.1, hok.2, C₀.freed, hseen, by omega⟩⟩
    | cannotAlloc =>
        obtain ⟨rfl, rfl⟩ := Prod.mk.inj (Option.some.inj hstep)
        exact ⟨H, P, h.refuse rfl hok.2⟩

theorem step_advance (h : Layout e q H P₀ P C₀ C)
    (hpc : q.producer = .advance x) (hok : q.producer.Ok e Seen q.blocks H P C₀)
    (hstep : q.innerEnqueue malloc = some (q', ev)) :
    ∃ H' P', EnqueueStep e Seen q q' ev H H' P₀ P' C₀ C := by
  rw [hpc] at hok
  have hle := h.visit_le_last
  obtain ⟨b, hnext, hfree⟩ := h.next_free (hok.2 _ le_rfl (hle.1.trans hle.2))
  have hempty := h.count_eq_of_free hfree
  have hb : b < q.blocks := by
    obtain ⟨free, hcircle, hperm⟩ := h.circle
    obtain ⟨free, rfl⟩ := h.free_eq_cons hcircle hnext hfree
    exact List.mem_range.mp (hperm.mem_iff.mp (by simp))
  -- The assertion: the front and the tail of a free block are the same.
  have hassert : (q.view .producer).front b = (q.view .producer).tail b := by
    rw [h.producer_view.front, h.tail_eq, hempty]
  simp only [ReaderWriterQueue.innerEnqueue, hpc, h.tailBlock_eq, h.producer_view.next, hnext,
    hassert, if_true, h.tail_eq, h.after_eq hb] at hstep
  rw [ReaderWriterQueue.place_of_raw (h.raw_of_room (h.room _))] at hstep
  obtain ⟨rfl, rfl⟩ := Prod.mk.inj (Option.some.inj hstep)
  exact ⟨H.addTo x b, _,
    { layout := h.store_next x hok.1 hnext hfree rfl rfl rfl rfl, ok := trivial
      grows := H.extends_addTo x b, consumer := rfl, values := rfl, taken := rfl
      event := by simp, needed := by simp, allocated := by simp, kept := fun _ => rfl }⟩

theorem step_allocate (h : Layout e q H P₀ P C₀ C)
    (hpc : q.producer = .allocate x) (hok : q.producer.Ok e Seen q.blocks H P C₀)
    (hstep : q.innerEnqueue malloc = some (q', ev)) :
    ∃ H' P', EnqueueStep e Seen q q' ev H H' P₀ P' C₀ C := by
  rw [hpc] at hok
  simp only [ReaderWriterQueue.innerEnqueue, hpc, h.tailBlock_eq, h.producer_view.next,
    h.largest] at hstep
  split at hstep
  · obtain ⟨rfl, rfl⟩ := Prod.mk.inj (Option.some.inj hstep)
    exact ⟨H, P, h.refuse rfl hok.2.1⟩
  · rename_i q₁ hq₁
    rw [if_pos (ReaderWriterQueue.front_makeBlock hq₁)] at hstep
    rw [ReaderWriterQueue.makeBlock] at hq₁
    split at hq₁
    · rename_i hgranted
      have hlt : blockCap e q.blocks < 2 ^ 64 := by
        simp only [Bool.and_eq_true, decide_eq_true_eq] at hgranted
        exact hgranted.2
      obtain rfl := Option.some.inj hq₁
      have hraw := h.raw_of_room (h.room q.blocks)
      rw [h.count_new, Nat.zero_mod] at hraw
      rw [ReaderWriterQueue.place_of_raw] at hstep
      · obtain ⟨rfl, rfl⟩ := Prod.mk.inj (Option.some.inj hstep)
        exact ⟨H.addTo x q.blocks, _,
          { layout := h.store_new x hok.1 (Buffered.push_push _ _ _ _) rfl rfl rfl hlt
            ok := trivial, grows := H.extends_addTo x q.blocks
            consumer := rfl, values := rfl, taken := rfl, event := by simp
            needed := fun _ _ => hok.2.1
            allocated := fun _ _ => ⟨rfl, hok.2.2⟩, kept := fun hne => absurd rfl (hne x) }⟩
      · change ((q.memory.push QueueThread.producer _).view QueueStore.apply
          QueueThread.producer).data q.blocks 0 = none
        rw [Buffered.view_push]
        exact hraw
    · cases hq₁

/-- Every step of the producer keeps the layout and the history's account of it. -/
theorem step_producer (h : Layout e q H P₀ P C₀ C) (hseen : Seen C₀.freed H.length)
    (hok : q.producer.Ok e Seen q.blocks H P C₀) (hstep : q.innerEnqueue malloc = some (q', ev)) :
    ∃ H' P', EnqueueStep e Seen q q' ev H H' P₀ P' C₀ C := by
  cases hpc : q.producer with
  | idle => simp [ReaderWriterQueue.innerEnqueue, hpc] at hstep
  | start x mode => exact h.step_start hseen hpc hstep
  | full x mode => exact h.step_full hseen hpc hok hstep
  | advance x => exact h.step_advance hpc hok hstep
  | allocate x => exact h.step_allocate hpc hok hstep
  | failed => simp [ReaderWriterQueue.innerEnqueue, hpc] at hstep

end Layout

end Qing
