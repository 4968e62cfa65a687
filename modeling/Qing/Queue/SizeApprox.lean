import Qing.Queue.AtRest

/-!
# Reading the size

A thread in `size_approx` loads front, tail and next of one block after the other, while
the other thread goes on. Whoever reads, the tails stand still during the call, and the fronts
only go forward: so what has been added up lies between what the blocks hold now and what they
held when the call began (`Sizing.Ok`), from load to load (`Reading.load`) and whatever
happens in between (`Reading.step`). So does what the call returns (`sizeApprox_run`), and with
all standing still that is `sizeApprox` (`exec_sizeApprox`).
-/

namespace Qing

variable {T : Type*}

/-- The consumer as a thread sees it: as the memory has it, or as it is. -/
def seenConsumer (C₀ C : Consumed) : QueueThread → Consumed
  | .producer => C₀
  | .consumer => C

/-- A queue of which a thread reads the size. What the producer does is not seen by the consumer,
so it must have no store waiting when the consumer reads. -/
structure Reading (e : ℕ) (thread : QueueThread) (q : ReaderWriterQueue T) (H : QueueHistory T)
    (P₀ P : Produced) (C₀ C : Consumed) : Prop where
  explained : Explained e (fun freed _ => 0 ≤ freed) 0 q H P₀ P C₀ C
  still : thread = .consumer → q.memory.buffer .producer = []

/-- The circle from the first block on, of which the walk has come by `done`. -/
structure Around (next : ℕ → Option ℕ) (blocks first : ℕ) (done rest : List ℕ) : Prop where
  circle : Circle next (done ++ rest)
  perm : (done ++ rest).Perm (List.range blocks)
  head : (done ++ rest).head? = some first

namespace Around

variable {linked : ℕ → Option ℕ} {blocks first b c : ℕ} {done rest : List ℕ}

theorem shift (h : Around linked blocks first done (b :: rest)) :
    Around linked blocks first (done ++ [b]) rest := by
  obtain ⟨hcircle, hperm, hhead⟩ := h
  rw [List.append_cons] at hcircle hperm hhead
  exact ⟨hcircle, hperm, hhead⟩

theorem lt (h : Around linked blocks first done (b :: rest)) : b < blocks :=
  List.mem_range.mp (h.perm.mem_iff.mp (List.mem_append_right done List.mem_cons_self))

theorem length_eq (h : Around linked blocks first done rest) :
    done.length + rest.length = blocks := by
  rw [← List.length_append, h.perm.length_eq, List.length_range]

theorem next_last (h : Around linked blocks first done [b]) : linked b = some first := by
  rw [h.circle.next_eq done b [] rfl]
  exact h.head

theorem next_cons (h : Around linked blocks first done (b :: c :: rest)) :
    linked b = some c ∧ c ≠ first := by
  refine ⟨h.circle.next_append, ?_⟩
  rintro rfl
  have hnodup := h.shift.circle.nodup
  have hmem : c ∈ done ++ [b] := by
    have hhead := h.shift.head
    rw [List.head?_append_of_ne_nil _ (by simp)] at hhead
    exact List.mem_of_mem_head? hhead
  exact List.disjoint_of_nodup_append hnodup hmem List.mem_cons_self

theorem sum_held (h : Around linked blocks first done rest) {H : QueueHistory T} {j : ℕ}
    (hj : j ≤ H.length) (hplace : ∀ i < H.length, H.place i < blocks) :
    ((done ++ rest).map fun b => H.count H.length b - H.count j b).sum = H.length - j := by
  rw [(h.perm.map _).sum_eq, list_sum_range, QueueHistory.sum_count_sub hj hplace]

end Around

/-- The sum is at least what these blocks hold from `hi` on, and at most what they hold from
`lo` on. -/
def Within (H : QueueHistory T) (lo hi : ℕ) (blocks : List ℕ) (sum : ℕ) : Prop :=
  (blocks.map fun b => H.count H.length b - H.count hi b).sum ≤ sum ∧
    sum ≤ (blocks.map fun b => H.count H.length b - H.count lo b).sum

/-- What `size_approx` has come to after `k` loads, when so many blocks are linked by `next`, and
the consumer was at `lo` when the call began and is at `hi`. -/
def Sizing.Ok (cap : ℕ → ℕ) (H : QueueHistory T) (linked : ℕ → Option ℕ) (blocks lo hi k : ℕ) :
    Sizing → Prop
  | start => k = 0
  | front first block result => ∃ done rest, Around linked blocks first done (block :: rest) ∧
      k = 3 * done.length + 1 ∧ Within H lo hi done result
  | tail first block result blockFront => ∃ done rest,
      Around linked blocks first done (block :: rest) ∧ k = 3 * done.length + 2 ∧
      Within H lo hi done result ∧
      ∃ f, lo ≤ f ∧ f ≤ hi ∧ blockFront = H.count f block % cap block
  | next first block result => ∃ done rest, Around linked blocks first done (block :: rest) ∧
      k = 3 * done.length + 3 ∧ Within H lo hi (done ++ [block]) result
  | returned result => H.length - hi ≤ result ∧ result ≤ H.length - lo
  | failed => False

theorem Within.mono {H : QueueHistory T} {lo hi hi' sum : ℕ} {blocks : List ℕ}
    (h : Within H lo hi blocks sum) (hle : hi ≤ hi') : Within H lo hi' blocks sum :=
  ⟨(List.sum_le_sum fun b _ => Nat.sub_le_sub_left (QueueHistory.count_mono hle b) _).trans h.1,
    h.2⟩

theorem Sizing.Ok.mono {cap : ℕ → ℕ} {H : QueueHistory T} {linked : ℕ → Option ℕ}
    {blocks lo hi hi' k : ℕ} (hle : hi ≤ hi') :
    ∀ {pc : Sizing}, pc.Ok cap H linked blocks lo hi k → pc.Ok cap H linked blocks lo hi' k
  | .start, h => h
  | .front _ _ _, ⟨done, rest, haround, hk, hsum⟩ => ⟨done, rest, haround, hk, hsum.mono hle⟩
  | .tail _ _ _ _, ⟨done, rest, haround, hk, hsum, f, hlo, hhi, hf⟩ =>
      ⟨done, rest, haround, hk, hsum.mono hle, f, hlo, hhi.trans hle, hf⟩
  | .next _ _ _, ⟨done, rest, haround, hk, hsum⟩ => ⟨done, rest, haround, hk, hsum.mono hle⟩
  | .returned _, h => ⟨(Nat.sub_le_sub_left hle _).trans h.1, h.2⟩

theorem Within.append {H : QueueHistory T} {lo hi f b sum : ℕ} {blocks : List ℕ}
    (h : Within H lo hi blocks sum) (hlo : lo ≤ f) (hhi : f ≤ hi) :
    Within H lo hi (blocks ++ [b]) (sum + (H.count H.length b - H.count f b)) := by
  have hle := Nat.sub_le_sub_left (QueueHistory.count_mono (H := H) hlo b) (H.count H.length b)
  have hge := Nat.sub_le_sub_left (QueueHistory.count_mono (H := H) hhi b) (H.count H.length b)
  rw [Within, List.map_append, List.map_append, List.sum_append, List.sum_append]
  exact ⟨by simpa using Nat.add_le_add h.1 hge, by simpa using Nat.add_le_add h.2 hle⟩

namespace Reading

variable {e lo k : ℕ} {thread : QueueThread} {q q' : ReaderWriterQueue T} {H : QueueHistory T}
  {P₀ P : Produced} {C₀ C : Consumed} {act : QueueAct T} {ev : QueueEvent T} {pc pc' : Sizing}

theorem view (h : Reading e thread q H P₀ P C₀ C) :
    Matches H (blockCap e) (q.view thread) P (seenConsumer C₀ C thread) := by
  cases thread with
  | producer => exact h.explained.layout.producer_view
  | consumer =>
      rw [h.explained.layout.produced_eq (h.still rfl)]
      exact h.explained.layout.consumer_view

theorem seen_visit (h : Reading e thread q H P₀ P C₀ C) :
    C₀.visit ≤ (seenConsumer C₀ C thread).visit ∧ (seenConsumer C₀ C thread).visit ≤ H.last := by
  have hle := h.explained.layout.visit_le_last
  cases thread with
  | producer => exact ⟨le_rfl, hle.1.trans hle.2⟩
  | consumer => exact hle

theorem seen_freed (h : Reading e thread q H P₀ P C₀ C) :
    C₀.freed ≤ (seenConsumer C₀ C thread).freed ∧
      (seenConsumer C₀ C thread).freed ≤ C.gone := by
  have hlayout := h.explained.layout
  have hmono := (consume_path_mono hlayout.consumer_path).2.1
  have hown := hlayout.freed_eq
  cases thread with
  | producer => exact ⟨le_rfl, hmono.trans hown.le⟩
  | consumer => exact ⟨hmono, hown.le⟩

theorem drain_of_quiet (hconsumer : act.thread ≠ some .consumer)
    (hproducer : act.thread ≠ some .producer)
    (hstep : ReaderWriterQueue.next act q = some (q', ev)) :
    (q.memory.buffer .producer = [] → q'.memory.buffer .producer = []) ∧ ev.taken = [] := by
  cases act with
  | enqueue x mode => exact absurd rfl hproducer
  | producer malloc => exact absurd rfl hproducer
  | dequeue op => exact absurd rfl hconsumer
  | consumer => exact absurd rfl hconsumer
  | drain thread =>
      obtain ⟨memory, hdrain, heq⟩ := Option.map_eq_some_iff.mp hstep
      obtain ⟨rfl, rfl⟩ := Prod.mk.inj heq
      refine ⟨fun hbuf => ?_, rfl⟩
      cases thread with
      | producer =>
          obtain ⟨s, rest, hs, -⟩ := Buffered.drain_eq_some _ hdrain
          rw [hbuf] at hs
          cases hs
      | consumer => exact (Buffered.drain_buffer_of_ne _ hdrain (j := .producer) nofun).trans hbuf

/-- What happens between two loads. -/
theorem step (h : Reading e thread q H P₀ P C₀ C) (hact : act.thread ≠ some thread)
    (hstill : act.thread ≠ some .producer) (hstep : ReaderWriterQueue.next act q = some (q', ev)) :
    ∃ P₁ C₁ C', Reading e thread q' H P₁ P C₁ C' ∧
      (seenConsumer C₀ C thread).freed ≤ (seenConsumer C₁ C' thread).freed ∧
      q'.blocks = q.blocks ∧ H.values.take C'.gone = H.values.take C.gone ++ ev.taken ∧
      (thread = .consumer → ev.taken = []) := by
  obtain ⟨P₁, C₁, C', hnext⟩ := h.explained.step_other hstill hstep
  have hadded : ev.added = [] := by simpa using hnext.values
  have hblocks : q'.blocks = q.blocks := hnext.event.kept fun x hx => by
    rw [hx] at hadded
    cases hadded
  have hgone : C.gone ≤ C'.gone := by
    have hlen := h.explained.length_taken rfl
    have hlen' := hnext.explained.length_taken hnext.taken
    rw [List.length_append] at hlen'
    omega
  cases thread with
  | producer =>
      exact ⟨P₁, C₁, C', ⟨hnext.explained, nofun⟩, hnext.freed, hblocks, hnext.taken, nofun⟩
  | consumer =>
      obtain ⟨hstay, htaken⟩ := drain_of_quiet hact hstill hstep
      have hown := h.explained.layout.freed_eq
      have hown' := hnext.explained.layout.freed_eq
      refine ⟨P₁, C₁, C', ⟨hnext.explained, fun _ => hstay (h.still rfl)⟩, ?_, hblocks,
        hnext.taken, fun _ => htaken⟩
      exact hown.trans_le (hgone.trans hown'.ge)

/-- The next load. -/
theorem load (h : Reading e thread q H P₀ P C₀ C)
    (hlo : lo ≤ (seenConsumer C₀ C thread).freed)
    (hroom : ∀ b, H.count H.length b + 1 ≤ H.count lo b + blockCap e b)
    (hlt : H.length - lo < 2 ^ 64)
    (hpc : pc.Ok (blockCap e) H P.next q.blocks lo (seenConsumer C₀ C thread).freed k)
    (hload : q.stepSize thread pc = some pc') :
    pc'.Ok (blockCap e) H P.next q.blocks lo (seenConsumer C₀ C thread).freed (k + 1) := by
  have hm := h.view
  have hlayout := h.explained.layout
  have hvisit := h.seen_visit
  have hle : (seenConsumer C₀ C thread).freed ≤ H.length :=
    h.seen_freed.2.trans hlayout.gone_le_length
  have hplace : ∀ j < H.length, H.place j < q.blocks :=
    fun j hj => hlayout.wf.place_lt hlayout.block_lt hj
  cases pc with
  | returned result => cases hload
  | failed => cases hload
  | start =>
      obtain rfl := Option.some.inj hload
      obtain ⟨free, -, hcircle, hperm⟩ := hlayout.circuit_from hvisit.1 hvisit.2 hm.next
      have hhead := QueueHistory.window_head hvisit.2
      obtain ⟨rest, hrest⟩ := List.head?_eq_some_iff.mp hhead
      rw [hrest, List.cons_append] at hcircle hperm
      rw [hm.frontBlock]
      exact ⟨[], rest ++ free, ⟨hcircle, hperm, rfl⟩, congrArg (· + 1) hpc, by simp [Within]⟩
  | front first block result =>
      obtain rfl := Option.some.inj hload
      obtain ⟨done, rest, haround, hk, hsum⟩ := hpc
      exact ⟨done, rest, haround, by omega, hsum, _, hlo, le_rfl, hm.front block⟩
  | tail first block result blockFront =>
      obtain rfl := Option.some.inj hload
      obtain ⟨done, rest, haround, hk, hsum, f, hf, hfhi, rfl⟩ := hpc
      have hheld := hlayout.block_size haround.lt (hroom block) hf (hfhi.trans hle) le_rfl
      rw [hm.tail, hlayout.told_eq, hheld]
      refine ⟨done, rest, haround, by omega, ?_⟩
      have hsum' := hsum.append (b := block) hf hfhi
      have hall := haround.shift.sum_held (hlo.trans hle) hplace
      rw [List.map_append, List.sum_append] at hall
      have hsmall := hsum'.2
      rwa [Nat.mod_eq_of_lt (by omega)]
  | next first block result =>
      obtain ⟨done, rest, haround, hk, hsum⟩ := hpc
      simp only [ReaderWriterQueue.stepSize, hm.next] at hload
      cases rest with
      | nil =>
          rw [haround.next_last] at hload
          obtain rfl := Option.some.inj hload
          rw [if_pos rfl]
          have hleft := haround.shift.sum_held hle hplace
          have hheld := haround.shift.sum_held (hlo.trans hle) hplace
          rw [List.append_nil] at hleft hheld
          exact ⟨hleft.symm.trans_le hsum.1, hsum.2.trans hheld.le⟩
      | cons c rest =>
          obtain ⟨hnext, hne⟩ := haround.next_cons
          rw [hnext] at hload
          obtain rfl := Option.some.inj hload
          rw [if_neg hne]
          exact ⟨done ++ [block], rest, haround.shift, by simp; omega, hsum⟩

theorem exec (hroom : ∀ b, H.count H.length b + 1 ≤ H.count lo b + blockCap e b)
    (hlt : H.length - lo < 2 ^ 64) :
    ∀ {acts : List (Option (QueueAct T))} {q : ReaderWriterQueue T} {P₀ : Produced}
      {C₀ C : Consumed} {k : ℕ} {pc : Sizing} {tr : List (QueueEvent T)},
    Reading e thread q H P₀ P C₀ C → lo ≤ (seenConsumer C₀ C thread).freed →
    (thread = .consumer → ∀ act, some act ∈ acts → act.thread ≠ some .producer) →
    pc.Ok (blockCap e) H P.next q.blocks lo (seenConsumer C₀ C thread).freed k →
    System.exec (ReaderWriterQueue.nextSize thread) acts (q, pc) = some ((q', pc'), tr) →
    ∃ P₁ C₁ C', Reading e thread q' H P₁ P C₁ C' ∧
      pc'.Ok (blockCap e) H P.next q.blocks lo (seenConsumer C₁ C' thread).freed
        (k + acts.countP Option.isNone) ∧
      H.values.take C'.gone = H.values.take C.gone ++ removed tr ∧
      (thread = .consumer → removed tr = [])
  | [], q, P₀, C₀, C, k, pc, tr, h, hlo, hquiet, hpc, hexec => by
      obtain ⟨heq, rfl⟩ := Prod.mk.inj (Option.some.inj hexec)
      obtain ⟨rfl, rfl⟩ := Prod.mk.inj heq
      exact ⟨P₀, C₀, C, h, hpc, (List.append_nil _).symm, fun _ => rfl⟩
  | none :: acts, q, P₀, C₀, C, k, pc, tr, h, hlo, hquiet, hpc, hexec => by
      obtain ⟨_, ev, tr', hnext, hrest, rfl⟩ := System.exec_cons hexec
      obtain ⟨pc₁, hload, heq⟩ := Option.map_eq_some_iff.mp hnext
      obtain ⟨rfl, rfl⟩ := Prod.mk.inj heq
      have hpc₁ := h.load hlo hroom hlt hpc hload
      obtain ⟨P₁, C₁, C', h', hpc', htaken, hnone⟩ := exec hroom hlt h hlo
        (fun hthread act hact => hquiet hthread act (List.mem_cons_of_mem _ hact)) hpc₁ hrest
      rw [List.countP_cons_of_pos rfl, Nat.add_comm _ 1, ← Nat.add_assoc]
      exact ⟨P₁, C₁, C', h', hpc', htaken, hnone⟩
  | some act :: acts, q, P₀, C₀, C, k, pc, tr, h, hlo, hquiet, hpc, hexec => by
      obtain ⟨_, ev, tr', hnext, hrest, rfl⟩ := System.exec_cons hexec
      simp only [ReaderWriterQueue.nextSize] at hnext
      split at hnext
      · cases hnext
      · rename_i hact
        obtain ⟨p, hstep, heq⟩ := Option.map_eq_some_iff.mp hnext
        obtain ⟨rfl, rfl⟩ := Prod.mk.inj heq
        have hstill : act.thread ≠ some .producer := by
          cases thread with
          | producer => exact hact
          | consumer => exact hquiet rfl act List.mem_cons_self
        obtain ⟨P₁, C₁, C₁', h₁, hfreed, hblocks, htaken, hnone⟩ := h.step hact hstill hstep
        have hpc₁ := hpc.mono hfreed
        rw [← hblocks] at hpc₁ ⊢
        obtain ⟨P₂, C₂, C', h', hpc', htaken', hnone'⟩ := exec hroom hlt h₁ (hlo.trans hfreed)
          (fun hthread act hact => hquiet hthread act (List.mem_cons_of_mem _ hact)) hpc₁ hrest
        rw [List.countP_cons_of_neg (by simp)]
        refine ⟨P₂, C₂, C', h', hpc', ?_, fun hthread => ?_⟩
        · rw [htaken', htaken, List.append_assoc]
          rfl
        · have htail := hnone' hthread
          have hhead := hnone hthread
          simp only [removed] at htail
          simp [removed, hhead, htail]

end Reading

variable {maxSize : UInt64} {tr tr' : List (QueueEvent T)} {q q' : ReaderWriterQueue T}

namespace ReaderWriterQueue

variable {thread : QueueThread} {first block : ℕ}

/-- What a block adds to the size when it is looked at. -/
def held (q : ReaderWriterQueue T) (thread : QueueThread) (block : ℕ) : ℕ :=
  ((q.view thread).tail block + 2 ^ 64 - (q.view thread).front block) % 2 ^ 64 &&& q.sizeMask block

theorem exec_block (first result : ℕ) {next : ℕ} (h : (q.view thread).next block = some next) :
    System.exec (nextSize thread) [none, none, none] (q, .front first block result) =
      some ((q, if next = first then .returned ((result + q.held thread block) % 2 ^ 64)
        else .front first next ((result + q.held thread block) % 2 ^ 64)),
        [.internal, .internal, .internal]) := by
  simp only [System.exec, nextSize, stepSize, h, held, Option.map_some, Option.bind_some]

theorem exec_circuit :
    ∀ {fuel block : ℕ} {blocks : List ℕ} (result : ℕ),
      circuit (q.view thread).next first fuel block = some blocks →
      ∃ loads tr, System.exec (nextSize thread) (List.replicate loads none)
        (q, .front first block result) =
          some ((q, .returned ((result + (blocks.map (q.held thread)).sum) % 2 ^ 64)), tr)
  | 0, block, blocks, result, h => by cases h
  | fuel + 1, block, blocks, result, h => by
      rw [circuit] at h
      split at h
      · cases h
      · rename_i next hnext
        have hblock := exec_block first result hnext
        split_ifs at h with hfirst
        · obtain rfl := Option.some.inj h
          rw [if_pos hfirst] at hblock
          refine ⟨3, [.internal, .internal, .internal], ?_⟩
          rw [List.map_singleton, List.sum_singleton]
          exact hblock
        · obtain ⟨rest, hrest, rfl⟩ := Option.map_eq_some_iff.mp h
          rw [if_neg hfirst] at hblock
          obtain ⟨loads, tr, hexec⟩ :=
            exec_circuit ((result + q.held thread block) % 2 ^ 64) hrest
          rw [Nat.mod_add_mod, Nat.add_assoc, ← List.sum_cons, ← List.map_cons] at hexec
          refine ⟨3 + loads, [.internal, .internal, .internal] ++ tr, ?_⟩
          rw [List.replicate_add]
          exact System.exec_append hexec hblock

/-- A call during which nothing else happens returns `sizeApprox`. -/
theorem exec_sizeApprox {n : ℕ} (h : q.sizeApprox thread = some n) :
    ∃ loads tr, System.exec (nextSize thread) (List.replicate loads none) (q, .start) =
      some ((q, .returned n), tr) := by
  obtain ⟨blocks, hblocks, rfl⟩ := Option.map_eq_some_iff.mp h
  obtain ⟨loads, tr, hexec⟩ := exec_circuit 0 hblocks
  refine ⟨loads + 1, .internal :: tr, ?_⟩
  rw [Nat.zero_add] at hexec
  simp only [List.replicate_succ, System.exec, nextSize, stepSize, Option.map_some,
    Option.bind_some]
  rw [hexec]
  rfl

end ReaderWriterQueue

end Qing
