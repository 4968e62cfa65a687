import Qing.Queue.Growth

/-!
# Where the threads can be

The stores of a thread are the steps of a system of positions. What is so of a thread
wherever it is (`Produced.Wf`, `Consumed.Wf`) goes with every move, positions only
go forward, and moves made in a history are moves in one that continues it.
-/

namespace Qing

variable {T : Type*}

variable {H H' : QueueHistory T} {cap : ℕ → ℕ} {P P' : Produced} {C C' : Consumed}
  {s : QueueStore T} {stores : List (QueueStore T)}

def produceSystem (H : QueueHistory T) (cap : ℕ → ℕ) : System Produced (QueueStore T) where
  init _ := True
  step := ProduceStep H cap

def consumeSystem (H : QueueHistory T) (cap : ℕ → ℕ) : System Consumed (QueueStore T) where
  init _ := True
  step := ConsumeStep H cap

/-- What is so of the producer wherever it is. -/
structure Produced.Wf (H : QueueHistory T) (P : Produced) : Prop where
  told_le : P.told ≤ P.made
  made_le : P.made ≤ H.length
  visit_le : P.visit ≤ H.last
  started : 0 < P.visit → H.start P.visit < P.told

/-- What is so of the consumer wherever it is. -/
structure Consumed.Wf (H : QueueHistory T) (C : Consumed) : Prop where
  start_le : H.start C.visit ≤ C.freed
  freed_le : C.freed ≤ C.gone
  gone_le : C.gone ≤ H.stop C.visit
  visit_le : C.visit ≤ H.last

theorem ProduceStep.wf (h : ProduceStep H cap P s P') (hP : P.Wf H) : P'.Wf H := by
  cases h with
  | initFront _ => exact hP
  | initTail _ => exact hP
  | construct htold hx =>
      obtain ⟨hlt, -⟩ := List.getElem?_eq_some_iff.mp hx
      exact { hP with told_le := htold.le.trans (Nat.le_succ _), made_le := hlt }
  | tail hmade hlen =>
      exact { hP with
        told_le := hmade.ge
        started := fun hpos => (hP.started hpos).trans (Nat.lt_succ_self _) }
  | link _ _ => exact { hP with }
  | enter hvisit hstart _ => exact { hP with visit_le := hvisit, started := fun _ => hstart }

theorem ProduceStep.mono (h : ProduceStep H cap P s P') :
    P.made ≤ P'.made ∧ P.told ≤ P'.told ∧ P.visit ≤ P'.visit := by
  cases h <;> simp

theorem ConsumeStep.wf (hH : H.Wf) (h : ConsumeStep H cap C s C') (hC : C.Wf H) : C'.Wf H := by
  cases h with
  | destroy hfreed hstop =>
      exact { hC with freed_le := hfreed.le.trans (Nat.le_succ _), gone_le := hstop }
  | front hgone =>
      exact { hC with start_le := hC.start_le.trans (Nat.le_succ _), freed_le := hgone.ge }
  | switch hfreed hvisit hstart =>
      exact { start_le := (hstart ▸ hfreed).ge, freed_le := hC.freed_le, visit_le := hvisit
              gone_le := hstart.le.trans (hH.start_le_stop hvisit) }

theorem ConsumeStep.mono (h : ConsumeStep H cap C s C') :
    C.gone ≤ C'.gone ∧ C.freed ≤ C'.freed ∧ C.visit ≤ C'.visit := by
  cases h <;> simp

theorem count_ne_zero_of_tail {block n : ℕ} (hmade : P.made = P.told + 1)
    (heq : QueueStore.tail (T := T) block 0 = .tail (H.place P.told) n) :
    H.count P.made block ≠ 0 := by
  obtain ⟨rfl, -⟩ := QueueStore.tail.inj heq
  rw [hmade, QueueHistory.count_succ_self rfl]
  exact Nat.succ_ne_zero _

theorem ProduceStep.unique {P'' : Produced} (h : ProduceStep H cap P s P')
    (h' : ProduceStep H cap P s P'') : P' = P'' := by
  generalize hs : s = w at h'
  cases h with
  | initFront _ => cases h' <;> first | rfl | cases hs
  | initTail hcount =>
      cases h' with
      | initTail _ => rfl
      | tail hmade _ => exact absurd hcount (count_ne_zero_of_tail hmade hs)
      | _ => cases hs
  | construct _ _ => cases h' <;> first | rfl | cases hs
  | tail hmade _ =>
      cases h' with
      | initTail hcount => exact absurd hcount (count_ne_zero_of_tail hmade hs.symm)
      | tail _ _ => rfl
      | _ => cases hs
  | link _ _ =>
      cases h' with
      | link _ _ =>
          obtain ⟨rfl, rfl⟩ := QueueStore.next.inj hs
          rfl
      | _ => cases hs
  | enter _ _ _ => cases h' <;> first | rfl | cases hs

theorem ConsumeStep.unique {C'' : Consumed} (h : ConsumeStep H cap C s C')
    (h' : ConsumeStep H cap C s C'') : C' = C'' := by
  generalize hs : s = w at h'
  cases h <;> cases h' <;> first | rfl | cases hs

theorem produce_path_wf (h : (produceSystem H cap).Path P stores P') (hP : P.Wf H) : P'.Wf H :=
  h.preserve (I := fun P => P.Wf H) (fun _ _ _ hw hs => ProduceStep.wf hs hw) hP

theorem produce_path_mono (h : (produceSystem H cap).Path P stores P') :
    P.made ≤ P'.made ∧ P.told ≤ P'.told ∧ P.visit ≤ P'.visit := by
  induction h with
  | refl => exact ⟨le_rfl, le_rfl, le_rfl⟩
  | tail _ hstep ih =>
      have hmono := ProduceStep.mono hstep
      omega

theorem consume_path_wf (hH : H.Wf) (h : (consumeSystem H cap).Path C stores C') (hC : C.Wf H) :
    C'.Wf H :=
  h.preserve (I := fun C => C.Wf H) (fun _ _ _ hw hs => ConsumeStep.wf hH hs hw) hC

theorem consume_path_mono (h : (consumeSystem H cap).Path C stores C') :
    C.gone ≤ C'.gone ∧ C.freed ≤ C'.freed ∧ C.visit ≤ C'.visit := by
  induction h with
  | refl => exact ⟨le_rfl, le_rfl, le_rfl⟩
  | tail _ hstep ih =>
      have hmono := ConsumeStep.mono hstep
      omega

/-! ## Moves in a history that grows -/

theorem ProduceStep.extend (hE : H.Extends H') (hmade : P'.made ≤ H.length)
    (h : ProduceStep H cap P s P') : ProduceStep H' cap P s P' := by
  cases h with
  | initFront hcount => exact .initFront (by rwa [hE.count_eq hmade])
  | initTail hcount => exact .initTail (by rwa [hE.count_eq hmade])
  | construct htold hx =>
      rw [← hE.place _ hmade, ← hE.slot_eq hmade]
      exact .construct htold (by rwa [hE.getElem?_eq hmade])
  | tail htold hlen =>
      have hlt : P.told < H.length := by omega
      rw [← hE.place _ hlt, ← hE.count_eq (Nat.succ_le_of_lt hlt)]
      exact .tail htold (hlen.trans hE.length_le)
  | link hvisit hblock =>
      refine .link (hvisit.trans_le hE.last) ?_
      rwa [hE.block _ hvisit.le, hE.block _ hvisit]
  | enter hvisit hstart hnext =>
      rw [← hE.block _ hvisit]
      refine .enter (hvisit.trans_le hE.last) ?_ ?_
      · rwa [hE.start _ hvisit]
      · rwa [hE.block _ hvisit.le, hE.block _ hvisit]

theorem ConsumeStep.extend (hE : H.Extends H') (hgone : C'.gone ≤ H.length)
    (hfreed : C'.freed ≤ H.length) (hvisit : C'.visit ≤ H.last)
    (h : ConsumeStep H cap C s C') : ConsumeStep H' cap C s C' := by
  cases h with
  | destroy heq hstop =>
      rw [← hE.place _ hgone, ← hE.slot_eq hgone]
      exact .destroy heq (hstop.trans_le (hE.stop_le hvisit))
  | front heq =>
      rw [← hE.place _ hfreed, ← hE.count_eq hfreed]
      exact .front heq
  | switch heq hlt hstart =>
      rw [← hE.block _ hvisit]
      exact .switch heq (hlt.trans_le hE.last) (by rwa [hE.start _ hvisit])

theorem produce_path_extend (hE : H.Extends H') (h : (produceSystem H cap).Path P stores P')
    (hmade : P'.made ≤ H.length) : (produceSystem H' cap).Path P stores P' := by
  induction h with
  | refl => exact System.Path.refl _
  | tail _ hstep ih =>
      have hmono := ProduceStep.mono hstep
      exact (ih (by omega)).tail (ProduceStep.extend hE hmade hstep)

theorem consume_path_extend (hE : H.Extends H') (h : (consumeSystem H cap).Path C stores C')
    (hgone : C'.gone ≤ H.length) (hfreed : C'.freed ≤ H.length) (hvisit : C'.visit ≤ H.last) :
    (consumeSystem H' cap).Path C stores C' := by
  induction h with
  | refl => exact System.Path.refl _
  | tail _ hstep ih =>
      have hmono := ConsumeStep.mono hstep
      exact (ih (by omega) (by omega) (by omega)).tail
        (ConsumeStep.extend hE hgone hfreed hvisit hstep)

theorem Produced.Wf.extend (hE : H.Extends H') (hP : P.Wf H) : P.Wf H' where
  told_le := hP.told_le
  made_le := hP.made_le.trans hE.length_le
  visit_le := hP.visit_le.trans hE.last
  started hpos := by
    rw [hE.start _ hP.visit_le]
    exact hP.started hpos

theorem Consumed.Wf.extend (hE : H.Extends H') (hC : C.Wf H) : C.Wf H' where
  start_le := by
    rw [hE.start _ hC.visit_le]
    exact hC.start_le
  freed_le := hC.freed_le
  gone_le := hC.gone_le.trans (hE.stop_le hC.visit_le)
  visit_le := hC.visit_le.trans hE.last

theorem Matches.extend {m : QueueMemory T} (hE : H.Extends H') (hm : Matches H cap m P C)
    (hP : P.Wf H) (hC : C.Wf H) (hgone : C.gone ≤ P.told) : Matches H' cap m P C where
  front b := by
    rw [hE.count_eq (hC.freed_le.trans (hgone.trans (hP.told_le.trans hP.made_le)))]
    exact hm.front b
  tail b := by
    rw [hE.count_eq (hP.told_le.trans hP.made_le)]
    exact hm.tail b
  next := hm.next
  live k x hk hlt hx := by
    have hlen : k < H.length := hlt.trans_le hP.made_le
    rw [hE.place k hlen, hE.slot_eq hlen]
    exact hm.live k x hk hlt (by rwa [← hE.getElem?_eq hlen])
  raw b i hraw := by
    refine hm.raw b i fun k hk hlt hplace => ?_
    have hlen : k < H.length := hlt.trans_le hP.made_le
    have hslot := hraw k hk hlt (by rwa [hE.place k hlen])
    rwa [hE.slot_eq hlen] at hslot
  frontBlock := by
    rw [hE.block _ hC.visit_le]
    exact hm.frontBlock
  tailBlock := by
    rw [hE.block _ hP.visit_le]
    exact hm.tailBlock

end Qing
