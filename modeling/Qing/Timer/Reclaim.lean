import Qing.Timer.Round

/-!
# Cancelled timers are reclaimed

`UnRegister` marks the entry of a timer and leaves it in its table; taking it out is left to
`Update`. Whatever other threads do meanwhile, one whole call of `Update` is enough: when it
returns, a timer that had been cancelled before is in neither table, and nothing happens to
it from then on (`cancelled_reclaimed`).
-/

namespace Qing

variable {Fp : Type*} {countTick : UInt64}

section Life

variable {id : ℤ} {p p' : Phase Fp} {e : Event Fp} {h : List (Event Fp)}

theorem nil_of_gone (hpath : (lifeSystem Fp countTick id).Path p h p') (hp : p = .gone) :
    h = [] ∧ p' = .gone := by
  induction hpath with
  | refl => exact ⟨rfl, hp⟩
  | tail _ hst ih =>
      rw [ih.2] at hst
      cases hst

theorem LifeStep.gone_of_visit (hst : LifeStep countTick id p e p') (hp : p.Cancelled)
    (he : e.isVisit = true) : p' = .gone := by
  cases hst with
  | erased => rfl
  | skipped t tab timer now hmark | fired t tab timer now hmark =>
      rw [hp.2 timer rfl] at hmark
      cases hmark
  | opened | inserted | markedLive | markedFiring | expired | rearmed => cases he

theorem Phase.Cancelled.eq_gone (hp : p.Cancelled) (hs : p.stored? = none) : p = .gone := by
  cases p with
  | absent | draft => exact hp.1.elim
  | live | firing => cases hs
  | gone => rfl

end Life

section Path

variable {q q' : State Fp × (ℤ → Phase Fp)} {tr : List (Event Fp)} {k : ℤ}

theorem cancelled_of_path (hpath : (engineLedger Fp countTick).Path q tr q')
    (hcan : (q.2 k).Cancelled) : (q'.2 k).Cancelled :=
  (not_fired_of_cancelled (hpath.snd.component k) hcan).1

theorem find_none_of_path {tab : Tab} (hpath : (engineLedger Fp countTick).Path q tr q')
    (hq : Refines q.1.engine q.1.loc q.2) (hset : (q.2 k).Settled)
    (hnone : (q.1.engine.timers tab).find? k = none) :
    (q'.1.engine.timers tab).find? k = none := by
  have hall := hpath.preserve (M := engineLedger Fp countTick)
    (I := fun q => Refines q.1.engine q.1.loc q.2 ∧ (q.2 k).Settled ∧
      (q.1.engine.timers tab).find? k = none)
    (fun q e q' hq hst => ⟨hst.2.2.2, settled_step hst.2.1 hq.2.1,
      find_none_of_settled hq.1 hq.2.1 hst.1 hq.2.2⟩) ⟨hq, hset, hnone⟩
  exact hall.2.2

theorem cancelled_of_returned {pre mid post : List (Event Fp)} {t : ThreadId} {id : ℤ}
    (hrun : (engineLedger Fp countTick).Run
      (pre ++ .unRegisterCalled t id :: (mid ++ .unRegisterReturned t id :: post)) q)
    (hins : ∃ e ∈ history pre id, e.isInserted = true) : (q.2 id).Cancelled := by
  obtain ⟨q₁, q₂, hpre, hcalled, hrest⟩ := hrun.cut
  obtain ⟨q₃, q₄, hmid, hreturned, hpost⟩ := hrest.cut
  have hset : (q₁.2 id).Settled := settled_of_inserted (hpre.snd.component id) hins
  have hstart : Cancelling t id q₂.1 q₂.2 := Cancelling.start hset hcalled
  have hend : Cancelling t id q₃.1 q₃.2 := hstart.path hmid hcalled.2.2.2
  exact cancelled_of_path hpost (hend.cancelled hreturned)

end Path

/-- One whole call of `Update` takes a cancelled timer out of the tables. -/
theorem UpdateCall.gone_of_cancelled {t : ThreadId} {pre mid : List (Event Fp)}
    {s₁ s₂ s₃ s₄ : State Fp} (h : UpdateCall countTick t pre mid s₁ s₂ s₃ s₄)
    {a : ℤ → Phase Fp} {k : ℤ} (hR : LocksHeld s₁ ∧ Refines s₁.engine s₁.loc a)
    (hcan : (a k).Cancelled) :
    ∃ a', (LocksHeld s₄ ∧ Refines s₄.engine s₄.loc a') ∧ a' k = .gone := by
  have hwhole := ((System.Path.single h.called).append h.during).tail h.returned
  obtain ⟨a', hpath, hR'⟩ := hwhole.paired ledger_simulation hR
  refine ⟨a', hR', ?_⟩
  by_contra hkept
  have hcan' : (a' k).Cancelled := cancelled_of_path hpath hcan
  obtain ⟨timer, hstored⟩ : ∃ timer, (a' k).stored? = some timer :=
    Option.ne_none_iff_exists'.mp fun hs => hkept (hcan'.eq_gone hs)
  obtain ⟨tab, hfind'⟩ := (hR'.2.stored k timer).mp hstored
  have hfind : ((s₁.engine.timers tab).find? k).isSome := by
    by_contra hnone
    rw [Option.not_isSome_iff_eq_none] at hnone
    have hnone' := find_none_of_path hpath hR.2 hcan.1 hnone
    rw [hfind'] at hnone'
    cases hnone'
  rcases h.met hfind with hmet | hgone
  · obtain ⟨e, hmem, he⟩ := List.mem_filterMap.mp hmet
    obtain ⟨before, after, rfl⟩ := List.append_of_mem hmem
    rw [← List.append_assoc, List.append_assoc, List.cons_append] at hpath
    obtain ⟨q₁, q₂, hbefore, hturn, hafter⟩ := hpath.cut
    have hgone : q₂.2 k = .gone := by
      rcases System.product_step hturn.2.1 k with ⟨hne, -⟩ | ⟨-, hlife⟩
      · exact absurd (Event.subject?_of_meets? he) hne
      · exact LifeStep.gone_of_visit hlife (cancelled_of_path hbefore hcan)
          (Event.isVisit_of_meets? he)
    exact hkept (nil_of_gone (hafter.snd.component k) hgone).2
  · rw [hfind'] at hgone
    cases hgone

/-- Once `UnRegister` has returned for a timer that was inserted before it was called, the
next whole call of `Update`, by any thread and among any others, leaves the timer in neither
table, and nothing happens to it ever after. -/
theorem cancelled_reclaimed {pre mid post during after : List (Event Fp)} {t u : ThreadId}
    {id : ℤ} {s₁ s₂ s₃ s₄ s₅ : State Fp}
    (h : UpdateCall countTick t
      (pre ++ .unRegisterCalled u id :: (mid ++ .unRegisterReturned u id :: post)) during
      s₁ s₂ s₃ s₄)
    (hins : ∃ e ∈ history pre id, e.isInserted = true)
    (hafter : (engineSystem Fp countTick).Path s₄ after s₅) :
    (∀ tab, id ∉ (s₅.engine.timers tab).keys) ∧ history after id = [] := by
  obtain ⟨a₁, hrun, hR₁⟩ := h.before.paired ledger_simulation
  obtain ⟨a₄, hR₄, hgone⟩ := h.gone_of_cancelled hR₁ (cancelled_of_returned hrun hins)
  obtain ⟨a₅, hpath, hR₅⟩ := hafter.paired ledger_simulation hR₄
  obtain ⟨hnil, hgone'⟩ : history after id = [] ∧ a₅ id = .gone :=
    nil_of_gone (hpath.snd.component id) hgone
  refine ⟨fun tab hmem => ?_, hnil⟩
  rw [OrderedMap.mem_keys_iff, Option.isSome_iff_exists] at hmem
  obtain ⟨timer, hfind⟩ := hmem
  have hstored := hR₅.2.stored_of_find hfind
  rw [hgone'] at hstored
  cases hstored

/-- Thread 0 registers a timer of zero milliseconds, cancels it and calls `Update`. -/
def reclaimActs : List (ThreadId × Act Unit) :=
  [(0, .register .milsec true 0 ()), (0, .run 5 true), (0, .run 5 true), (0, .run 5 true),
    (0, .run 5 true), (0, .run 5 true), (0, .unRegister 1), (0, .run 5 true), (0, .run 5 true),
    (0, .run 5 true), (0, .update), (0, .run 5 true), (0, .run 5 true), (0, .run 5 true),
    (0, .run 5 true), (0, .run 5 true)]

def reclaimState (n : ℕ) : State Unit :=
  (System.exec (State.next 1000000) (reclaimActs.take n) State.init).elim State.init Prod.fst

theorem reclaimCall : UpdateCall 1000000 0
    (roundBefore ++ .unRegisterCalled 0 1 ::
      ([.internal, .marked 0 .timers2 1] ++ .unRegisterReturned 0 1 :: []))
    [.internal, .internal, .internal, .erased 0 .timers2 1] (reclaimState 10) (reclaimState 11)
    (reclaimState 15) (reclaimState 16) := by
  have hbefore : System.exec (State.next 1000000) (reclaimActs.take 10) State.init =
      some (reclaimState 10, roundBefore ++ .unRegisterCalled 0 1 ::
        ([.internal, .marked 0 .timers2 1] ++ .unRegisterReturned 0 1 :: [])) := rfl
  have hduring : System.exec (State.next 1000000) ((reclaimActs.take 15).drop 11)
      (reclaimState 11) = some (reclaimState 15,
        [.internal, .internal, .internal, .erased 0 .timers2 1]) := rfl
  exact
    { before := System.run_of_exec rfl hbefore
      called := ⟨(0, .update), rfl⟩
      during := System.exec_path hduring
      inside := by simp
      returned := ⟨(0, .run 5 true), rfl⟩ }

theorem cancelled_reclaimed_sample :
    1 ∉ ((reclaimState 16).engine.timers .timers2).keys := by
  have hins : ∃ e ∈ history roundBefore 1, e.isInserted = true :=
    ⟨.inserted 0 .timers2 roundTimer, List.mem_of_getElem? (i := 1) rfl, rfl⟩
  exact (cancelled_reclaimed reclaimCall hins (System.Path.refl _)).1 .timers2

end Qing
