import Mathlib.Data.List.Pairwise
import Mathlib.Order.Lattice
import Mathlib.Tactic.Common

/-!
# Polled triggers

A trigger is polled at the points of a list and remembers the last point it fired
at. Points lie in ordered periods. A trigger that fires only in a period later than
its last one fires at most once a period (`countP_fired_le_one`), and one that fires
whenever it is ready in such a period fires exactly once in each of them that holds
a ready point (`countP_fired_eq_one`).
-/

namespace Qing

namespace Polling

variable {σ τ κ : Type*} [LinearOrder κ]

/-- The polls that fire, the memory being set to the point of each. -/
def fired (fire : σ → τ → Bool) (store : τ → σ) : σ → List τ → List τ
  | _, [] => []
  | last, c :: cs =>
      if fire last c then c :: fired fire store (store c) cs else fired fire store last cs

variable {fire : σ → τ → Bool} {store : τ → σ} {memory : σ → κ} {period : τ → κ}
  {Follows : σ → τ → Prop} {ready : τ → Prop} {last : σ} {cs : List τ}

section Late

variable (hstore : ∀ last c, Follows last c → memory (store c) = period c)
  (hlate : ∀ last c, Follows last c → fire last c = true → memory last < period c)

include hstore hlate

/-- Every poll that fires does so later than the memory the run starts with. -/
theorem lt_of_mem_fired (hsorted : cs.Pairwise fun c c' => Follows (store c) c')
    (hfollows : ∀ c ∈ cs, Follows last c) {c : τ} (h : c ∈ fired fire store last cs) :
    memory last < period c := by
  induction cs generalizing last with
  | nil => cases h
  | cons d cs ih =>
      obtain ⟨hd, hcs⟩ := List.pairwise_cons.mp hsorted
      have hrest : ∀ c ∈ cs, Follows last c := fun c hc => hfollows c (List.mem_cons_of_mem d hc)
      rw [fired] at h
      split_ifs at h with hfire
      · have hlt : memory last < period d := hlate last d (hfollows d List.mem_cons_self) hfire
        rcases List.mem_cons.mp h with rfl | h
        · exact hlt
        · have hlater := ih hcs hd h
          rw [hstore last d (hfollows d List.mem_cons_self)] at hlater
          exact hlt.trans hlater
      · exact ih hcs hrest h

theorem countP_fired_le_one (hsorted : cs.Pairwise fun c c' => Follows (store c) c')
    (hfollows : ∀ c ∈ cs, Follows last c) (q : κ) :
    (fired fire store last cs).countP (fun c => decide (period c = q)) ≤ 1 := by
  induction cs generalizing last with
  | nil => exact Nat.zero_le 1
  | cons d cs ih =>
      obtain ⟨hd, hcs⟩ := List.pairwise_cons.mp hsorted
      rw [fired]
      split_ifs
      · rw [List.countP_cons]
        split_ifs with hq
        · have hzero : (fired fire store (store d) cs).countP
              (fun c => decide (period c = q)) = 0 := by
            rw [List.countP_eq_zero]
            intro c hc heq
            have hlt := lt_of_mem_fired hstore hlate hcs hd hc
            rw [hstore last d (hfollows d List.mem_cons_self), of_decide_eq_true hq,
              of_decide_eq_true heq] at hlt
            exact lt_irrefl q hlt
          rw [hzero]
        · exact ih hcs hd
      · exact ih hcs fun c hc => hfollows c (List.mem_cons_of_mem d hc)

omit hlate in
theorem exists_mem_fired
    (hready : ∀ last c, Follows last c → memory last < period c → ready c → fire last c = true)
    (hmono : ∀ last c, Follows last c → memory last ≤ period c)
    (hsorted : cs.Pairwise fun c c' => Follows (store c) c')
    (hfollows : ∀ c ∈ cs, Follows last c) {c : τ} (hc : c ∈ cs) (hlt : memory last < period c)
    (hr : ready c) : ∃ d ∈ fired fire store last cs, period d = period c := by
  induction cs generalizing last with
  | nil => cases hc
  | cons d cs ih =>
      obtain ⟨hd, hcs⟩ := List.pairwise_cons.mp hsorted
      have hrest : ∀ c ∈ cs, Follows last c := fun c hc => hfollows c (List.mem_cons_of_mem d hc)
      rw [fired]
      rcases List.mem_cons.mp hc with rfl | hc
      · rw [if_pos (hready last c (hfollows c List.mem_cons_self) hlt hr)]
        exact ⟨c, List.mem_cons_self, rfl⟩
      · split_ifs
        · rcases (hmono (store d) c (hd c hc)).eq_or_lt with heq | hlt'
          · rw [hstore last d (hfollows d List.mem_cons_self)] at heq
            exact ⟨d, List.mem_cons_self, heq⟩
          · obtain ⟨x, hx, hperiod⟩ := ih hcs hd hc hlt'
            exact ⟨x, List.mem_cons_of_mem d hx, hperiod⟩
        · exact ih hcs hrest hc hlt

theorem countP_fired_eq_one
    (hready : ∀ last c, Follows last c → memory last < period c → ready c → fire last c = true)
    (hmono : ∀ last c, Follows last c → memory last ≤ period c)
    (hsorted : cs.Pairwise fun c c' => Follows (store c) c')
    (hfollows : ∀ c ∈ cs, Follows last c) {c : τ} (hc : c ∈ cs) (hlt : memory last < period c)
    (hr : ready c) :
    (fired fire store last cs).countP (fun d => decide (period d = period c)) = 1 := by
  apply le_antisymm (countP_fired_le_one hstore hlate hsorted hfollows _)
  obtain ⟨d, hd, hperiod⟩ := exists_mem_fired hstore hready hmono hsorted hfollows hc hlt hr
  exact List.countP_pos_iff.mpr ⟨d, hd, decide_eq_true hperiod⟩

end Late

end Polling

end Qing
