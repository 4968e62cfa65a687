import Qing.Timer.Account

/-!
# Cancellation is final

`UnRegister` looks into one table after the other, under one lock at a time, while
`Update` may be anywhere. `Cancelling t id` is what it has found out so far about a
timer that was inserted before it began, and no step of any thread unmakes it:
once the call returns, the timer is gone or its entry is marked, and such a timer
is never fired again.
-/

namespace Qing

variable {Fp : Type*} {countTick : UInt64}

/-- What the search of `UnRegister` for `id` has found out at a position, `p` being
the life of the timer. -/
def CallPc.Searched (g : TimerThread Fp) (p : Phase Fp) (id : ℤ) : CallPc Fp → Prop
  | locking .timers1 k | finding .timers1 k | leaving .timers2 k false =>
      k = id → (g.timers .timers2).find? id = none
  | leaving _ k _ => k = id → p.Cancelled
  | _ => True

/-- The timer `id` is inserted, and thread `t` has not missed it. -/
structure Cancelling (t : ThreadId) (id : ℤ) (s : State Fp) (a : ℤ → Phase Fp) : Prop where
  settled : (a id).Settled
  searched : ∀ c, (s.loc t).call = some c → c.Searched s.engine (a id) id

section Step

variable {t : ThreadId} {g g' : TimerThread Fp} {l l' : Local Fp} {e : Event Fp} {id : ℤ}

theorem Step.find_none (hst : Step countTick t g l g' l' e) {tab : Tab}
    (hdr : ∀ timer, l.drafting? = some timer → timer.timerId ≠ id)
    (hnone : (g.timers tab).find? id = none) : (g'.timers tab).find? id = none := by
  cases hst with
  | take | openTimer | tryLockFails | returnId | callUnRegister | miss | callUpdate | fire
  | skip | callbackReturn => exact hnone
  | tryLockTakes _ _ _ _ hlock | lockUnRegister _ _ _ _ hlock | lockUpdate _ _ _ _ hlock =>
      rw [(TimerThread.lock_fields hlock).1]
      exact hnone
  | unlockInserted _ _ _ _ hlock | leaveReturn _ _ _ _ _ hlock | leaveMissed _ _ _ hlock
  | endFirst _ _ _ hlock | endSecond _ _ _ hlock =>
      rw [(TimerThread.unlock_fields hlock).1]
      exact hnone
  | insert tab' timer hc =>
      have hne : timer.timerId ≠ id := hdr timer (by simp [Local.drafting?, hc, CallPc.drafting?])
      rw [TimerThread.find?_insert, if_neg (fun hcase => hne hcase.2.symm)]
      exact hnone
  | find tab' k =>
      rw [TimerThread.find?_mark]
      split_ifs with hcase
      · rw [← hcase.1, ← hcase.2, hnone]
        rfl
      · exact hnone
  | erase tab' k =>
      rw [TimerThread.find?_erase]
      split_ifs
      · rfl
      · exact hnone
  | rearm tab' k timer now =>
      have hrearm : ((({ g with clock := now } : TimerThread Fp).rearm tab' k now).timers
          tab).find? id = none := by
        rw [TimerThread.find?_rearm]
        split_ifs with hcase
        · rw [← hcase.1, ← hcase.2, hnone]
          rfl
        · exact hnone
      cases timer.runOnce with
      | true =>
          rw [if_pos rfl, TimerThread.find?_erase]
          split_ifs
          · rfl
          · exact hrearm
      | false => exact hrearm

end Step

section Cancelling

variable {t : ThreadId} {id : ℤ} {s s' : State Fp} {a a' : ℤ → Phase Fp} {e : Event Fp}

theorem CallPc.Searched.mono {g g' : TimerThread Fp} {p p' : Phase Fp} {c : CallPc Fp}
    (h : c.Searched g p id)
    (hnone : (g.timers .timers2).find? id = none → (g'.timers .timers2).find? id = none)
    (hcan : p.Cancelled → p'.Cancelled) : c.Searched g' p' id := by
  cases c with
  | opening | tryLock | inserting | unlocking | returning => trivial
  | locking tab k =>
      cases tab with
      | timers1 => exact fun hk => hnone (h hk)
      | timers2 => trivial
  | finding tab k =>
      cases tab with
      | timers1 => exact fun hk => hnone (h hk)
      | timers2 => trivial
  | leaving tab k found =>
      cases tab with
      | timers1 => exact fun hk => hcan (h hk)
      | timers2 =>
          cases found with
          | true => exact fun hk => hcan (h hk)
          | false => exact fun hk => hnone (h hk)

theorem Refines.cancelled_of_find_none {g : TimerThread Fp} {loc : ThreadId → Local Fp}
    (h : Refines g loc a) (hset : (a id).Settled)
    (hnone : ∀ tab, (g.timers tab).find? id = none) : (a id).Cancelled := by
  refine ⟨hset, fun timer hs => ?_⟩
  obtain ⟨tab, hfind⟩ := (h.stored id timer).mp hs
  rw [hnone tab] at hfind
  cases hfind

theorem Step.searched {g g' : TimerThread Fp} {l l' : Local Fp} {p p' : Phase Fp}
    (hst : Step countTick t g l g' l' e) (h : ∀ c, l.call = some c → c.Searched g p id)
    (hnone : ∀ tab, (g.timers tab).find? id = none → (g'.timers tab).find? id = none)
    (hcan : p.Cancelled → p'.Cancelled)
    (hmarked : e.subject? = some id → e.isMarked = true → p'.Cancelled)
    (hmissed : (∀ tab, (g'.timers tab).find? id = none) → p'.Cancelled) :
    ∀ c, l'.call = some c → c.Searched g' p' id := by
  intro c hc'
  cases hst with
  | take | openTimer | tryLockTakes | tryLockFails | insert | unlockInserted | callUnRegister =>
      obtain rfl := Option.some.inj hc'
      trivial
  | returnId | leaveReturn => cases hc'
  | lockUnRegister tab k g₁ hc =>
      obtain rfl := Option.some.inj hc'
      cases tab with
      | timers1 => exact (h _ hc).mono (hnone .timers2) hcan
      | timers2 => trivial
  | find tab k =>
      obtain rfl := Option.some.inj hc'
      have hk : k = id → p'.Cancelled := by
        rintro rfl
        exact hmarked rfl rfl
      cases tab <;> exact hk
  | miss tab k hc hfound =>
      obtain rfl := Option.some.inj hc'
      cases tab with
      | timers1 =>
          rintro rfl
          refine hmissed fun tab => ?_
          cases tab with
          | timers1 => exact hfound
          | timers2 => exact h _ hc rfl
      | timers2 =>
          rintro rfl
          exact hfound
  | leaveMissed k g₁ hc =>
      obtain rfl := Option.some.inj hc'
      exact fun hk => hnone .timers2 (h _ hc hk)
  | callUpdate hc | lockUpdate _ _ hc | endFirst _ hc | endSecond _ hc | erase _ _ _ hc
  | fire _ _ _ _ hc | skip _ _ _ _ hc | callbackReturn _ _ hc | rearm _ _ _ _ hc =>
      have hnone' : l.call = some c := hc'
      rw [hc] at hnone'
      cases hnone'

/-- The two systems whose joint steps the search is followed along. -/
abbrev engineLedger (Fp : Type*) (countTick : UInt64) :
    System (State Fp × (ℤ → Phase Fp)) (Event Fp) :=
  System.paired (engineSystem Fp countTick) (ledger Fp countTick)
    fun s a => LocksHeld s ∧ Refines s.engine s.loc a

theorem Cancelling.step (h : Cancelling t id s a) (href : Refines s.engine s.loc a)
    (hst : (engineLedger Fp countTick).step (s, a) e (s', a')) : Cancelling t id s' a' := by
  obtain ⟨hengine, hledger, -, href'⟩ := hst
  have hset : (a' id).Settled := by
    rcases System.product_step hledger id with ⟨-, heq⟩ | ⟨-, hlife⟩
    · exact (congrArg Phase.Settled heq).mpr h.settled
    · exact hlife.settled h.settled
  have hcan : (a id).Cancelled → (a' id).Cancelled := by
    rcases System.product_step hledger id with ⟨-, heq⟩ | ⟨-, hlife⟩
    · exact (congrArg Phase.Cancelled heq).mpr
    · exact fun hc => (hlife.cancelled hc).1
  refine ⟨hset, ?_⟩
  obtain ⟨u, g', l', hstep, rfl⟩ := step_of_system hengine
  have hnone : ∀ tab, (s.engine.timers tab).find? id = none →
      (g'.timers tab).find? id = none := by
    intro tab
    apply hstep.find_none
    rintro timer hdr rfl
    have hsettled := h.settled
    rw [href.drafting u timer hdr] at hsettled
    exact hsettled
  intro c hc
  rcases eq_or_ne t u with rfl | hne
  · rw [State.put_loc_self] at hc
    refine hstep.searched h.searched hnone hcan ?_ ?_ c hc
    · intro he hm
      rcases System.product_step hledger id with ⟨hne, -⟩ | ⟨-, hlife⟩
      · exact absurd he hne
      · exact hlife.cancelled_of_marked hm
    · exact href'.cancelled_of_find_none hset
  · rw [State.put_loc_of_ne hne] at hc
    exact (h.searched c hc).mono (hnone .timers2) hcan

theorem Cancelling.cancelled (h : Cancelling t id s a)
    (hst : (engineLedger Fp countTick).step (s, a) (.unRegisterReturned t id) (s', a')) :
    (a' id).Cancelled := by
  obtain ⟨hengine, hledger, -⟩ := hst
  have hsame : a' = a := ledger_eq_of_quiet hledger rfl
  rw [hsame]
  obtain ⟨u, g', l', hstep, rfl⟩ := step_of_system hengine
  cases hstep with
  | leaveReturn tab k found g₁ hc hlock hend =>
      have hsearched := h.searched _ hc
      cases tab with
      | timers1 => exact hsearched rfl
      | timers2 =>
          obtain rfl : found = true := by simpa using hend
          exact hsearched rfl

theorem Cancelling.start (hset : (a id).Settled)
    (hst : (engineLedger Fp countTick).step (s, a) (.unRegisterCalled t id) (s', a')) :
    Cancelling t id s' a' := by
  obtain ⟨hengine, hledger, -⟩ := hst
  have hsame : a' = a := ledger_eq_of_quiet hledger rfl
  refine ⟨by rwa [hsame], ?_⟩
  obtain ⟨u, g', l', hstep, rfl⟩ := step_of_system hengine
  cases hstep with
  | callUnRegister =>
      intro c hc
      rw [State.put_loc_self] at hc
      obtain rfl := Option.some.inj hc
      trivial

theorem Cancelling.path {q q' : State Fp × (ℤ → Phase Fp)} {tr : List (Event Fp)}
    (hpath : (engineLedger Fp countTick).Path q tr q') (hq : Refines q.1.engine q.1.loc q.2)
    (h : Cancelling t id q.1 q.2) : Cancelling t id q'.1 q'.2 := by
  have hboth := hpath.preserve (M := engineLedger Fp countTick)
    (I := fun q => Refines q.1.engine q.1.loc q.2 ∧ Cancelling t id q.1 q.2)
    (fun q e q' hq hst => ⟨hst.2.2.2, hq.2.step hq.1 hst⟩) ⟨hq, h⟩
  exact hboth.2

end Cancelling

/-- Once `UnRegister` has returned for a timer that was inserted before it was
called, the timer is never fired again. -/
theorem cancellation_is_final {pre mid post : List (Event Fp)} {t : ThreadId} {id : ℤ}
    {s : State Fp}
    (h : (engineSystem Fp countTick).Run
      (pre ++ .unRegisterCalled t id :: (mid ++ .unRegisterReturned t id :: post)) s)
    (hins : ∃ e ∈ history pre id, e.isInserted = true) :
    ∀ u tab now, .fired u tab id now ∉ post := by
  obtain ⟨a, hrun, -⟩ := h.paired ledger_simulation
  obtain ⟨q₁, q₂, hpre, hcalled, hrest⟩ := hrun.cut
  obtain ⟨q₃, hmid, hrest⟩ := hrest.split
  rw [← List.singleton_append] at hrest
  obtain ⟨q₄, hreturned, hpost⟩ := hrest.split
  have hset : (q₁.2 id).Settled := settled_of_inserted (hpre.snd.component id) hins
  have hstart : Cancelling t id q₂.1 q₂.2 := Cancelling.start hset hcalled
  have hend : Cancelling t id q₃.1 q₃.2 := hstart.path hmid hcalled.2.2.2
  have hcan : (q₄.2 id).Cancelled := hend.cancelled hreturned.step_of_single
  have hquiet := (not_fired_of_cancelled (hpost.snd.component id) hcan).2
  intro u tab now hmem
  cases hquiet _ (List.mem_filter.mpr ⟨hmem, by simp [Event.subject?]⟩)

/-- The cancelled timer of `sampleActs` is not fired after the call that cancels
it, late as the clock may be. -/
theorem cancellation_is_final_sample :
    .fired 0 .timers2 2 5000000 ∉ sampleTrace.drop 21 := by
  have hrun : (engineSystem Unit 1000000).Run (sampleTrace.take 17 ++ .unRegisterCalled 0 2 ::
      ((sampleTrace.drop 18).take 2 ++ .unRegisterReturned 0 2 :: sampleTrace.drop 21))
      sampleState := run_sampleTrace
  have hins : ∃ e ∈ history (sampleTrace.take 17) 2, e.isInserted = true :=
    ⟨.inserted 0 .timers2 sampleTimer, List.mem_of_getElem? (i := 1) rfl, rfl⟩
  exact cancellation_is_final hrun hins 0 .timers2 5000000

end Qing
