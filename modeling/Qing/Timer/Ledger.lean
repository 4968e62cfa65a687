import Qing.Timer.Refine

/-!
# Every run of the engine is a run of the ledger

`refines_step` takes the rules of `Step` one by one: most leave every life as it
is, the others move the one life their event is about. `ledger_of_run` is the
simulation that follows, and `life_of_run` what it says of a single timer.
-/

namespace Qing

variable {Fp : Type*} {countTick : UInt64}

section Ledger

variable {a : ℤ → Phase Fp} {e : Event Fp} {k : ℤ} {p : Phase Fp}

theorem ledger_step_quiet (he : e.subject? = none) : (ledger Fp countTick).step a e a := by
  simp [ledger, System.product, he]

theorem ledger_eq_of_quiet {a' : ℤ → Phase Fp} (h : (ledger Fp countTick).step a e a')
    (he : e.subject? = none) : a' = a := by
  simpa [ledger, System.product, he] using h

theorem ledger_step_move (he : e.subject? = some k) (hst : LifeStep countTick k (a k) e p) :
    (ledger Fp countTick).step a e (Function.update a k p) := by
  simp only [ledger, System.product, he]
  exact ⟨p, hst, rfl⟩

end Ledger

variable (countTick) in
theorem lifeStep_of_marked {q : Phase Fp} {k : ℤ} {timer : ETimer Fp} (t : ThreadId) (tab : Tab)
    (h : q.stored? = some timer) :
    ∃ p, LifeStep countTick k q (.marked t tab k) p ∧ p.stored? = some timer.mark ∧
      p.timer? = p.stored? ∧ ((∃ d, p = .firing d) ↔ ∃ d, q = .firing d) := by
  cases q with
  | absent | draft | gone => cases h
  | live d =>
      obtain rfl := Option.some.inj h
      exact ⟨.live d.mark, .markedLive t tab d, rfl, rfl, by simp⟩
  | firing d =>
      obtain rfl := Option.some.inj h
      exact ⟨.firing d.mark, .markedFiring t tab d, rfl, rfl, by simp⟩

section Steps

variable {t : ThreadId} {g g' : TimerThread Fp} {loc : ThreadId → Local Fp} {l' : Local Fp}
  {a : ℤ → Phase Fp} {e : Event Fp}

theorem Refines.quietCall (h : Refines g loc a) {c c' : Option (CallPc Fp)}
    (hg : g'.timers = g.timers ∧ g'.curTimerId = g.curTimerId ∧ g'.clock = g.clock)
    (hc : (loc t).call = c) (hop : c'.bind CallPc.opening? = c.bind CallPc.opening?)
    (hdr : c'.bind CallPc.drafting? = c.bind CallPc.drafting?) :
    Refines g' (Function.update loc t { loc t with call := c' }) a := by
  subst hc
  exact h.quiet hg.1 hg.2.1 (by rw [hg.2.2]; exact UInt64.le_refl g.clock) hop hdr
    (Local.firing?_congr rfl) (h.entry t)

theorem Refines.quietUpdate (h : Refines g loc a) (htimers : g'.timers = g.timers)
    (hcur : g'.curTimerId = g.curTimerId) (hclock : g.clock ≤ g'.clock)
    (hc : l'.call = (loc t).call) (hfi : l'.firing? = (loc t).firing?)
    (hen : ∀ tab k, l'.standing? = some (tab, k) → ((g.timers tab).find? k).isSome) :
    Refines g' (Function.update loc t l') a :=
  h.quiet htimers hcur hclock (Local.opening?_congr hc) (Local.drafting?_congr hc) hfi hen

/-- Every step moves the ledger by the event it leaves. -/
theorem refines_step (h : Refines g loc a) (hlocks : LocksHeld ⟨g, loc⟩)
    (hst : Step countTick t g (loc t) g' l' e) :
    ∃ a', (ledger Fp countTick).step a e a' ∧ Refines g' (Function.update loc t l') a' := by
  cases hst with
  | take unit runOnce i fp hcall hmax =>
      exact ⟨a, ledger_step_quiet rfl, h.take rfl rfl⟩
  | openTimer unit i timer now hc hclock =>
      have hop : (loc t).opening? = some timer := by rw [Local.opening?, hc]; rfl
      obtain ⟨habs, hmark⟩ := h.opening t timer hop
      refine ⟨_, ledger_step_move (k := timer.timerId) ?_ ?_,
        h.openTimer hop (ETimer.opened_timerId unit timer i timer.fp now)
          (ETimer.opened_startclock unit timer i timer.fp now) hclock rfl rfl rfl⟩
      · simp [Event.subject?]
      · rw [habs]
        refine .opened t _ _ (by simp) (by simp [hmark]) (by simp) ?_
        exact ETimer.opened_interval unit timer i timer.fp now
  | tryLockTakes tab timer g₁ hc hlock =>
      exact ⟨a, ledger_step_quiet rfl, h.quietCall (TimerThread.lock_fields hlock) hc rfl rfl⟩
  | tryLockFails tab timer hc =>
      exact ⟨a, ledger_step_quiet rfl, h.quietCall ⟨rfl, rfl, rfl⟩ hc rfl rfl⟩
  | insert tab timer hc =>
      have hdr : (loc t).drafting? = some timer := by rw [Local.drafting?, hc]; rfl
      refine ⟨_, ledger_step_move rfl ?_, h.insert hdr rfl rfl rfl⟩
      rw [h.drafting t timer hdr]
      exact .inserted t tab timer rfl
  | unlockInserted tab timer g₁ hc hlock =>
      exact ⟨a, ledger_step_quiet rfl, h.quietCall (TimerThread.unlock_fields hlock) hc rfl rfl⟩
  | returnId timer hc =>
      exact ⟨a, ledger_step_quiet rfl, h.quietCall ⟨rfl, rfl, rfl⟩ hc rfl rfl⟩
  | callUnRegister timerId hcall =>
      have hc : (loc t).call = none := Local.call_of_canCall hcall
      exact ⟨a, ledger_step_quiet rfl, h.quietCall ⟨rfl, rfl, rfl⟩ hc rfl rfl⟩
  | lockUnRegister tab timerId g₁ hc hlock =>
      exact ⟨a, ledger_step_quiet rfl, h.quietCall (TimerThread.lock_fields hlock) hc rfl rfl⟩
  | find tab timerId hc hfound =>
      obtain ⟨timer, hfind⟩ := Option.isSome_iff_exists.mp hfound
      have hop : ({ loc t with call := some (.leaving tab timerId true) } : Local Fp).opening? =
          (loc t).opening? := by
        simp [Local.opening?, hc, CallPc.opening?]
      have hdr : ({ loc t with call := some (.leaving tab timerId true) } : Local Fp).drafting? =
          (loc t).drafting? := by
        simp [Local.drafting?, hc, CallPc.drafting?]
      have hk : (a timerId).stored? = some timer := h.stored_of_find hfind
      obtain ⟨p, hstep, hp, hp', hfi⟩ := lifeStep_of_marked countTick t tab hk
      exact ⟨_, ledger_step_move rfl hstep, h.mark hfind hop hdr rfl hp hp' hfi⟩
  | miss tab timerId hc hfound =>
      exact ⟨a, ledger_step_quiet rfl, h.quietCall ⟨rfl, rfl, rfl⟩ hc rfl rfl⟩
  | leaveReturn tab timerId found g₁ hc hlock hend =>
      exact ⟨a, ledger_step_quiet rfl, h.quietCall (TimerThread.unlock_fields hlock) hc rfl rfl⟩
  | leaveMissed timerId g₁ hc hlock =>
      exact ⟨a, ledger_step_quiet rfl, h.quietCall (TimerThread.unlock_fields hlock) hc rfl rfl⟩
  | callUpdate hc hu =>
      refine ⟨a, ledger_step_quiet rfl,
        h.quietUpdate rfl rfl (UInt64.le_refl g.clock) rfl ?_ ?_⟩
      · simp [Local.firing?, hu]
      · simp [Local.standing?]
  | lockUpdate tab g₁ hc hu hlock =>
      obtain ⟨htimers, hcur, hclock⟩ := TimerThread.lock_fields hlock
      refine ⟨a, ledger_step_quiet rfl,
        h.quietUpdate htimers hcur (by rw [hclock]; exact UInt64.le_refl g.clock) rfl ?_ ?_⟩
      · simp [Local.firing?, hu]
      · intro tab' k hk
        obtain ⟨rfl, hfirst⟩ := Local.of_standing?_looping rfl hk
        exact OrderedMap.first?_isSome_find? hfirst
  | endFirst g₁ hc hu hlock | endSecond g₁ hc hu hlock =>
      obtain ⟨htimers, hcur, hclock⟩ := TimerThread.unlock_fields hlock
      refine ⟨a, ledger_step_quiet rfl,
        h.quietUpdate htimers hcur (by rw [hclock]; exact UInt64.le_refl g.clock) rfl ?_ ?_⟩
      · simp [Local.firing?, hu]
      · simp [Local.standing?]
  | erase tab k timer hc hu hfind hmark =>
      refine ⟨_, ledger_step_move rfl ?_, h.erase hlocks hfind hu rfl rfl⟩
      rw [h.live_of_looping hlocks hu hfind]
      exact .erased t tab timer hmark
  | fire tab k timer now hc hu hfind hmark hclock hdue =>
      refine ⟨_, ledger_step_move rfl ?_, h.fire hfind hu hclock rfl rfl⟩
      rw [h.live_of_looping hlocks hu hfind]
      have hstart := (h.stored_eq (h.stored_of_find hfind)).2
      exact .fired t tab timer now hmark (UInt64.le_trans hstart hclock) hdue
  | skip tab k timer now hc hu hfind hmark hclock hdue =>
      have hlive := h.live_of_looping hlocks hu hfind
      have hat : (loc t).standing? = some (tab, k) := by simp [Local.standing?, hu]
      refine ⟨Function.update a k (.live timer), ledger_step_move rfl ?_, ?_⟩
      · rw [hlive]
        exact .skipped t tab timer now hmark
      · rw [← hlive, Function.update_eq_self]
        refine h.quietUpdate rfl rfl hclock rfl (by simp [Local.firing?, hu]) ?_
        intro tab' j hj
        obtain ⟨rfl, hnext⟩ := Local.of_standing?_looping rfl hj
        exact OrderedMap.next?_isSome_find? hnext
  | callbackReturn tab k hc hu =>
      refine ⟨a, ledger_step_quiet rfl,
        h.quietUpdate rfl rfl (UInt64.le_refl g.clock) rfl ?_ ?_⟩
      · simp [Local.firing?, hu]
      · intro tab' j hj
        apply h.entry t tab' j
        simpa [Local.standing?, hu] using hj
  | rearm tab k timer now hc hu hfind hclock =>
      refine ⟨_, ledger_step_move rfl ?_, h.rearm hlocks hfind hu hclock rfl rfl⟩
      rw [h.firing_of_rearming hu hfind]
      cases honce : timer.runOnce with
      | true => exact .expired t tab timer now honce
      | false => exact .rearmed t tab timer now honce

end Steps

theorem Refines.init :
    Refines (TimerThread.init : TimerThread Fp) (fun _ => {}) (fun _ => .absent) where
  stored _ _ := by simp [Phase.stored?, TimerThread.init]
  disjoint _ _ _ hs _ := by simp [TimerThread.init] at hs
  keyed := nofun
  started := nofun
  nonneg := Int.le_refl 0
  known _ := Or.inl rfl
  opening := nofun
  drafting := nofun
  claimed := nofun
  unique := nofun
  firing _ := by simp [Local.firing?]
  entry := nofun

/-- The engine steps as the ledger does. -/
theorem ledger_simulation : System.Simulation (engineSystem Fp countTick) (ledger Fp countTick)
    fun s a => LocksHeld s ∧ Refines s.engine s.loc a where
  init := by
    rintro s rfl
    exact ⟨fun _ => .absent, fun _ => rfl, fun _ _ => rfl, Refines.init⟩
  step := by
    rintro s a e s' ⟨hlocks, h⟩ hstep
    obtain ⟨t, g', l', hst, rfl⟩ := step_of_system hstep
    obtain ⟨a', ha', h'⟩ := refines_step h hlocks hst
    exact ⟨a', ha', hlocks.step hstep, h'⟩

theorem ledger_of_run {tr : List (Event Fp)} {s : State Fp}
    (h : (engineSystem Fp countTick).Run tr s) :
    ∃ a, (ledger Fp countTick).Run tr a ∧ LocksHeld s ∧ Refines s.engine s.loc a :=
  h.simulate ledger_simulation

/-- The events of a run that are about one timer are a life. -/
theorem life_of_run {tr : List (Event Fp)} {s : State Fp}
    (h : (engineSystem Fp countTick).Run tr s) (id : ℤ) :
    ∃ p, (lifeSystem Fp countTick id).Run (history tr id) p := by
  obtain ⟨a, ha, -⟩ := ledger_of_run h
  exact ⟨a id, ha.component id⟩

end Qing
