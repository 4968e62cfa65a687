import Qing.Timer.Engine

/-!
# What one step can do

`Step` lists the moves of a thread as rules, one for each way through the code
between two positions, with everything a rule needs of the state before. Every
later induction on a run splits on these rules instead of unfolding `State.next`;
`step_of_system` connects the two.
-/

namespace Qing

variable {Fp : Type*}

/-- The moves of thread `t`, standing at `l`, with the engine at `g`. -/
inductive Step (countTick : UInt64) (t : ThreadId) (g : TimerThread Fp) (l : Local Fp) :
    TimerThread Fp → Local Fp → Event Fp → Prop
  | take (unit : IntervalUnit) (runOnce : Bool) (i : Int32) (fp : Fp)
      (hcall : l.canCall = true) (hmax : g.curTimerId < intMax) :
      Step countTick t g l { g with curTimerId := g.curTimerId + 1 }
        { l with
          call := some (.opening unit i (ETimer.declare runOnce (g.curTimerId + 1) fp)) }
        (.took t (g.curTimerId + 1))
  | openTimer (unit : IntervalUnit) (i : Int32) (timer : ETimer Fp) (now : UInt64)
      (hc : l.call = some (.opening unit i timer)) (hclock : g.clock ≤ now) :
      Step countTick t g l { g with clock := now }
        { l with call := some (.tryLock .timers2 (timer.opened unit i timer.fp now)) }
        (.opened t (timer.opened unit i timer.fp now) (intervalUs unit i))
  | tryLockTakes (tab : Tab) (timer : ETimer Fp) (g' : TimerThread Fp)
      (hc : l.call = some (.tryLock tab timer)) (hlock : g.lock t tab = some g') :
      Step countTick t g l g' { l with call := some (.inserting tab timer) } .internal
  | tryLockFails (tab : Tab) (timer : ETimer Fp)
      (hc : l.call = some (.tryLock tab timer)) :
      Step countTick t g l g { l with call := some (.tryLock tab.other timer) } .internal
  | insert (tab : Tab) (timer : ETimer Fp) (hc : l.call = some (.inserting tab timer)) :
      Step countTick t g l (g.insert tab timer) { l with call := some (.unlocking tab timer) }
        (.inserted t tab timer)
  | unlockInserted (tab : Tab) (timer : ETimer Fp) (g' : TimerThread Fp)
      (hc : l.call = some (.unlocking tab timer)) (hlock : g.unlock t tab = some g') :
      Step countTick t g l g' { l with call := some (.returning timer) } .internal
  | returnId (timer : ETimer Fp) (hc : l.call = some (.returning timer)) :
      Step countTick t g l g { l with call := none } (.registerReturned t timer g.curTimerId)
  | callUnRegister (timerId : ℤ) (hcall : l.canCall = true) :
      Step countTick t g l g { l with call := some (.locking .timers2 timerId) }
        (.unRegisterCalled t timerId)
  | lockUnRegister (tab : Tab) (timerId : ℤ) (g' : TimerThread Fp)
      (hc : l.call = some (.locking tab timerId)) (hlock : g.lock t tab = some g') :
      Step countTick t g l g' { l with call := some (.finding tab timerId) } .internal
  | find (tab : Tab) (timerId : ℤ) (hc : l.call = some (.finding tab timerId))
      (hfound : ((g.timers tab).find? timerId).isSome) :
      Step countTick t g l (g.mark tab timerId)
        { l with call := some (.leaving tab timerId true) } (.marked t tab timerId)
  | miss (tab : Tab) (timerId : ℤ) (hc : l.call = some (.finding tab timerId))
      (hfound : (g.timers tab).find? timerId = none) :
      Step countTick t g l g { l with call := some (.leaving tab timerId false) } .internal
  | leaveReturn (tab : Tab) (timerId : ℤ) (found : Bool) (g' : TimerThread Fp)
      (hc : l.call = some (.leaving tab timerId found)) (hlock : g.unlock t tab = some g')
      (hend : found = true ∨ tab = .timers1) :
      Step countTick t g l g' { l with call := none } (.unRegisterReturned t timerId)
  | leaveMissed (timerId : ℤ) (g' : TimerThread Fp)
      (hc : l.call = some (.leaving .timers2 timerId false))
      (hlock : g.unlock t .timers2 = some g') :
      Step countTick t g l g' { l with call := some (.locking .timers1 timerId) } .internal
  | callUpdate (hc : l.call = none) (hu : l.update = .outside) :
      Step countTick t g l g { l with update := .locking .timers1 } (.updateCalled t)
  | lockUpdate (tab : Tab) (g' : TimerThread Fp) (hc : l.call = none)
      (hu : l.update = .locking tab) (hlock : g.lock t tab = some g') :
      Step countTick t g l g' { l with update := .looping tab (g.timers tab).first? } .internal
  | endFirst (g' : TimerThread Fp) (hc : l.call = none)
      (hu : l.update = .looping .timers1 none) (hlock : g.unlock t .timers1 = some g') :
      Step countTick t g l g' { l with update := .locking .timers2 } .internal
  | endSecond (g' : TimerThread Fp) (hc : l.call = none)
      (hu : l.update = .looping .timers2 none) (hlock : g.unlock t .timers2 = some g') :
      Step countTick t g l g' { l with update := .outside } (.updateReturned t)
  | erase (tab : Tab) (k : ℤ) (timer : ETimer Fp) (hc : l.call = none)
      (hu : l.update = .looping tab (some k)) (hfind : (g.timers tab).find? k = some timer)
      (hmark : timer.needDelete = true) :
      Step countTick t g l (g.erase tab k)
        { l with update := .looping tab ((g.timers tab).next? k) } (.erased t tab k)
  | fire (tab : Tab) (k : ℤ) (timer : ETimer Fp) (now : UInt64) (hc : l.call = none)
      (hu : l.update = .looping tab (some k)) (hfind : (g.timers tab).find? k = some timer)
      (hmark : timer.needDelete = false) (hclock : g.clock ≤ now)
      (hdue : timer.due countTick now = true) :
      Step countTick t g l { g with clock := now } { l with update := .callback tab k }
        (.fired t tab k now)
  | skip (tab : Tab) (k : ℤ) (timer : ETimer Fp) (now : UInt64) (hc : l.call = none)
      (hu : l.update = .looping tab (some k)) (hfind : (g.timers tab).find? k = some timer)
      (hmark : timer.needDelete = false) (hclock : g.clock ≤ now)
      (hdue : timer.due countTick now = false) :
      Step countTick t g l { g with clock := now }
        { l with update := .looping tab ((g.timers tab).next? k) } (.skipped t tab k now)
  | callbackReturn (tab : Tab) (k : ℤ) (hc : l.call = none)
      (hu : l.update = .callback tab k) :
      Step countTick t g l g { l with update := .rearming tab k } .internal
  | rearm (tab : Tab) (k : ℤ) (timer : ETimer Fp) (now : UInt64) (hc : l.call = none)
      (hu : l.update = .rearming tab k) (hfind : (g.timers tab).find? k = some timer)
      (hclock : g.clock ≤ now) :
      Step countTick t g l
        (if timer.runOnce then (({ g with clock := now }).rearm tab k now).erase tab k
          else ({ g with clock := now }).rearm tab k now)
        { l with update := .looping tab ((g.timers tab).next? k) }
        (.rearmed t tab k now timer.runOnce)

theorem TimerThread.getClock_eq_some_iff {now : UInt64} {g g' : TimerThread Fp} :
    g.getClock now = some g' ↔ g.clock ≤ now ∧ { g with clock := now } = g' := by
  unfold getClock
  split_ifs with h <;> simp [h]

variable {countTick : UInt64} {t : ThreadId} {g g' : TimerThread Fp} {l l' : Local Fp}
  {e : Event Fp}

theorem step_of_callNext {c : CallPc Fp} {now : UInt64} {acquired : Bool}
    {c' : Option (CallPc Fp)} (hc : l.call = some c)
    (h : c.next t now acquired g = some (g', c', e)) :
    Step countTick t g l g' { l with call := c' } e := by
  cases c with
  | opening unit i timer =>
      simp only [CallPc.next, Option.map_eq_some_iff, Prod.mk.injEq] at h
      obtain ⟨g₁, hclock, rfl, rfl, rfl⟩ := h
      obtain ⟨hle, rfl⟩ := TimerThread.getClock_eq_some_iff.mp hclock
      exact .openTimer unit i timer now hc hle
  | tryLock tab timer =>
      simp only [CallPc.next] at h
      split_ifs at h with hacq
      · simp only [Option.map_eq_some_iff, Prod.mk.injEq] at h
        obtain ⟨g₁, hlock, rfl, rfl, rfl⟩ := h
        exact .tryLockTakes tab timer _ hc hlock
      · obtain ⟨rfl, rfl, rfl⟩ := by simpa using h
        exact .tryLockFails tab timer hc
  | inserting tab timer =>
      obtain ⟨rfl, rfl, rfl⟩ := by simpa [CallPc.next] using h
      exact .insert tab timer hc
  | unlocking tab timer =>
      simp only [CallPc.next, Option.map_eq_some_iff, Prod.mk.injEq] at h
      obtain ⟨g₁, hlock, rfl, rfl, rfl⟩ := h
      exact .unlockInserted tab timer _ hc hlock
  | returning timer =>
      obtain ⟨rfl, rfl, rfl⟩ := by simpa [CallPc.next] using h
      exact .returnId timer hc
  | locking tab timerId =>
      simp only [CallPc.next, Option.map_eq_some_iff, Prod.mk.injEq] at h
      obtain ⟨g₁, hlock, rfl, rfl, rfl⟩ := h
      exact .lockUnRegister tab timerId _ hc hlock
  | finding tab timerId =>
      simp only [CallPc.next] at h
      split_ifs at h with hfound
      · obtain ⟨rfl, rfl, rfl⟩ := by simpa using h
        exact .find tab timerId hc hfound
      · obtain ⟨rfl, rfl, rfl⟩ := by simpa using h
        exact .miss tab timerId hc (by simpa using hfound)
  | leaving tab timerId found =>
      simp only [CallPc.next, Option.map_eq_some_iff] at h
      obtain ⟨g₁, hlock, h⟩ := h
      split_ifs at h with hend
      · obtain ⟨rfl, rfl, rfl⟩ := by simpa using h
        exact .leaveReturn tab timerId found _ hc hlock (by simpa using hend)
      · obtain ⟨rfl, rfl, rfl⟩ := by simpa using h
        cases tab with
        | timers1 => simp at hend
        | timers2 =>
            obtain rfl : found = false := by simpa using hend
            exact .leaveMissed timerId _ hc hlock

theorem step_of_updateNext {now : UInt64} {u' : UpdatePc} (hc : l.call = none)
    (h : l.update.next countTick t now g = some (g', u', e)) :
    Step countTick t g l g' { l with update := u' } e := by
  cases hu : l.update with
  | outside => simp [UpdatePc.next, hu] at h
  | locking tab =>
      simp only [UpdatePc.next, hu, Option.map_eq_some_iff, Prod.mk.injEq] at h
      obtain ⟨g₁, hlock, rfl, rfl, rfl⟩ := h
      have htimers : g₁.timers = g.timers := by
        obtain ⟨m, -, rfl⟩ := Option.map_eq_some_iff.mp hlock
        rfl
      rw [htimers]
      exact .lockUpdate tab _ hc hu hlock
  | looping tab it =>
      cases it with
      | none =>
          simp only [UpdatePc.next, hu, Option.map_eq_some_iff] at h
          obtain ⟨g₁, hlock, h⟩ := h
          cases tab with
          | timers1 =>
              obtain ⟨rfl, rfl, rfl⟩ := by simpa using h
              exact .endFirst _ hc hu hlock
          | timers2 =>
              obtain ⟨rfl, rfl, rfl⟩ := by simpa using h
              exact .endSecond _ hc hu hlock
      | some k =>
          simp only [UpdatePc.next, hu, Option.bind_eq_some_iff] at h
          obtain ⟨timer, hfind, h⟩ := h
          split_ifs at h with hmark hdue
          · obtain ⟨rfl, rfl, rfl⟩ := by simpa using h
            exact .erase tab k timer hc hu hfind hmark
          · rw [Bool.not_eq_true] at hmark
            obtain ⟨g₁, hclock, h⟩ := Option.map_eq_some_iff.mp h
            obtain ⟨hle, rfl⟩ := TimerThread.getClock_eq_some_iff.mp hclock
            obtain ⟨rfl, rfl, rfl⟩ := by simpa using h
            exact .fire tab k timer now hc hu hfind hmark hle hdue
          · rw [Bool.not_eq_true] at hmark hdue
            obtain ⟨g₁, hclock, h⟩ := Option.map_eq_some_iff.mp h
            obtain ⟨hle, rfl⟩ := TimerThread.getClock_eq_some_iff.mp hclock
            obtain ⟨rfl, rfl, rfl⟩ := by simpa using h
            exact .skip tab k timer now hc hu hfind hmark hle hdue
  | callback tab k => simp [UpdatePc.next, hu] at h
  | rearming tab k =>
      simp only [UpdatePc.next, hu, Option.bind_eq_some_iff, Option.map_eq_some_iff] at h
      obtain ⟨timer, hfind, g₁, hclock, h⟩ := h
      obtain ⟨hle, rfl⟩ := TimerThread.getClock_eq_some_iff.mp hclock
      obtain ⟨rfl, rfl, rfl⟩ := by simpa only [Prod.mk.injEq] using h
      exact .rearm tab k timer now hc hu hfind hle

theorem step_of_localNext {a : Act Fp} (h : l.next countTick t g a = some (g', l', e)) :
    Step countTick t g l g' l' e := by
  cases a with
  | register unit runOnce i fp =>
      simp only [Local.next] at h
      split_ifs at h with hguard
      obtain ⟨rfl, rfl, rfl⟩ := by simpa only [Option.some.injEq, Prod.mk.injEq] using h
      exact .take unit runOnce i fp hguard.1 hguard.2
  | unRegister timerId =>
      simp only [Local.next] at h
      split_ifs at h with hcall
      obtain ⟨rfl, rfl, rfl⟩ := by simpa only [Option.some.injEq, Prod.mk.injEq] using h
      exact .callUnRegister timerId hcall
  | update =>
      cases hc : l.call with
      | some c => simp [Local.next, hc] at h
      | none =>
          cases hu : l.update with
          | outside =>
              obtain ⟨rfl, rfl, rfl⟩ := by simpa [Local.next, hc, hu] using h
              have hstep : Step countTick t g l g { l with update := .locking .timers1 }
                  (.updateCalled t) := .callUpdate hc hu
              simpa [hc] using hstep
          | locking | looping | callback | rearming => simp [Local.next, hc, hu] at h
  | callbackReturn =>
      cases hc : l.call with
      | some c => simp [Local.next, hc] at h
      | none =>
          cases hu : l.update with
          | callback tab k =>
              obtain ⟨rfl, rfl, rfl⟩ := by simpa [Local.next, hc, hu] using h
              have hstep : Step countTick t g l g { l with update := .rearming tab k }
                  .internal := .callbackReturn tab k hc hu
              simpa [hc] using hstep
          | outside | locking | looping | rearming => simp [Local.next, hc, hu] at h
  | run now acquired =>
      cases hc : l.call with
      | some c =>
          simp only [Local.next, hc, Option.map_eq_some_iff, Prod.mk.injEq] at h
          obtain ⟨⟨g₁, c', e₁⟩, hnext, rfl, rfl, rfl⟩ := h
          exact step_of_callNext hc hnext
      | none =>
          simp only [Local.next, hc, Option.map_eq_some_iff, Prod.mk.injEq] at h
          obtain ⟨⟨g₁, u', e₁⟩, hnext, rfl, rfl, rfl⟩ := h
          simpa [hc] using step_of_updateNext hc hnext

theorem step_of_system {s s' : State Fp} (h : (engineSystem Fp countTick).step s e s') :
    ∃ t g' l', Step countTick t s.engine (s.loc t) g' l' e ∧ s' = s.put t g' l' := by
  obtain ⟨⟨t, a⟩, hnext⟩ := h
  obtain ⟨⟨g', l', e'⟩, hlocal, heq⟩ := Option.map_eq_some_iff.mp hnext
  obtain ⟨rfl, rfl⟩ := Prod.mk.inj heq
  exact ⟨t, g', l', step_of_localNext hlocal, rfl⟩

@[simp] theorem State.put_engine (s : State Fp) (t : ThreadId) (g : TimerThread Fp)
    (l : Local Fp) : (s.put t g l).engine = g := rfl

@[simp] theorem State.put_loc_self (s : State Fp) (t : ThreadId) (g : TimerThread Fp)
    (l : Local Fp) : (s.put t g l).loc t = l := by
  simp [State.put]

theorem State.put_loc_of_ne {t u : ThreadId} (h : u ≠ t) (s : State Fp) (g : TimerThread Fp)
    (l : Local Fp) : (s.put t g l).loc u = s.loc u := by
  simp [State.put, h]

end Qing
