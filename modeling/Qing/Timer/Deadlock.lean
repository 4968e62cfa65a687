import Qing.Timer.ReturnId

/-!
# Waiting for the two mutexes

The engine never waits for one mutex while its own code holds the other: `Update`
gives the first back before it takes the second, so does `UnRegister`, and
`Register` only tries. But `Update` calls a callback with the mutex of its table
held, and the callback may call `UnRegister`. Two threads wait for each other
exactly when a callback of the first loop is at `_timers2_mutex` while a callback
of the second loop looks for an id that `_timers2` does not have: `Crossed`. Runs
that keep away from this never deadlock, and from a crossed state one thread's own
steps lead into the deadlock (`no_deadlock_of_uncrossed`).
-/

namespace Qing

variable {Fp : Type*} {countTick : UInt64}

def Event.isUnRegisterCalled : Event Fp → Bool
  | unRegisterCalled _ _ => true
  | _ => false

/-- The mutex a thread stands at, to wait for. -/
def Local.wants (l : Local Fp) : Option Tab :=
  match l.call, l.update with
  | some (.locking tab _), _ => some tab
  | none, .locking tab => some tab
  | _, _ => none

/-- Some threads wait for each other in a cycle. -/
def State.Deadlocked (s : State Fp) : Prop :=
  ∃ t, Relation.TransGen
    (RecursiveMutex.WaitsFor (fun u => (s.loc u).wants) s.engine.mutex) t t

def CallPc.cancelling? : CallPc Fp → Option ℤ
  | locking _ timerId | finding _ timerId | leaving _ timerId _ => some timerId
  | _ => none

/-- The thread is in a callback called by the loop over `tab`. -/
def Local.InCallback (tab : Tab) (l : Local Fp) : Prop := ∃ k, l.update = .callback tab k

/-- A callback of the first loop is at `_timers2_mutex`, in `UnRegister`. -/
def State.WaitsFromFirst (s : State Fp) (u : ThreadId) : Prop :=
  (s.loc u).InCallback .timers1 ∧ ∃ id, (s.loc u).call = some (.locking .timers2 id)

/-- A callback of the second loop is in `UnRegister`, for an id not in `_timers2`. -/
def State.MissesFromSecond (s : State Fp) (v : ThreadId) : Prop :=
  (s.loc v).InCallback .timers2 ∧
    ∃ id, (s.loc v).call.bind CallPc.cancelling? = some id ∧
      id ∉ (s.engine.timers .timers2).keys

/-- The two ways into the mutexes are crossed. -/
def State.Crossed (s : State Fp) : Prop :=
  ∃ u v, s.WaitsFromFirst u ∧ s.MissesFromSecond v

/-- A callback does not call `UnRegister` where that crosses the call of another
callback. -/
def Uncrossed (s : State Fp) : Event Fp → Prop
  | .unRegisterCalled t id =>
      ((s.loc t).InCallback .timers1 → ∀ v, ¬ s.MissesFromSecond v) ∧
        ((s.loc t).InCallback .timers2 → id ∉ (s.engine.timers .timers2).keys →
          ∀ u, ¬ s.WaitsFromFirst u)
  | _ => True

/-- The id that a call of `UnRegister` goes on to look for in `_timers1`. -/
def CallPc.second? : CallPc Fp → Option ℤ
  | locking .timers1 k | finding .timers1 k | leaving .timers1 k _ => some k
  | _ => none

/-- What the positions of the threads say about calls and tables. -/
structure Positions (s : State Fp) : Prop where
  calls : ∀ v c, (s.loc v).call = some c →
    (s.loc v).update = .outside ∨ ∃ tab, (s.loc v).InCallback tab
  found : ∀ v tab id found, (s.loc v).call = some (.leaving tab id found) →
    ((s.engine.timers tab).find? id).isSome = found
  missed : ∀ v id, (s.loc v).InCallback .timers2 →
    (s.loc v).call.bind CallPc.second? = some id → (s.engine.timers .timers2).find? id = none

section Step

variable {t : ThreadId} {g g' : TimerThread Fp} {l l' : Local Fp} {e : Event Fp}

theorem Local.inCallback_congr {tab : Tab} (h : l'.update = l.update) :
    l'.InCallback tab ↔ l.InCallback tab := by
  rw [InCallback, h, InCallback]

theorem Local.calls_of_canCall (h : l.canCall = true) :
    l.update = .outside ∨ ∃ tab, l.InCallback tab := by
  cases hu : l.update with
  | outside => exact Or.inl rfl
  | callback tab k => exact Or.inr ⟨tab, k, hu⟩
  | locking | looping | rearming => simp [Local.canCall, hu] at h

theorem Step.update_of_call (hst : Step countTick t g l g' l' e) {c : CallPc Fp}
    (hc : l'.call = some c) :
    l'.update = l.update ∧ ((∃ c₀, l.call = some c₀) ∨ l.canCall = true) := by
  cases hst with
  | take _ _ _ _ hcall | callUnRegister _ hcall => exact ⟨rfl, Or.inr hcall⟩
  | openTimer _ _ _ _ h | tryLockTakes _ _ _ h | tryLockFails _ _ h | insert _ _ h
  | unlockInserted _ _ _ h | lockUnRegister _ _ _ h | find _ _ h | miss _ _ h
  | leaveMissed _ _ h => exact ⟨rfl, Or.inl ⟨_, h⟩⟩
  | returnId | leaveReturn => cases hc
  | callUpdate h | lockUpdate _ _ h | endFirst _ h | endSecond _ h | erase _ _ _ h
  | fire _ _ _ _ h | skip _ _ _ _ h | callbackReturn _ _ h | rearm _ _ _ _ h =>
      exact absurd (h.symm.trans hc) nofun

theorem Step.found_of_leaving (hst : Step countTick t g l g' l' e) {tab : Tab} {id : ℤ}
    {found : Bool} (hc : l'.call = some (.leaving tab id found)) :
    ((g'.timers tab).find? id).isSome = found := by
  cases hst with
  | find tab' k _ hfound =>
      obtain ⟨rfl, rfl, rfl⟩ := by simpa using hc
      rw [TimerThread.find?_mark, if_pos ⟨rfl, rfl⟩, Option.isSome_map, hfound]
  | miss tab' k _ hfound =>
      obtain ⟨rfl, rfl, rfl⟩ := by simpa using hc
      rw [hfound]
      rfl
  | take | openTimer | tryLockTakes | tryLockFails | insert | unlockInserted | returnId
  | callUnRegister | lockUnRegister | leaveReturn | leaveMissed => cases hc
  | callUpdate h | lockUpdate _ _ h | endFirst _ h | endSecond _ h | erase _ _ _ h
  | fire _ _ _ _ h | skip _ _ _ _ h | callbackReturn _ _ h | rearm _ _ _ _ h =>
      exact absurd (h.symm.trans hc) nofun

/-- A search of `_timers1` comes after `_timers2` was found not to have the id. -/
theorem Step.second_of_second (hst : Step countTick t g l g' l' e) {id : ℤ}
    (hc : l'.call.bind CallPc.second? = some id) :
    l.call = some (.leaving .timers2 id false) ∨ l.call.bind CallPc.second? = some id := by
  cases hst with
  | leaveMissed k g₁ h =>
      obtain rfl : k = id := Option.some.inj hc
      exact Or.inl h
  | lockUnRegister tab k _ h | find tab k h | miss tab k h =>
      cases tab with
      | timers1 =>
          obtain rfl : k = id := Option.some.inj hc
          exact Or.inr (by rw [h]; rfl)
      | timers2 => cases hc
  | take | openTimer | tryLockTakes | tryLockFails | insert | unlockInserted | returnId
  | callUnRegister | leaveReturn => cases hc
  | callUpdate h | lockUpdate _ _ h | endFirst _ h | endSecond _ h | erase _ _ _ h
  | fire _ _ _ _ h | skip _ _ _ _ h | callbackReturn _ _ h | rearm _ _ _ _ h =>
      exact Or.inr hc

end Step

theorem CallPc.drafting?_of_second? {c : CallPc Fp} {id : ℤ} (h : c.second? = some id) :
    c.drafting? = none := by
  cases c with
  | tryLock | inserting => cases h
  | opening | unlocking | returning | locking | finding | leaving => rfl

theorem LocksHeld.holds_of_callback {s : State Fp} {v : ThreadId} {tab : Tab}
    (h : (s.loc v).InCallback tab) : 0 < (s.loc v).holds tab := by
  obtain ⟨k, hk⟩ := h
  simp [Local.holds, UpdatePc.holds, hk]

theorem Positions.step {s s' : State Fp} {e : Event Fp} (h : Positions s) (hlocks : LocksHeld s)
    (hst : (engineSystem Fp countTick).step s e s') : Positions s' := by
  obtain ⟨t, g', l', hstep, rfl⟩ := step_of_system hst
  refine ⟨?_, ?_, ?_⟩
  · intro v c hc
    rcases eq_or_ne v t with rfl | hne
    · rw [State.put_loc_self] at hc ⊢
      obtain ⟨hup, hcalled⟩ := hstep.update_of_call hc
      simp only [hup, Local.inCallback_congr hup]
      rcases hcalled with ⟨c₀, hc₀⟩ | hcall
      · exact h.calls v c₀ hc₀
      · exact Local.calls_of_canCall hcall
    · rw [State.put_loc_of_ne hne] at hc ⊢
      exact h.calls v c hc
  · intro v tab id found hc
    rcases eq_or_ne v t with rfl | hne
    · rw [State.put_loc_self] at hc
      exact hstep.found_of_leaving hc
    · rw [State.put_loc_of_ne hne] at hc
      have hholds : 0 < (s.loc v).holds tab := by simp [Local.holds, CallPc.holds, hc]
      rw [State.put_engine, hlocks.timers_eq hstep hne hholds]
      exact h.found v tab id found hc
  · intro v id hback hc
    rcases eq_or_ne v t with rfl | hne
    · rw [State.put_loc_self] at hback hc
      obtain ⟨c, hcall, -⟩ := Option.bind_eq_some_iff.mp hc
      have hback' : (s.loc v).InCallback .timers2 := by
        rwa [← Local.inCallback_congr (hstep.update_of_call hcall).1]
      refine hstep.find_none ?_ ?_
      · intro timer hd
        rcases hstep.second_of_second hc with hold | hold
        · simp [Local.drafting?, hold, CallPc.drafting?] at hd
        · obtain ⟨c₀, hc₀, hsecond⟩ := Option.bind_eq_some_iff.mp hold
          simp [Local.drafting?, hc₀, CallPc.drafting?_of_second? hsecond] at hd
      · rcases hstep.second_of_second hc with hold | hold
        · simpa using h.found v .timers2 id false hold
        · exact h.missed v id hback' hold
    · rw [State.put_loc_of_ne hne] at hback hc
      rw [State.put_engine, hlocks.timers_eq hstep hne (LocksHeld.holds_of_callback hback)]
      exact h.missed v id hback hc

theorem positions_of_run {tr : List (Event Fp)} {s : State Fp}
    (h : (engineSystem Fp countTick).Run tr s) : Positions s := by
  refine System.Run.induction (M := engineSystem Fp countTick) (P := fun _ s => Positions s)
    ?_ ?_ h
  · rintro s rfl
    exact ⟨nofun, nofun, nofun⟩
  · exact fun tr s e s' hrun ih hst => ih.step (locksHeld_of_run hrun) hst

/-! ## From a cycle to a crossing -/

section Cycle

variable {s : State Fp}

theorem Positions.of_wants (h : Positions s) {u : ThreadId} {tab tab' : Tab} (hne : tab ≠ tab')
    (hwants : (s.loc u).wants = some tab') (hholds : 0 < (s.loc u).holds tab) :
    (s.loc u).InCallback tab ∧ ∃ id, (s.loc u).call = some (.locking tab' id) := by
  cases hc : (s.loc u).call with
  | none =>
      cases hu : (s.loc u).update with
      | locking => simp [Local.holds, UpdatePc.holds, hc, hu] at hholds
      | outside | looping | callback | rearming => simp [Local.wants, hc, hu] at hwants
  | some c =>
      cases c with
      | locking tab'' id =>
          obtain rfl : tab'' = tab' := by simpa [Local.wants, hc] using hwants
          refine ⟨?_, id, rfl⟩
          rcases h.calls u _ hc with hu | ⟨tab₀, k, hu⟩
          · simp [Local.holds, UpdatePc.holds, CallPc.holds, hc, hu] at hholds
          · obtain rfl : tab₀ = tab := by
              by_contra hcase
              simp [Local.holds, UpdatePc.holds, CallPc.holds, hc, hu, hcase] at hholds
            exact ⟨k, hu⟩
      | opening | tryLock | inserting | unlocking | returning | finding | leaving =>
          simp [Local.wants, hc] at hwants

theorem Positions.crossed_of_pair (h : Positions s) {u v : ThreadId}
    (hwu : (s.loc u).wants = some .timers2) (hu : 0 < (s.loc u).holds .timers1)
    (hwv : (s.loc v).wants = some .timers1) (hv : 0 < (s.loc v).holds .timers2) :
    s.Crossed := by
  have hne : Tab.timers1 ≠ .timers2 := nofun
  obtain ⟨hbacku, id, hcu⟩ := h.of_wants hne hwu hu
  obtain ⟨hbackv, id', hcv⟩ := h.of_wants hne.symm hwv hv
  refine ⟨u, v, ⟨hbacku, id, hcu⟩, hbackv, id', by rw [hcv]; rfl, ?_⟩
  have hnone := h.missed v id' hbackv (by rw [hcv]; rfl)
  rw [OrderedMap.mem_keys_iff, hnone]
  exact Bool.false_ne_true

theorem Positions.crossed_of_deadlocked (h : Positions s) (hlocks : LocksHeld s)
    (hdead : s.Deadlocked) : s.Crossed := by
  obtain ⟨t, hcycle⟩ := hdead
  have htwo : ∀ i j k : Tab, i ≠ j → k ≠ j → i = k := by
    intro i j k hij hkj
    cases i <;> cases j <;> cases k <;> simp_all
  obtain ⟨u, v, i, j, hne, hwu, hu, hwv, hv⟩ :=
    RecursiveMutex.exists_crossed_of_cycle htwo hcycle
  rw [hlocks i u] at hu
  rw [hlocks j v] at hv
  cases i with
  | timers1 =>
      obtain rfl : j = .timers2 := by
        cases j with
        | timers1 => exact absurd rfl hne
        | timers2 => rfl
      exact h.crossed_of_pair hwu hu hwv hv
  | timers2 =>
      obtain rfl : j = .timers1 := by
        cases j with
        | timers1 => rfl
        | timers2 => exact absurd rfl hne
      exact h.crossed_of_pair hwv hv hwu hu

end Cycle

/-! ## Which steps cross -/

section Crossing

variable {t : ThreadId} {g g' : TimerThread Fp} {l l' : Local Fp} {e : Event Fp}
  {s s' : State Fp}

theorem Step.called_of_locking (hst : Step countTick t g l g' l' e) {id : ℤ}
    (hc : l'.call = some (.locking .timers2 id)) : e = .unRegisterCalled t id ∧ g' = g := by
  cases hst with
  | callUnRegister k =>
      obtain rfl : k = id := by simpa using hc
      exact ⟨rfl, rfl⟩
  | take | openTimer | tryLockTakes | tryLockFails | insert | unlockInserted | returnId
  | lockUnRegister | find | miss | leaveReturn | leaveMissed => simp at hc
  | callUpdate h | lockUpdate _ _ h | endFirst _ h | endSecond _ h | erase _ _ _ h
  | fire _ _ _ _ h | skip _ _ _ _ h | callbackReturn _ _ h | rearm _ _ _ _ h =>
      exact absurd (h.symm.trans hc) nofun

theorem Step.cancelling (hst : Step countTick t g l g' l' e) {id : ℤ}
    (hc : l'.call.bind CallPc.cancelling? = some id) :
    (e = .unRegisterCalled t id ∧ g' = g) ∨
      (l.call.bind CallPc.cancelling? = some id ∧
        ∀ tab, id ∈ (g.timers tab).keys → id ∈ (g'.timers tab).keys) := by
  cases hst with
  | callUnRegister k =>
      obtain rfl : k = id := Option.some.inj hc
      exact Or.inl ⟨rfl, rfl⟩
  | lockUnRegister tab k g₁ h hlock =>
      obtain rfl : k = id := Option.some.inj hc
      refine Or.inr ⟨by rw [h]; rfl, fun tab' hk => ?_⟩
      rwa [(TimerThread.lock_fields hlock).1]
  | leaveMissed k g₁ h hlock =>
      obtain rfl : k = id := Option.some.inj hc
      refine Or.inr ⟨by rw [h]; rfl, fun tab' hk => ?_⟩
      rwa [(TimerThread.unlock_fields hlock).1]
  | find tab k h hfound =>
      obtain rfl : k = id := Option.some.inj hc
      refine Or.inr ⟨by rw [h]; rfl, fun tab' hk => ?_⟩
      rw [OrderedMap.mem_keys_iff] at hk ⊢
      rw [TimerThread.find?_mark]
      split_ifs with hcase
      · rwa [Option.isSome_map]
      · exact hk
  | miss tab k h =>
      obtain rfl : k = id := Option.some.inj hc
      exact Or.inr ⟨by rw [h]; rfl, fun tab' hk => hk⟩
  | take | openTimer | tryLockTakes | tryLockFails | insert | unlockInserted | returnId
  | leaveReturn => cases hc
  | callUpdate h | lockUpdate _ _ h | endFirst _ h | endSecond _ h | erase _ _ _ h
  | fire _ _ _ _ h | skip _ _ _ _ h | callbackReturn _ _ h | rearm _ _ _ _ h =>
      have hnone : l.call.bind CallPc.cancelling? = some id := hc
      rw [h] at hnone
      cases hnone

theorem Local.ne_of_inCallback {u v : ThreadId} (hu : (s.loc u).InCallback .timers1)
    (hv : (s.loc v).InCallback .timers2) : u ≠ v := by
  rintro rfl
  obtain ⟨k, hk⟩ := hu
  obtain ⟨j, hj⟩ := hv
  rw [hk] at hj
  cases hj

theorem State.waitsFromFirst_put {u : ThreadId} (hne : u ≠ t) :
    (s.put t g' l').WaitsFromFirst u ↔ s.WaitsFromFirst u := by
  rw [WaitsFromFirst, WaitsFromFirst, State.put_loc_of_ne hne]

theorem State.missesFromSecond_put {v : ThreadId} (hne : v ≠ t)
    (htimers : (s.loc v).InCallback .timers2 →
      g'.timers .timers2 = s.engine.timers .timers2) :
    (s.put t g' l').MissesFromSecond v ↔ s.MissesFromSecond v := by
  rw [MissesFromSecond, MissesFromSecond, State.put_loc_of_ne hne, State.put_engine]
  refine and_congr_right fun hback => ?_
  rw [htimers hback]

/-- Only a call of `UnRegister` out of a callback crosses, and only in the two ways
of `Uncrossed`. -/
theorem crossed_of_step (hlocks : LocksHeld s) (hst : (engineSystem Fp countTick).step s e s')
    (hcrossed : s'.Crossed) : s.Crossed ∨ ¬ Uncrossed s e := by
  obtain ⟨t, g', l', hstep, rfl⟩ := step_of_system hst
  obtain ⟨u, v, hu, hv⟩ := hcrossed
  have huv : u ≠ v := Local.ne_of_inCallback hu.1 hv.1
  have htimers : ∀ v, v ≠ t → (s.loc v).InCallback .timers2 →
      g'.timers .timers2 = s.engine.timers .timers2 :=
    fun v hne hback => hlocks.timers_eq hstep hne (LocksHeld.holds_of_callback hback)
  rcases eq_or_ne u t with rfl | hut
  · have hmisses : s.MissesFromSecond v :=
      (State.missesFromSecond_put huv.symm (htimers v huv.symm)).mp hv
    obtain ⟨hback, id, hc⟩ := hu
    rw [State.put_loc_self] at hback hc
    obtain ⟨rfl, -⟩ := hstep.called_of_locking hc
    rw [Local.inCallback_congr (hstep.update_of_call hc).1] at hback
    exact Or.inr fun hun => hun.1 hback v hmisses
  · have hwaits : s.WaitsFromFirst u := (State.waitsFromFirst_put hut).mp hu
    rcases eq_or_ne v t with rfl | hvt
    · obtain ⟨hback, id, hc, habs⟩ := hv
      rw [State.put_loc_self] at hback hc
      obtain ⟨c, hcall, -⟩ := Option.bind_eq_some_iff.mp hc
      rw [Local.inCallback_congr (hstep.update_of_call hcall).1] at hback
      rcases hstep.cancelling hc with ⟨rfl, rfl⟩ | ⟨hold, hkeys⟩
      · exact Or.inr fun hun => hun.2 hback habs u hwaits
      · exact Or.inl ⟨u, v, hwaits, hback, id, hold, fun hk => habs (hkeys .timers2 hk)⟩
    · exact Or.inl ⟨u, v, hwaits, (State.missesFromSecond_put hvt (htimers v hvt)).mp hv⟩

theorem crossed_of_not_uncrossed (hst : (engineSystem Fp countTick).step s e s')
    (hun : ¬ Uncrossed s e) : s'.Crossed := by
  obtain ⟨t, g', l', hstep, rfl⟩ := step_of_system hst
  cases hstep with
  | callUnRegister id =>
      have hself : ∀ tab, (s.loc t).InCallback tab →
          ((s.put t s.engine { s.loc t with call := some (.locking .timers2 id) }).loc
            t).InCallback tab := by
        intro tab hback
        rw [State.put_loc_self]
        exact hback
      rcases not_and_or.mp hun with hfirst | hsecond
      · push Not at hfirst
        obtain ⟨hback, v, hv⟩ := hfirst
        have hne : v ≠ t := (Local.ne_of_inCallback hback hv.1).symm
        refine ⟨t, v, ⟨hself _ hback, id, by rw [State.put_loc_self]⟩, ?_⟩
        exact (State.missesFromSecond_put hne fun _ => rfl).mpr hv
      · push Not at hsecond
        obtain ⟨hback, habs, u, hu⟩ := hsecond
        have hne : u ≠ t := Local.ne_of_inCallback hu.1 hback
        refine ⟨u, t, (State.waitsFromFirst_put hne).mpr hu, hself _ hback, id, ?_, habs⟩
        rw [State.put_loc_self]
        rfl
  | take | openTimer | tryLockTakes | tryLockFails | insert | unlockInserted | returnId
  | lockUnRegister | find | miss | leaveReturn | leaveMissed | callUpdate | lockUpdate
  | endFirst | endSecond | erase | fire | skip | callbackReturn | rearm =>
      exact absurd trivial hun

end Crossing

/-! ## From a crossing to a cycle -/

/-- Thread `u` waits for `_timers2_mutex` out of the first loop, and thread `v`, in a
callback of the second, is in a call about an id not in `_timers2`. -/
structure Crossing (u v : ThreadId) (id : ℤ) (s : State Fp) : Prop where
  locks : LocksHeld s
  waits : s.WaitsFromFirst u
  back : (s.loc v).InCallback .timers2
  absent : (s.engine.timers .timers2).find? id = none

namespace Crossing

variable {u v : ThreadId} {id : ℤ} {s : State Fp} {g' : TimerThread Fp} {c : CallPc Fp}

theorem ne (h : Crossing u v id s) : u ≠ v := Local.ne_of_inCallback h.waits.1 h.back

theorem next (h : Crossing u v id s) {e : Event Fp}
    (hst : (engineSystem Fp countTick).step s e
      (s.put v g' { s.loc v with call := some c }))
    (htimers : g'.timers = s.engine.timers) :
    Crossing u v id (s.put v g' { s.loc v with call := some c }) where
  locks := h.locks.step hst
  waits := (State.waitsFromFirst_put h.ne).mpr h.waits
  back := by
    rw [State.put_loc_self]
    exact h.back
  absent := by
    rw [State.put_engine, htimers]
    exact h.absent

theorem deadlocked (h : Crossing u v id s)
    (hc : (s.loc v).call = some (.locking .timers1 id)) : s.Deadlocked := by
  obtain ⟨hback, k, hk⟩ := h.waits
  refine ⟨u, RecursiveMutex.cycle_of_crossed (i := .timers1) (j := .timers2) h.ne ?_ ?_ ?_ ?_⟩
  · simp [Local.wants, hk]
  · rw [h.locks]
    exact LocksHeld.holds_of_callback hback
  · simp [Local.wants, hc]
  · rw [h.locks]
    exact LocksHeld.holds_of_callback h.back

theorem reach_of_leaving (h : Crossing u v id s)
    (hc : (s.loc v).call = some (.leaving .timers2 id false)) :
    ∃ tr s', (engineSystem Fp countTick).Path s tr s' ∧ s'.Deadlocked := by
  have hholds : 0 < (s.engine.mutex .timers2).holds v := by
    rw [h.locks]
    exact LocksHeld.holds_of_callback h.back
  obtain ⟨m, hm⟩ := Option.isSome_iff_exists.mp (RecursiveMutex.unlock_isSome hholds)
  let g' := { s.engine with mutex := Function.update s.engine.mutex .timers2 m }
  have hst : (engineSystem Fp countTick).step s .internal
      (s.put v g' { s.loc v with call := some (.locking .timers1 id) }) := by
    refine ⟨(v, .run 0 true), ?_⟩
    simp [State.next, Local.next, hc, CallPc.next, TimerThread.unlock, hm, g']
  refine ⟨[.internal], _, System.Path.single hst, (h.next hst rfl).deadlocked ?_⟩
  rw [State.put_loc_self]

theorem reach_of_finding (h : Crossing u v id s)
    (hc : (s.loc v).call = some (.finding .timers2 id)) :
    ∃ tr s', (engineSystem Fp countTick).Path s tr s' ∧ s'.Deadlocked := by
  have hst : (engineSystem Fp countTick).step s .internal
      (s.put v s.engine { s.loc v with call := some (.leaving .timers2 id false) }) := by
    refine ⟨(v, .run 0 true), ?_⟩
    simp [State.next, Local.next, hc, CallPc.next, h.absent]
  obtain ⟨tr, s', hpath, hdead⟩ := (h.next hst rfl).reach_of_leaving (by rw [State.put_loc_self])
  exact ⟨_, s', (System.Path.single hst).append hpath, hdead⟩

theorem reach_of_locking (h : Crossing u v id s)
    (hc : (s.loc v).call = some (.locking .timers2 id)) :
    ∃ tr s', (engineSystem Fp countTick).Path s tr s' ∧ s'.Deadlocked := by
  have hholds : 0 < (s.engine.mutex .timers2).holds v := by
    rw [h.locks]
    exact LocksHeld.holds_of_callback h.back
  obtain ⟨m, hm⟩ := Option.isSome_iff_exists.mp (RecursiveMutex.lock_isSome hholds)
  let g' := { s.engine with mutex := Function.update s.engine.mutex .timers2 m }
  have hst : (engineSystem Fp countTick).step s .internal
      (s.put v g' { s.loc v with call := some (.finding .timers2 id) }) := by
    refine ⟨(v, .run 0 true), ?_⟩
    simp [State.next, Local.next, hc, CallPc.next, TimerThread.lock, hm, g']
  obtain ⟨tr, s', hpath, hdead⟩ := (h.next hst rfl).reach_of_finding (by rw [State.put_loc_self])
  exact ⟨_, s', (System.Path.single hst).append hpath, hdead⟩

end Crossing

theorem reach_deadlock_of_crossed {s : State Fp} (hlocks : LocksHeld s) (hpos : Positions s)
    (h : s.Crossed) : ∃ tr s', (engineSystem Fp countTick).Path s tr s' ∧ s'.Deadlocked := by
  obtain ⟨u, v, hu, hback, id, hc, habs⟩ := h
  have hnone : (s.engine.timers .timers2).find? id = none := by
    rwa [OrderedMap.mem_keys_iff, Bool.not_eq_true, Option.isSome_eq_false_iff,
      Option.isNone_iff_eq_none] at habs
  have hcross : Crossing u v id s := ⟨hlocks, hu, hback, hnone⟩
  have hfree : ∀ c, (s.loc v).call = some c → c.holds .timers1 = 0 := by
    intro c hcall
    by_contra hpos
    refine hcross.ne (hlocks.eq_of_holds (LocksHeld.holds_of_callback hu.1) ?_)
    simp only [Local.holds, hcall, Option.elim_some]
    omega
  obtain ⟨c, hcall, hid⟩ := Option.bind_eq_some_iff.mp hc
  cases c with
  | opening | tryLock | inserting | unlocking | returning => cases hid
  | locking tab k =>
      obtain rfl : k = id := Option.some.inj hid
      cases tab with
      | timers1 => exact ⟨[], s, System.Path.refl s, hcross.deadlocked hcall⟩
      | timers2 => exact hcross.reach_of_locking hcall
  | finding tab k =>
      obtain rfl : k = id := Option.some.inj hid
      cases tab with
      | timers1 => cases hfree _ hcall
      | timers2 => exact hcross.reach_of_finding hcall
  | leaving tab k found =>
      obtain rfl : k = id := Option.some.inj hid
      cases tab with
      | timers1 => cases hfree _ hcall
      | timers2 =>
          obtain rfl : false = found := by
            rw [← hpos.found v .timers2 k found hcall, hnone]
            rfl
          exact hcross.reach_of_leaving hcall

/-- A run whose callbacks never cross ends in no deadlock; and the condition leaves
out nothing that is harmless: from a step that breaks it a deadlock can be
reached. -/
theorem no_deadlock_of_uncrossed :
    (∀ tr (s : State Fp),
      ((engineSystem Fp countTick).restrict fun s e _ => Uncrossed s e).Run tr s →
        ¬ s.Deadlocked) ∧
    ∀ tr (s : State Fp) e s', (engineSystem Fp countTick).Run tr s →
      (engineSystem Fp countTick).step s e s' → ¬ Uncrossed s e →
        ∃ tr' s'', (engineSystem Fp countTick).Path s' tr' s'' ∧ s''.Deadlocked := by
  constructor
  · intro tr s h hdead
    have hnot : ¬ s.Crossed := by
      refine System.Run.induction
        (M := (engineSystem Fp countTick).restrict fun s e _ => Uncrossed s e)
        (P := fun _ s => ¬ s.Crossed) ?_ ?_ h
      · rintro s rfl ⟨u, v, ⟨⟨k, hk⟩, -⟩, -⟩
        cases hk
      · intro tr s e s' hrun ih hst hcrossed
        have hlocks := locksHeld_of_run hrun.of_restrict
        exact (crossed_of_step hlocks hst.1 hcrossed).elim ih fun hun => hun hst.2
    have hrun := h.of_restrict
    exact hnot ((positions_of_run hrun).crossed_of_deadlocked (locksHeld_of_run hrun) hdead)
  · intro tr s e s' hrun hst hun
    have hrun' := hrun.snoc hst
    exact reach_deadlock_of_crossed (locksHeld_of_run hrun') (positions_of_run hrun')
      (crossed_of_not_uncrossed hst hun)

/-- Timer 1 is registered into `_timers1` while thread 1 has `_timers2`, and timer 2
into `_timers2`. Thread 0 passes the first loop before timer 1 is due and calls the
callback of timer 2; thread 1 then calls the one of timer 1. -/
def callbacksActs : List (ThreadId × Act Unit) :=
  [(1, .update), (1, .run 5 true), (1, .run 5 true), (1, .run 5 true),
    (0, .register .milsec true 1 ()), (0, .run 5 true), (0, .run 5 false), (0, .run 5 true),
    (0, .run 5 true), (0, .run 5 true), (0, .run 5 true), (1, .run 5 true),
    (0, .register .milsec true 0 ()), (0, .run 5 true), (0, .run 5 true), (0, .run 5 true),
    (0, .run 5 true), (0, .run 5 true),
    (0, .update), (0, .run 6 true), (0, .run 6 true), (0, .run 6 true), (0, .run 6 true),
    (0, .run 6 true),
    (1, .update), (1, .run 6 true), (1, .run 1005 true)]

def callbacksState : State Unit :=
  (System.exec (State.next 1000000) callbacksActs State.init).elim State.init Prod.fst

def callbacksTrace : List (Event Unit) :=
  (System.exec (State.next 1000000) callbacksActs State.init).elim [] Prod.snd

theorem run_callbacksTrace :
    (engineSystem Unit 1000000).Run callbacksTrace callbacksState := by
  have hexec : System.exec (State.next 1000000) callbacksActs State.init =
      some (callbacksState, callbacksTrace) := rfl
  exact System.run_of_exec rfl hexec

/-- Thread 1's callback cancels timer 2, and waits. -/
def waitingState : State Unit :=
  ((State.next 1000000) (1, .unRegister 2) callbacksState).elim State.init Prod.fst

/-- While thread 0's callback is in no call nothing is crossed; when it cancels
timer 1 then, the deadlock is on its way. -/
theorem no_deadlock_of_uncrossed_callbacks : ¬ waitingState.Deadlocked ∧
    ∀ s', (engineSystem Unit 1000000).step waitingState (.unRegisterCalled 0 1) s' →
      ∃ tr' s'', (engineSystem Unit 1000000).Path s' tr' s'' ∧ s''.Deadlocked := by
  have hcalled : (engineSystem Unit 1000000).step callbacksState (.unRegisterCalled 1 2)
      waitingState := ⟨(1, .unRegister 2), rfl⟩
  have hrun := run_callbacksTrace.snoc hcalled
  have hcalls : ∀ v, (callbacksState.loc v).call = none := by
    intro v
    match v with
    | 0 => rfl
    | 1 => rfl
    | v + 2 => rfl
  have huncrossed : Uncrossed callbacksState (.unRegisterCalled 1 2) := by
    refine ⟨fun _ v hv => ?_, fun hback => ?_⟩
    · obtain ⟨-, id, hc, -⟩ := hv
      rw [hcalls v] at hc
      cases hc
    · obtain ⟨k, hk⟩ := hback
      cases hk
  refine ⟨no_deadlock_of_uncrossed.1 _ _ (System.Run.snoc (System.Run.to_restrict
    run_callbacksTrace ?_) ⟨hcalled, huncrossed⟩), fun s' hst => ?_⟩
  · have hquiet : callbacksTrace.all (fun e => !e.isUnRegisterCalled) = true := rfl
    intro e he s s'
    have hno := List.all_eq_true.mp hquiet e he
    cases e with
    | unRegisterCalled => cases hno
    | _ => trivial
  · refine no_deadlock_of_uncrossed.2 _ _ _ s' hrun hst fun hun => ?_
    exact hun.2 ⟨2, rfl⟩ (by decide) 1 ⟨⟨1, rfl⟩, 2, rfl⟩

/-- Both callbacks cancel the timer of the other one. -/
def deadlockState : State Unit :=
  (System.exec (State.next 1000000)
    [(0, .unRegister 1), (0, .run 1005 true), (0, .run 1005 true), (0, .run 1005 true)]
    waitingState).elim State.init Prod.fst

theorem not_deadlock_free : ¬ ∀ (tr : List (Event Unit)) (s : State Unit),
    (engineSystem Unit 1000000).Run tr s → ¬ s.Deadlocked := by
  intro hfree
  have hcalled : (engineSystem Unit 1000000).step callbacksState (.unRegisterCalled 1 2)
      waitingState := ⟨(1, .unRegister 2), rfl⟩
  have hexec : System.exec (State.next 1000000)
      [(0, .unRegister 1), (0, .run 1005 true), (0, .run 1005 true), (0, .run 1005 true)]
      waitingState =
        some (deadlockState, [.unRegisterCalled 0 1, .internal, .internal, .internal]) := rfl
  refine hfree _ _ ((run_callbacksTrace.snoc hcalled).append (System.exec_path hexec))
    ⟨1, RecursiveMutex.cycle_of_crossed (u := 1) (v := 0) (i := .timers1) (j := .timers2)
      nofun rfl ?_ rfl ?_⟩
  · exact Nat.one_pos
  · exact Nat.one_pos

end Qing
