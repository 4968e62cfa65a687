import Qing.Timer.Life
import Qing.Timer.Locks

/-!
# The engine follows the ledger

`Refines s a` reads the lives `a` of all timers off a state `s` of the engine: the
two tables together hold exactly the timers that are live or firing, each under
its own id and in one table only; a thread inside `Register` owns an id nobody
else has; a timer is firing while, and only while, a thread runs its callback.
Each step of the engine moves the ledger by the event it leaves (`refines_step`),
so every run of the engine is a run of the ledger (`ledger_of_run`).
-/

namespace Qing

variable {Fp : Type*}

/-- The timer whose id a thread has taken and not yet opened. -/
def CallPc.opening? : CallPc Fp → Option (ETimer Fp)
  | opening _ _ timer => some timer
  | _ => none

/-- The opened timer a thread is about to insert. -/
def CallPc.drafting? : CallPc Fp → Option (ETimer Fp)
  | tryLock _ timer | inserting _ timer => some timer
  | _ => none

def Local.opening? (l : Local Fp) : Option (ETimer Fp) := l.call.bind CallPc.opening?

def Local.drafting? (l : Local Fp) : Option (ETimer Fp) := l.call.bind CallPc.drafting?

/-- The id a thread has taken and not yet inserted. -/
def Local.claim? (l : Local Fp) : Option ℤ := (l.opening?.or l.drafting?).map ETimer.timerId

/-- The entry whose callback a thread runs, or has run and not yet reset. -/
def Local.firing? (l : Local Fp) : Option (Tab × ℤ) :=
  match l.update with
  | .callback tab k | .rearming tab k => some (tab, k)
  | _ => none

/-- A timer some entry or draft of the id records. -/
def Phase.timer? : Phase Fp → Option (ETimer Fp)
  | .draft timer | .live timer | .firing timer => some timer
  | _ => none

theorem Phase.timer?_gone {timer : ETimer Fp} : (gone : Phase Fp).timer? ≠ some timer :=
  (Option.some_ne_none timer).symm

theorem Phase.timer?_forall {p : Phase Fp} {timer : ETimer Fp} (hp : p.timer? = some timer)
    {Q : ETimer Fp → Prop} (h : Q timer) : ∀ d, p.timer? = some d → Q d := by
  intro d hd
  obtain rfl := Option.some.inj (hp.symm.trans hd)
  exact h

/-- The lives `a` read off the engine at `g` with its threads at `loc`. -/
structure Refines (g : TimerThread Fp) (loc : ThreadId → Local Fp) (a : ℤ → Phase Fp) :
    Prop where
  stored : ∀ k timer, (a k).stored? = some timer ↔ ∃ tab, (g.timers tab).find? k = some timer
  disjoint : ∀ k tab tab', ((g.timers tab).find? k).isSome →
    ((g.timers tab').find? k).isSome → tab = tab'
  keyed : ∀ k timer, (a k).timer? = some timer → timer.timerId = k
  started : ∀ k timer, (a k).timer? = some timer → timer.startclock ≤ g.clock
  nonneg : 0 ≤ g.curTimerId
  known : ∀ k, a k = .absent ∨ (1 ≤ k ∧ k ≤ g.curTimerId)
  opening : ∀ t timer, (loc t).opening? = some timer →
    a timer.timerId = .absent ∧ timer.needDelete = false
  drafting : ∀ t timer, (loc t).drafting? = some timer → a timer.timerId = .draft timer
  claimed : ∀ t k, (loc t).claim? = some k → 1 ≤ k ∧ k ≤ g.curTimerId
  unique : ∀ t u k, (loc t).claim? = some k → (loc u).claim? = some k → t = u
  firing : ∀ k, (∃ timer, a k = .firing timer) ↔ ∃ t tab, (loc t).firing? = some (tab, k)
  entry : ∀ t tab k, (loc t).standing? = some (tab, k) → ((g.timers tab).find? k).isSome

theorem Local.standing?_of_firing? {l : Local Fp} {p : Tab × ℤ} (h : l.firing? = some p) :
    l.standing? = some p := by
  unfold firing? at h
  unfold standing?
  split at h <;> simp_all

theorem Local.claim?_of_opening? {l : Local Fp} {timer : ETimer Fp}
    (h : l.opening? = some timer) : l.claim? = some timer.timerId := by
  rw [claim?, h]
  rfl

theorem Local.claim?_of_drafting? {l : Local Fp} {timer : ETimer Fp}
    (h : l.drafting? = some timer) : l.claim? = some timer.timerId := by
  cases hc : l.call with
  | none => simp [drafting?, hc] at h
  | some c => cases c <;> simp_all [claim?, opening?, drafting?, CallPc.opening?, CallPc.drafting?]

theorem Local.firing?_congr {l l' : Local Fp} (h : l'.update = l.update) :
    l'.firing? = l.firing? := by
  rw [firing?, h, firing?]

theorem Local.standing?_congr {l l' : Local Fp} (h : l'.update = l.update) :
    l'.standing? = l.standing? := by
  rw [standing?, h, standing?]

theorem Local.opening?_congr {l l' : Local Fp} (h : l'.call = l.call) :
    l'.opening? = l.opening? := by
  rw [opening?, h, opening?]

theorem Local.drafting?_congr {l l' : Local Fp} (h : l'.call = l.call) :
    l'.drafting? = l.drafting? := by
  rw [drafting?, h, drafting?]

section View

variable {β : Type*} {loc : ThreadId → Local Fp} {t : ThreadId} {l' : Local Fp}

theorem view_update {f : Local Fp → β} (h : f l' = f (loc t)) (u : ThreadId) :
    f (Function.update loc t l' u) = f (loc u) := by
  rcases eq_or_ne u t with rfl | hne
  · rw [Function.update_self, h]
  · rw [Function.update_of_ne hne]

theorem view_cases {f : Local Fp → Option β} {u : ThreadId} {b : β}
    (hu : f (Function.update loc t l' u) = some b) :
    u = t ∧ f l' = some b ∨ u ≠ t ∧ f (loc u) = some b := by
  rcases eq_or_ne u t with rfl | hne
  · rw [Function.update_self] at hu
    exact Or.inl ⟨rfl, hu⟩
  · rw [Function.update_of_ne hne] at hu
    exact Or.inr ⟨hne, hu⟩

end View

namespace Refines

variable {g g' : TimerThread Fp} {loc : ThreadId → Local Fp} {a : ℤ → Phase Fp}
  {t : ThreadId} {l' : Local Fp}

/-- An id some thread has taken is not in the tables. -/
theorem phase_of_claim (h : Refines g loc a) {u : ThreadId} {k : ℤ}
    (hk : (loc u).claim? = some k) : a k = .absent ∨ ∃ timer, a k = .draft timer := by
  obtain ⟨timer, htimer, rfl⟩ := Option.map_eq_some_iff.mp hk
  rcases Option.or_eq_some_iff.mp htimer with hop | ⟨-, hdr⟩
  · exact Or.inl (h.opening u timer hop).1
  · exact Or.inr ⟨timer, h.drafting u timer hdr⟩

theorem stored_of_find (h : Refines g loc a) {tab : Tab} {k : ℤ} {timer : ETimer Fp}
    (hfind : (g.timers tab).find? k = some timer) : (a k).stored? = some timer :=
  (h.stored k timer).mpr ⟨tab, hfind⟩

theorem find_none (h : Refines g loc a) {k : ℤ} (hk : (a k).stored? = none) (tab : Tab) :
    (g.timers tab).find? k = none := by
  cases hf : (g.timers tab).find? k with
  | none => rfl
  | some timer =>
      rw [h.stored_of_find hf] at hk
      cases hk

theorem find_none_of_lt (h : Refines g loc a) {k : ℤ} (hk : g.curTimerId < k) (tab : Tab) :
    (g.timers tab).find? k = none := by
  refine h.find_none ?_ tab
  rcases h.known k with habs | hle
  · rw [habs]
    rfl
  · omega

theorem quiet (h : Refines g loc a) (htimers : g'.timers = g.timers)
    (hcur : g'.curTimerId = g.curTimerId) (hclock : g.clock ≤ g'.clock)
    (hop : l'.opening? = (loc t).opening?) (hdr : l'.drafting? = (loc t).drafting?)
    (hfi : l'.firing? = (loc t).firing?)
    (hen : ∀ tab k, l'.standing? = some (tab, k) → ((g.timers tab).find? k).isSome) :
    Refines g' (Function.update loc t l') a where
  stored := by rw [htimers]; exact h.stored
  disjoint := by rw [htimers]; exact h.disjoint
  keyed := h.keyed
  started k timer hk := UInt64.le_trans (h.started k timer hk) hclock
  nonneg := by rw [hcur]; exact h.nonneg
  known := by rw [hcur]; exact h.known
  opening u timer hu := by
    rw [view_update (f := Local.opening?) hop] at hu
    exact h.opening u timer hu
  drafting u timer hu := by
    rw [view_update (f := Local.drafting?) hdr] at hu
    exact h.drafting u timer hu
  claimed u k hu := by
    rw [view_update (f := Local.claim?) (by rw [Local.claim?, hop, hdr, Local.claim?])] at hu
    rw [hcur]
    exact h.claimed u k hu
  unique u v k hu hv := by
    rw [view_update (f := Local.claim?) (by rw [Local.claim?, hop, hdr, Local.claim?])] at hu hv
    exact h.unique u v k hu hv
  firing k := by
    simp only [view_update (f := Local.firing?) hfi]
    exact h.firing k
  entry u tab k hu := by
    rw [htimers]
    rcases view_cases hu with ⟨rfl, hnew⟩ | ⟨hne, hold⟩
    · exact hen tab k hnew
    · exact h.entry u tab k hold

theorem move {tab : Tab} {k : ℤ} {p : Phase Fp} (h : Refines g loc a)
    (hset : ∀ tab' j, (g'.timers tab').find? j =
      if tab' = tab ∧ j = k then p.stored? else (g.timers tab').find? j)
    (htab : ∀ tab', ((g.timers tab').find? k).isSome → tab' = tab)
    (hcur : g'.curTimerId = g.curTimerId) (hclock : g.clock ≤ g'.clock)
    (hknown : 1 ≤ k ∧ k ≤ g.curTimerId)
    (hkeyed : ∀ timer, p.timer? = some timer → timer.timerId = k)
    (hstarted : ∀ timer, p.timer? = some timer → timer.startclock ≤ g'.clock)
    (hop : ∀ u timer, (Function.update loc t l' u).opening? = some timer →
      (loc u).opening? = some timer ∧ timer.timerId ≠ k)
    (hdr : ∀ u timer, (Function.update loc t l' u).drafting? = some timer →
      Function.update a k p timer.timerId = .draft timer)
    (hcl : ∀ u j, (Function.update loc t l' u).claim? = some j → (loc u).claim? = some j)
    (hfi : ∀ j, (∃ timer, Function.update a k p j = .firing timer) ↔
      ∃ u tab', (Function.update loc t l' u).firing? = some (tab', j))
    (hen : ∀ u tab' j, (Function.update loc t l' u).standing? = some (tab', j) →
      ((g'.timers tab').find? j).isSome) :
    Refines g' (Function.update loc t l') (Function.update a k p) where
  stored j timer := by
    rcases eq_or_ne j k with rfl | hne
    · rw [Function.update_self]
      constructor
      · intro hp
        exact ⟨tab, by rw [hset, if_pos ⟨rfl, rfl⟩, hp]⟩
      · rintro ⟨tab', hf⟩
        rw [hset] at hf
        split_ifs at hf with hcase
        · exact hf
        · exact absurd ⟨htab tab' (Option.isSome_of_eq_some hf), rfl⟩ hcase
    · rw [Function.update_of_ne hne, h.stored]
      simp only [hset, hne, and_false, if_false]
  disjoint j tab₁ tab₂ h₁ h₂ := by
    rcases eq_or_ne j k with rfl | hne
    · have hall : ∀ tab', ((g'.timers tab').find? j).isSome → tab' = tab := by
        intro tab' hs
        by_contra hcase
        rw [hset, if_neg (fun hc => hcase hc.1)] at hs
        exact hcase (htab tab' hs)
      rw [hall tab₁ h₁, hall tab₂ h₂]
    · rw [hset, if_neg (fun hc => hne hc.2)] at h₁ h₂
      exact h.disjoint j tab₁ tab₂ h₁ h₂
  keyed j timer hj := by
    rcases eq_or_ne j k with rfl | hne
    · rw [Function.update_self] at hj
      exact hkeyed timer hj
    · rw [Function.update_of_ne hne] at hj
      exact h.keyed j timer hj
  started j timer hj := by
    rcases eq_or_ne j k with rfl | hne
    · rw [Function.update_self] at hj
      exact hstarted timer hj
    · rw [Function.update_of_ne hne] at hj
      exact UInt64.le_trans (h.started j timer hj) hclock
  nonneg := by rw [hcur]; exact h.nonneg
  known j := by
    rw [hcur]
    rcases eq_or_ne j k with rfl | hne
    · exact Or.inr hknown
    · rw [Function.update_of_ne hne]
      exact h.known j
  opening u timer hu := by
    obtain ⟨hu, hne⟩ := hop u timer hu
    rw [Function.update_of_ne hne]
    exact h.opening u timer hu
  drafting := hdr
  claimed u j hu := by
    rw [hcur]
    exact h.claimed u j (hcl u j hu)
  unique u v j hu hv := h.unique u v j (hcl u j hu) (hcl v j hv)
  firing := hfi
  entry := hen

theorem claim_ne (h : Refines g loc a) {k : ℤ} {timer : ETimer Fp}
    (hk : (a k).stored? = some timer) {u : ThreadId} {j : ℤ} (hj : (loc u).claim? = some j) :
    j ≠ k := by
  rintro rfl
  rcases h.phase_of_claim hj with habs | ⟨draft, hdraft⟩
  · rw [habs] at hk
    cases hk
  · rw [hdraft] at hk
    cases hk

theorem moveEntry {tab : Tab} {k : ℤ} {old : ETimer Fp} {p : Phase Fp} (h : Refines g loc a)
    (hfind : (g.timers tab).find? k = some old)
    (hset : ∀ tab' j, (g'.timers tab').find? j =
      if tab' = tab ∧ j = k then p.stored? else (g.timers tab').find? j)
    (hcur : g'.curTimerId = g.curTimerId) (hclock : g.clock ≤ g'.clock)
    (hkeyed : ∀ timer, p.timer? = some timer → timer.timerId = k)
    (hstarted : ∀ timer, p.timer? = some timer → timer.startclock ≤ g'.clock)
    (hop : l'.opening? = (loc t).opening?) (hdr : l'.drafting? = (loc t).drafting?)
    (hfi : ∀ j, (∃ timer, Function.update a k p j = .firing timer) ↔
      ∃ u tab', (Function.update loc t l' u).firing? = some (tab', j))
    (hen : ∀ u tab' j, (Function.update loc t l' u).standing? = some (tab', j) →
      ((g'.timers tab').find? j).isSome) :
    Refines g' (Function.update loc t l') (Function.update a k p) := by
  have hk : (a k).stored? = some old := h.stored_of_find hfind
  refine h.move hset ?_ hcur hclock ?_ hkeyed hstarted ?_ ?_ ?_ hfi hen
  · exact fun tab' hs => h.disjoint k tab' tab hs (Option.isSome_of_eq_some hfind)
  · rcases h.known k with habs | hknown
    · rw [habs] at hk
      cases hk
    · exact hknown
  · intro u timer hu
    rw [view_update (f := Local.opening?) hop] at hu
    exact ⟨hu, h.claim_ne hk (Local.claim?_of_opening? hu)⟩
  · intro u timer hu
    rw [view_update (f := Local.drafting?) hdr] at hu
    rw [Function.update_of_ne (h.claim_ne hk (Local.claim?_of_drafting? hu))]
    exact h.drafting u timer hu
  · intro u j hu
    rwa [view_update (f := Local.claim?) (by rw [Local.claim?, hop, hdr, Local.claim?])] at hu

theorem firing_congr {k : ℤ} {p : Phase Fp} (h : Refines g loc a)
    (hp : (∃ timer, p = .firing timer) ↔ ∃ timer, a k = .firing timer)
    (hfi : l'.firing? = (loc t).firing?) (j : ℤ) :
    (∃ timer, Function.update a k p j = .firing timer) ↔
      ∃ u tab', (Function.update loc t l' u).firing? = some (tab', j) := by
  simp only [view_update (f := Local.firing?) hfi, ← h.firing j]
  rcases eq_or_ne j k with rfl | hne
  · rw [Function.update_self, hp]
  · rw [Function.update_of_ne hne]

theorem firing_of_ne {k j : ℤ} {p : Phase Fp} (h : Refines g loc a) (hne : j ≠ k)
    (hself : ∀ tab', l'.firing? = some (tab', j) ↔ (loc t).firing? = some (tab', j)) :
    (∃ timer, Function.update a k p j = .firing timer) ↔
      ∃ u tab', (Function.update loc t l' u).firing? = some (tab', j) := by
  rw [Function.update_of_ne hne, h.firing j]
  refine exists_congr fun u => exists_congr fun tab' => ?_
  rcases eq_or_ne u t with rfl | hut
  · rw [Function.update_self]
    exact (hself tab').symm
  · rw [Function.update_of_ne hut]

theorem entry_kept {tab : Tab} {k : ℤ} {p : Phase Fp} (h : Refines g loc a)
    (hset : ∀ tab' j, (g'.timers tab').find? j =
      if tab' = tab ∧ j = k then p.stored? else (g.timers tab').find? j)
    (hp : p.stored?.isSome)
    (hself : ∀ tab' j, l'.standing? = some (tab', j) → ((g.timers tab').find? j).isSome)
    (u : ThreadId) (tab' : Tab) (j : ℤ)
    (hu : (Function.update loc t l' u).standing? = some (tab', j)) :
    ((g'.timers tab').find? j).isSome := by
  have hold : ((g.timers tab').find? j).isSome := by
    rcases view_cases hu with ⟨rfl, hnew⟩ | ⟨hne, hold⟩
    · exact hself tab' j hnew
    · exact h.entry u tab' j hold
  rw [hset]
  split_ifs
  · exact hp
  · exact hold

theorem entry_next {tab : Tab} {k : ℤ} {p : Phase Fp} (h : Refines g loc a)
    (hlocks : LocksHeld ⟨g, loc⟩) (hat : (loc t).standing? = some (tab, k))
    (hset : ∀ tab' j, (g'.timers tab').find? j =
      if tab' = tab ∧ j = k then p.stored? else (g.timers tab').find? j)
    (hself : l'.update = .looping tab ((g.timers tab).next? k))
    (u : ThreadId) (tab' : Tab) (j : ℤ)
    (hu : (Function.update loc t l' u).standing? = some (tab', j)) :
    ((g'.timers tab').find? j).isSome := by
  rcases view_cases hu with ⟨rfl, hnew⟩ | ⟨hne, hold⟩
  · obtain ⟨rfl, hnext⟩ := Local.of_standing?_looping hself hnew
    have hne : j ≠ k := (OrderedMap.lt_of_next? hnext).ne'
    rw [hset, if_neg (fun hc => hne hc.2)]
    exact OrderedMap.next?_isSome_find? hnext
  · have htab : tab' ≠ tab := by
      rintro rfl
      exact hne (hlocks.eq_of_holds (Local.holds_of_standing? hold) (Local.holds_of_standing? hat))
    rw [hset, if_neg (fun hc => htab hc.1)]
    exact h.entry u tab' j hold

/-- Only the thread in the loop over a table can be running the callback of one of
its entries. -/
theorem eq_of_firing (h : Refines g loc a) (hlocks : LocksHeld ⟨g, loc⟩) {tab tab' : Tab}
    {k : ℤ} {u : ThreadId} (hat : (loc t).standing? = some (tab, k))
    (hu : (loc u).firing? = some (tab', k)) : u = t ∧ tab' = tab := by
  have hent : (loc u).standing? = some (tab', k) := Local.standing?_of_firing? hu
  obtain rfl : tab' = tab := h.disjoint k tab' tab (h.entry u tab' k hent) (h.entry t tab k hat)
  exact ⟨hlocks.eq_of_holds (Local.holds_of_standing? hent) (Local.holds_of_standing? hat), rfl⟩

theorem live_of_looping (h : Refines g loc a) (hlocks : LocksHeld ⟨g, loc⟩) {tab : Tab}
    {k : ℤ} {timer : ETimer Fp} (hu : (loc t).update = .looping tab (some k))
    (hfind : (g.timers tab).find? k = some timer) : a k = .live timer := by
  have hk : (a k).stored? = some timer := h.stored_of_find hfind
  cases hp : a k with
  | absent | draft | gone =>
      rw [hp] at hk
      cases hk
  | live d =>
      rw [hp] at hk
      rw [Option.some.inj hk]
  | firing d =>
      obtain ⟨u, tab', hfi⟩ := (h.firing k).mp ⟨d, hp⟩
      have hat : (loc t).standing? = some (tab, k) := by simp [Local.standing?, hu]
      obtain ⟨rfl, -⟩ := h.eq_of_firing hlocks hat hfi
      simp [Local.firing?, hu] at hfi

theorem firing_of_rearming (h : Refines g loc a) {tab : Tab} {k : ℤ} {timer : ETimer Fp}
    (hu : (loc t).update = .rearming tab k) (hfind : (g.timers tab).find? k = some timer) :
    a k = .firing timer := by
  obtain ⟨d, hd⟩ := (h.firing k).mpr ⟨t, tab, by simp [Local.firing?, hu]⟩
  have hk : (a k).stored? = some timer := h.stored_of_find hfind
  rw [hd] at hk ⊢
  rw [Option.some.inj hk]

/-! ## The moves that change a life -/

theorem take (h : Refines g loc a) {unit : IntervalUnit} {runOnce : Bool} {i : Int32} {fp : Fp}
    (hc : l'.call = some (.opening unit i (ETimer.declare runOnce (g.curTimerId + 1) fp)))
    (hup : l'.update = (loc t).update) :
    Refines { g with curTimerId := g.curTimerId + 1 } (Function.update loc t l') a := by
  have hop : l'.opening? = some (ETimer.declare runOnce (g.curTimerId + 1) fp) := by
    rw [Local.opening?, hc]
    rfl
  have hdr : l'.drafting? = none := by
    rw [Local.drafting?, hc]
    rfl
  have hcl : l'.claim? = some (g.curTimerId + 1) := Local.claim?_of_opening? hop
  have hold : ∀ u k, (loc u).claim? = some k → k ≤ g.curTimerId :=
    fun u k hu => (h.claimed u k hu).2
  refine ⟨h.stored, h.disjoint, h.keyed, h.started, ?_, ?_, ?_, ?_, ?_, ?_, ?_, ?_⟩
  · have := h.nonneg
    change 0 ≤ g.curTimerId + 1
    omega
  · intro k
    refine (h.known k).imp id fun hk => ⟨hk.1, ?_⟩
    change k ≤ g.curTimerId + 1
    omega
  · intro u timer hu
    rcases view_cases hu with ⟨rfl, hnew⟩ | ⟨hne, hold⟩
    · rw [hop] at hnew
      obtain rfl := Option.some.inj hnew
      refine ⟨(h.known (g.curTimerId + 1)).resolve_right fun hk => ?_, rfl⟩
      omega
    · exact h.opening u timer hold
  · intro u timer hu
    rcases view_cases hu with ⟨rfl, hnew⟩ | ⟨hne, hold⟩
    · rw [hdr] at hnew
      cases hnew
    · exact h.drafting u timer hold
  · intro u k hu
    change 1 ≤ k ∧ k ≤ g.curTimerId + 1
    rcases view_cases hu with ⟨rfl, hnew⟩ | ⟨hne, hold⟩
    · rw [hcl] at hnew
      obtain rfl : g.curTimerId + 1 = k := Option.some.inj hnew
      have := h.nonneg
      omega
    · have := h.claimed u k hold
      omega
  · intro u v k hu hv
    rcases view_cases hu with ⟨hut, hu'⟩ | ⟨-, hu'⟩
    · rcases view_cases hv with ⟨hvt, -⟩ | ⟨-, hv'⟩
      · exact hut.trans hvt.symm
      · rw [hcl] at hu'
        obtain rfl : g.curTimerId + 1 = k := Option.some.inj hu'
        have := hold v _ hv'
        omega
    · rcases view_cases hv with ⟨-, hv'⟩ | ⟨-, hv'⟩
      · rw [hcl] at hv'
        obtain rfl : g.curTimerId + 1 = k := Option.some.inj hv'
        have := hold u _ hu'
        omega
      · exact h.unique u v k hu' hv'
  · intro k
    simp only [view_update (f := Local.firing?) (Local.firing?_congr hup)]
    exact h.firing k
  · intro u tab k hu
    rw [view_update (f := Local.standing?) (Local.standing?_congr hup)] at hu
    exact h.entry u tab k hu

theorem claim_ne_of_ne (h : Refines g loc a) {k : ℤ} (hk : (loc t).claim? = some k)
    {u : ThreadId} (hu : u ≠ t) {j : ℤ} (hj : (loc u).claim? = some j) : j ≠ k := by
  rintro rfl
  exact hu (h.unique u t j hj hk)

theorem find_none_of_claim (h : Refines g loc a) {u : ThreadId} {k : ℤ}
    (hk : (loc u).claim? = some k) (tab : Tab) : (g.timers tab).find? k = none := by
  apply h.find_none
  rcases h.phase_of_claim hk with habs | ⟨draft, hdraft⟩
  · rw [habs]
    rfl
  · rw [hdraft]
    rfl

theorem moveClaim {tab : Tab} {k : ℤ} {p : Phase Fp} (h : Refines g loc a)
    (hk : (loc t).claim? = some k)
    (hset : ∀ tab' j, (g'.timers tab').find? j =
      if tab' = tab ∧ j = k then p.stored? else (g.timers tab').find? j)
    (hcur : g'.curTimerId = g.curTimerId) (hclock : g.clock ≤ g'.clock)
    (hkeyed : ∀ timer, p.timer? = some timer → timer.timerId = k)
    (hstarted : ∀ timer, p.timer? = some timer → timer.startclock ≤ g'.clock)
    (hp : ∀ timer, p ≠ .firing timer) (hop : l'.opening? = none)
    (hdr : ∀ timer, l'.drafting? = some timer → p = .draft timer ∧ timer.timerId = k)
    (hup : l'.update = (loc t).update)
    (hen : ∀ u tab' j, (Function.update loc t l' u).standing? = some (tab', j) →
      ((g'.timers tab').find? j).isSome) :
    Refines g' (Function.update loc t l') (Function.update a k p) := by
  refine h.move hset ?_ hcur hclock (h.claimed t k hk) hkeyed hstarted ?_ ?_ ?_ ?_ hen
  · intro tab' hs
    rw [h.find_none_of_claim hk] at hs
    cases hs
  · intro u timer hu
    rcases view_cases hu with ⟨rfl, hnew⟩ | ⟨hne, hold⟩
    · rw [hop] at hnew
      cases hnew
    · exact ⟨hold, h.claim_ne_of_ne hk hne (Local.claim?_of_opening? hold)⟩
  · intro u timer hu
    rcases view_cases hu with ⟨rfl, hnew⟩ | ⟨hne, hold⟩
    · obtain ⟨hdraft, hid⟩ := hdr timer hnew
      rw [hid, Function.update_self, hdraft]
    · rw [Function.update_of_ne (h.claim_ne_of_ne hk hne (Local.claim?_of_drafting? hold))]
      exact h.drafting u timer hold
  · intro u j hu
    rcases view_cases hu with ⟨rfl, hnew⟩ | ⟨-, hold⟩
    · rw [Local.claim?, hop, Option.none_or] at hnew
      obtain ⟨timer, htimer, rfl⟩ := Option.map_eq_some_iff.mp hnew
      rw [hk, (hdr timer htimer).2]
    · exact hold
  · apply h.firing_congr ?_ (Local.firing?_congr hup)
    refine iff_of_false (fun hfiring => hfiring.elim hp) ?_
    rintro ⟨timer, htimer⟩
    rcases h.phase_of_claim hk with habs | ⟨draft, hdraft⟩
    · rw [habs] at htimer
      cases htimer
    · rw [hdraft] at htimer
      cases htimer

theorem openTimer (h : Refines g loc a) {timer timer' : ETimer Fp} {now : UInt64}
    (hop : (loc t).opening? = some timer) (hid : timer'.timerId = timer.timerId)
    (hstart : timer'.startclock = now) (hclock : g.clock ≤ now)
    (hop' : l'.opening? = none) (hdr' : l'.drafting? = some timer')
    (hup : l'.update = (loc t).update) :
    Refines { g with clock := now } (Function.update loc t l')
      (Function.update a timer.timerId (.draft timer')) := by
  have hk : (loc t).claim? = some timer.timerId := Local.claim?_of_opening? hop
  have hset : ∀ tab' j, (({ g with clock := now } : TimerThread Fp).timers tab').find? j =
      if tab' = .timers1 ∧ j = timer.timerId then (Phase.draft timer').stored?
      else (g.timers tab').find? j := by
    intro tab' j
    split_ifs with hcase
    · rw [hcase.2, h.find_none_of_claim hk]
      rfl
    · rfl
  have hstarted : timer'.startclock ≤ now := by
    rw [hstart]
    exact UInt64.le_refl now
  refine h.moveClaim hk hset rfl hclock (Phase.timer?_forall rfl hid)
    (Phase.timer?_forall rfl hstarted) nofun hop' ?_ hup ?_
  · intro d hd
    obtain rfl : timer' = d := Option.some.inj (hdr'.symm.trans hd)
    exact ⟨rfl, hid⟩
  · intro u tab k hu
    rw [view_update (f := Local.standing?) (Local.standing?_congr hup)] at hu
    exact h.entry u tab k hu

theorem insert (h : Refines g loc a) {tab : Tab} {timer : ETimer Fp}
    (hdr : (loc t).drafting? = some timer) (hop' : l'.opening? = none)
    (hdr' : l'.drafting? = none) (hup : l'.update = (loc t).update) :
    Refines (g.insert tab timer) (Function.update loc t l')
      (Function.update a timer.timerId (.live timer)) := by
  have hk : (loc t).claim? = some timer.timerId := Local.claim?_of_drafting? hdr
  have hdraft : a timer.timerId = .draft timer := h.drafting t timer hdr
  have hset : ∀ tab' j, ((g.insert tab timer).timers tab').find? j =
      if tab' = tab ∧ j = timer.timerId then (Phase.live timer).stored?
      else (g.timers tab').find? j := by
    intro tab' j
    rw [TimerThread.find?_insert, h.find_none_of_claim hk]
    rfl
  have hstarted : timer.startclock ≤ g.clock :=
    h.started timer.timerId timer (by rw [hdraft]; rfl)
  refine h.moveClaim hk hset rfl (UInt64.le_refl g.clock) (Phase.timer?_forall rfl rfl)
    (Phase.timer?_forall rfl hstarted) nofun hop' ?_ hup ?_
  · intro d hd
    rw [hdr'] at hd
    cases hd
  · apply h.entry_kept hset rfl
    intro tab' j hj
    rw [Local.standing?_congr hup] at hj
    exact h.entry t tab' j hj

theorem stored_eq (h : Refines g loc a) {k : ℤ} {timer : ETimer Fp}
    (hk : (a k).stored? = some timer) : timer.timerId = k ∧ timer.startclock ≤ g.clock := by
  have hrec : (a k).timer? = some timer := by
    cases hp : a k <;> simp_all [Phase.stored?, Phase.timer?]
  exact ⟨h.keyed k timer hrec, h.started k timer hrec⟩

theorem mark (h : Refines g loc a) {tab : Tab} {k : ℤ} {timer : ETimer Fp}
    (hfind : (g.timers tab).find? k = some timer) (hop : l'.opening? = (loc t).opening?)
    (hdr : l'.drafting? = (loc t).drafting?) (hup : l'.update = (loc t).update)
    {p : Phase Fp} (hp : p.stored? = some timer.mark) (hp' : p.timer? = p.stored?)
    (hfi : (∃ d, p = .firing d) ↔ ∃ d, a k = .firing d) :
    Refines (g.mark tab k) (Function.update loc t l') (Function.update a k p) := by
  obtain ⟨hid, hstart⟩ := h.stored_eq (h.stored_of_find hfind)
  have hset : ∀ tab' j, ((g.mark tab k).timers tab').find? j =
      if tab' = tab ∧ j = k then p.stored? else (g.timers tab').find? j := by
    intro tab' j
    rw [TimerThread.find?_mark, hfind, hp]
    rfl
  have htimer : p.timer? = some timer.mark := hp'.trans hp
  refine h.moveEntry hfind hset rfl (UInt64.le_refl g.clock) (Phase.timer?_forall htimer hid)
    (Phase.timer?_forall htimer hstart) hop hdr (h.firing_congr hfi (Local.firing?_congr hup)) ?_
  refine h.entry_kept hset (by rw [hp]; rfl) ?_
  intro tab' j hj
  rw [Local.standing?_congr hup] at hj
  exact h.entry t tab' j hj

theorem erase (h : Refines g loc a) (hlocks : LocksHeld ⟨g, loc⟩) {tab : Tab} {k : ℤ}
    {timer : ETimer Fp} (hfind : (g.timers tab).find? k = some timer)
    (hu : (loc t).update = .looping tab (some k)) (hc : l'.call = (loc t).call)
    (hup : l'.update = .looping tab ((g.timers tab).next? k)) :
    Refines (g.erase tab k) (Function.update loc t l') (Function.update a k .gone) := by
  have hset : ∀ tab' j, ((g.erase tab k).timers tab').find? j =
      if tab' = tab ∧ j = k then (Phase.gone : Phase Fp).stored? else (g.timers tab').find? j :=
    fun tab' j => TimerThread.find?_erase g tab tab' k j
  have hat : (loc t).standing? = some (tab, k) := by simp [Local.standing?, hu]
  have hfi : l'.firing? = (loc t).firing? := by simp [Local.firing?, hu, hup]
  refine h.moveEntry hfind hset rfl (UInt64.le_refl g.clock)
    (fun _ hd => absurd hd Phase.timer?_gone) (fun _ hd => absurd hd Phase.timer?_gone)
    (Local.opening?_congr hc) (Local.drafting?_congr hc) (h.firing_congr ?_ hfi)
    (h.entry_next hlocks hat hset hup)
  simp [h.live_of_looping hlocks hu hfind]

theorem fire (h : Refines g loc a) {tab : Tab} {k : ℤ}
    {timer : ETimer Fp} {now : UInt64} (hfind : (g.timers tab).find? k = some timer)
    (hu : (loc t).update = .looping tab (some k)) (hclock : g.clock ≤ now)
    (hc : l'.call = (loc t).call) (hup : l'.update = .callback tab k) :
    Refines { g with clock := now } (Function.update loc t l')
      (Function.update a k (.firing timer)) := by
  obtain ⟨hid, hstart⟩ := h.stored_eq (h.stored_of_find hfind)
  have hset : ∀ tab' j, (({ g with clock := now } : TimerThread Fp).timers tab').find? j =
      if tab' = tab ∧ j = k then (Phase.firing timer).stored? else (g.timers tab').find? j := by
    intro tab' j
    split_ifs with hcase
    · rw [hcase.1, hcase.2, hfind]
      rfl
    · rfl
  refine h.moveEntry hfind hset rfl hclock (Phase.timer?_forall rfl hid)
    (Phase.timer?_forall rfl (UInt64.le_trans hstart hclock))
    (Local.opening?_congr hc) (Local.drafting?_congr hc) ?_ ?_
  · intro j
    rcases eq_or_ne j k with rfl | hne
    · refine iff_of_true ⟨timer, Function.update_self j _ a⟩ ⟨t, tab, ?_⟩
      rw [Function.update_self]
      simp [Local.firing?, hup]
    · apply h.firing_of_ne hne
      simp [Local.firing?, hu, hup, hne.symm]
  · apply h.entry_kept hset rfl
    intro tab' j hj
    obtain ⟨rfl, rfl⟩ : tab = tab' ∧ k = j := by simpa [Local.standing?, hup] using hj
    exact Option.isSome_of_eq_some hfind

theorem rearm (h : Refines g loc a) (hlocks : LocksHeld ⟨g, loc⟩) {tab : Tab} {k : ℤ}
    {timer : ETimer Fp} {now : UInt64} (hfind : (g.timers tab).find? k = some timer)
    (hu : (loc t).update = .rearming tab k) (hclock : g.clock ≤ now)
    (hc : l'.call = (loc t).call)
    (hup : l'.update = .looping tab ((g.timers tab).next? k)) :
    Refines
      (if timer.runOnce then (({ g with clock := now }).rearm tab k now).erase tab k
        else ({ g with clock := now }).rearm tab k now)
      (Function.update loc t l')
      (Function.update a k (if timer.runOnce then .gone else .live (timer.rearm now))) := by
  obtain ⟨hid, -⟩ := h.stored_eq (h.stored_of_find hfind)
  have hat : (loc t).standing? = some (tab, k) := by simp [Local.standing?, hu]
  have hfi : ∀ p : Phase Fp, (∀ d, p ≠ .firing d) → ∀ j,
      (∃ d, Function.update a k p j = .firing d) ↔
        ∃ u tab', (Function.update loc t l' u).firing? = some (tab', j) := by
    intro p hp j
    rcases eq_or_ne j k with rfl | hne
    · rw [Function.update_self]
      refine iff_of_false (fun hfiring => hfiring.elim hp) ?_
      rintro ⟨u, tab', hf⟩
      rcases view_cases hf with ⟨rfl, hnew⟩ | ⟨hut, hold⟩
      · simp [Local.firing?, hup] at hnew
      · exact hut (h.eq_of_firing hlocks hat hold).1
    · apply h.firing_of_ne hne
      simp [Local.firing?, hu, hup, hne.symm]
  cases honce : timer.runOnce with
  | true =>
      have hset : ∀ tab' j,
          (((({ g with clock := now } : TimerThread Fp).rearm tab k now).erase tab k).timers
            tab').find? j =
          if tab' = tab ∧ j = k then (Phase.gone : Phase Fp).stored?
          else (g.timers tab').find? j := by
        intro tab' j
        rw [TimerThread.find?_erase, TimerThread.find?_rearm]
        split_ifs <;> rfl
      exact h.moveEntry hfind hset rfl hclock (fun _ hd => absurd hd Phase.timer?_gone)
        (fun _ hd => absurd hd Phase.timer?_gone) (Local.opening?_congr hc)
        (Local.drafting?_congr hc) (hfi _ (by simp)) (h.entry_next hlocks hat hset hup)
  | false =>
      have hset : ∀ tab' j,
          ((({ g with clock := now } : TimerThread Fp).rearm tab k now).timers tab').find? j =
          if tab' = tab ∧ j = k then (Phase.live (timer.rearm now)).stored?
          else (g.timers tab').find? j := by
        intro tab' j
        rw [TimerThread.find?_rearm]
        simp only [hfind]
        rfl
      have htimer : (Phase.live (timer.rearm now)).timer? = some (timer.rearm now) := rfl
      exact h.moveEntry hfind hset rfl hclock (Phase.timer?_forall htimer hid)
        (Phase.timer?_forall htimer (UInt64.le_refl now)) (Local.opening?_congr hc)
        (Local.drafting?_congr hc) (hfi _ (by simp)) (h.entry_next hlocks hat hset hup)

end Refines

end Qing
