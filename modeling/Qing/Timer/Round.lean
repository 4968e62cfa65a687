import Qing.Timer.Callback
import Qing.Timer.Rate

/-!
# A call of `Update` among other threads

One call of `Update` takes the two mutexes one after the other, and between the two, or
before the first, other threads may insert, cancel and sweep. `Ahead` says which entries a
position in `Update` has still before it. Whatever the others do, the call meets entries in
the order of the tables and of the ids, and every entry that was there when it was called,
except one that another call of `Update` takes out first (`round_meets`). So a timer that is
due is fired before the call returns, if it is not cancelled (`due_fired`).
-/

namespace Qing

/-- The order in which `Update` meets entries. -/
def Before (x y : Tab × ℤ) : Prop :=
  x.1 = .timers1 ∧ y.1 = .timers2 ∨ x.1 = y.1 ∧ x.2 < y.2

/-- The entries that a position in `Update` has still before it, if they are there. -/
def UpdatePc.Ahead (x : Tab × ℤ) : UpdatePc → Prop
  | outside => False
  | locking tab => tab = .timers1 ∨ x.1 = tab
  | looping tab it => tab = .timers1 ∧ x.1 = .timers2 ∨ x.1 = tab ∧ ∃ j, it = some j ∧ j ≤ x.2
  | callback tab j | rearming tab j => Before (tab, j) x

variable {Fp : Type*} {countTick : UInt64}

/-- The entry that thread `t` meets in a turn of its loop. -/
def Event.meets? (t : ThreadId) : Event Fp → Option (Tab × ℤ)
  | erased u tab k | skipped u tab k _ | fired u tab k _ => if u = t then some (tab, k) else none
  | _ => none

theorem Event.of_meets? {t : ThreadId} {e : Event Fp} {x : Tab × ℤ} (h : e.meets? t = some x) :
    e = .erased t x.1 x.2 ∨ ∃ now, e = .skipped t x.1 x.2 now ∨ e = .fired t x.1 x.2 now := by
  cases e with
  | erased u tab k =>
      simp only [meets?] at h
      split_ifs at h with hu
      obtain rfl := Option.some.inj h
      exact Or.inl (by rw [hu])
  | skipped u tab k now =>
      simp only [meets?] at h
      split_ifs at h with hu
      obtain rfl := Option.some.inj h
      exact Or.inr ⟨now, Or.inl (by rw [hu])⟩
  | fired u tab k now =>
      simp only [meets?] at h
      split_ifs at h with hu
      obtain rfl := Option.some.inj h
      exact Or.inr ⟨now, Or.inr (by rw [hu])⟩
  | internal | took | opened | inserted | registerReturned | unRegisterCalled | marked
  | unRegisterReturned | updateCalled | updateReturned | rearmed => cases h

section Meets

variable {t : ThreadId} {e : Event Fp} {x : Tab × ℤ}

theorem Event.at?_of_meets? (h : e.meets? t = some x) : e.at? = some (t, x.1) := by
  obtain rfl | ⟨now, rfl | rfl⟩ := of_meets? h <;> rfl

theorem Event.subject?_of_meets? (h : e.meets? t = some x) : e.subject? = some x.2 := by
  obtain rfl | ⟨now, rfl | rfl⟩ := of_meets? h <;> rfl

theorem Event.isVisit_of_meets? (h : e.meets? t = some x) : e.isVisit = true := by
  obtain rfl | ⟨now, rfl | rfl⟩ := of_meets? h <;> rfl

end Meets

/-! ## One step of the round -/

/-- What a step of thread `t` does to the entries that its position `u` has before it, the
tables being those of `g`: none comes up again, and one that is there is passed only by
meeting it, after all that come before it. -/
structure Advances (t : ThreadId) (g : TimerThread Fp) (e : Event Fp) (u u' : UpdatePc) :
    Prop where
  mono : ∀ x, u'.Ahead x → u.Ahead x ∧ e.meets? t ≠ some x
  meets : ∀ x, u.Ahead x → ((g.timers x.1).find? x.2).isSome →
    u'.Ahead x ∨ e.meets? t = some x
  order : ∀ x, e.meets? t = some x → ∀ y, ¬ u.Ahead y → Before y x

section Advances

variable {t : ThreadId} {g g' : TimerThread Fp} {l l' : Local Fp} {e : Event Fp} {u u' : UpdatePc}

theorem Advances.quiet (he : e.meets? t = none) (hu : ∀ x, u'.Ahead x ↔ u.Ahead x) :
    Advances t g e u u' where
  mono x hx := ⟨(hu x).mp hx, by rw [he]; exact (Option.some_ne_none x).symm⟩
  meets x hx _ := Or.inl ((hu x).mpr hx)
  order x hx := by
    rw [he] at hx
    cases hx

theorem not_ahead_looping {tab : Tab} {k : ℤ} {y : Tab × ℤ}
    (h : ¬ (UpdatePc.looping tab (some k)).Ahead y) : Before y (tab, k) := by
  obtain ⟨tab', j⟩ := y
  simp only [UpdatePc.Ahead, Option.some.injEq, exists_eq_left'] at h
  cases tab <;> cases tab' <;> simp_all [Before]

theorem ahead_next {m : TimerMap Fp} {tab : Tab} {k : ℤ} {x : Tab × ℤ} (h : Before (tab, k) x)
    (hx : x.1 = tab → (m.find? x.2).isSome) : (UpdatePc.looping tab (m.next? k)).Ahead x := by
  rcases h with h | ⟨htab, hlt⟩
  · exact Or.inl h
  · exact Or.inr ⟨htab.symm, OrderedMap.next?_le hlt (hx htab.symm)⟩

theorem before_of_ahead_next {m : TimerMap Fp} {tab : Tab} {k : ℤ} {x : Tab × ℤ}
    (h : (UpdatePc.looping tab (m.next? k)).Ahead x) : Before (tab, k) x := by
  rcases h with h | ⟨htab, j, hj, hle⟩
  · exact Or.inl h
  · exact Or.inr ⟨htab.symm, (OrderedMap.lt_of_next? hj).trans_le hle⟩

theorem ahead_looping_iff {tab : Tab} {k : ℤ} {x : Tab × ℤ} :
    (UpdatePc.looping tab (some k)).Ahead x ↔ x = (tab, k) ∨ Before (tab, k) x := by
  obtain ⟨tab', j⟩ := x
  simp only [UpdatePc.Ahead, Option.some.injEq, exists_eq_left', Before, Prod.mk.injEq]
  constructor
  · rintro (h | ⟨rfl, hle⟩)
    · exact Or.inr (Or.inl h)
    · rcases hle.eq_or_lt with rfl | hlt
      · exact Or.inl ⟨rfl, rfl⟩
      · exact Or.inr (Or.inr ⟨rfl, hlt⟩)
  · rintro (⟨rfl, rfl⟩ | h | ⟨rfl, hlt⟩)
    · exact Or.inr ⟨rfl, le_rfl⟩
    · exact Or.inl h
    · exact Or.inr ⟨rfl, hlt.le⟩

theorem not_before_self (x : Tab × ℤ) : ¬ Before x x := by
  rintro (⟨h₁, h₂⟩ | ⟨-, hlt⟩)
  · rw [h₁] at h₂
    cases h₂
  · exact lt_irrefl _ hlt

theorem Advances.turn {tab : Tab} {k : ℤ} (he : e.meets? t = some (tab, k))
    (hmono : ∀ x, u'.Ahead x → Before (tab, k) x)
    (hmeets : ∀ x, Before (tab, k) x → ((g.timers x.1).find? x.2).isSome → u'.Ahead x) :
    Advances t g e (.looping tab (some k)) u' where
  mono x hx := by
    refine ⟨ahead_looping_iff.mpr (Or.inr (hmono x hx)), ?_⟩
    rw [he]
    rintro heq
    obtain rfl := Option.some.inj heq
    exact not_before_self _ (hmono _ hx)
  meets x hx hfind := by
    rcases ahead_looping_iff.mp hx with rfl | hbefore
    · exact Or.inr he
    · exact Or.inl (hmeets x hbefore hfind)
  order x hx y hy := by
    rw [he] at hx
    obtain rfl := Option.some.inj hx
    exact not_ahead_looping hy

theorem Step.advances (h : Step countTick t g l g' l' e) (hin : l.update ≠ .outside) :
    Advances t g e l.update l'.update := by
  cases h with
  | take | openTimer | tryLockTakes | tryLockFails | insert | unlockInserted | returnId
  | callUnRegister | lockUnRegister | find | miss | leaveReturn | leaveMissed =>
      exact Advances.quiet rfl fun _ => Iff.rfl
  | callUpdate hc hu => exact absurd hu hin
  | lockUpdate tab g₁ hc hu hlock =>
      rw [hu]
      refine ⟨fun x hx => ⟨?_, nofun⟩, fun x hx hfind => Or.inl ?_, nofun⟩
      · rcases hx with ⟨htab, -⟩ | ⟨htab, -⟩
        · exact Or.inl htab
        · exact Or.inr htab
      · by_cases htab : x.1 = tab
        · rw [htab] at hfind
          exact Or.inr ⟨htab, OrderedMap.first?_le hfind⟩
        · have hfirst : tab = .timers1 := hx.resolve_right htab
          refine Or.inl ⟨hfirst, ?_⟩
          rw [hfirst] at htab
          cases hx1 : x.1 with
          | timers1 => exact absurd hx1 htab
          | timers2 => rfl
  | endFirst g₁ hc hu hlock =>
      rw [hu]
      refine Advances.quiet rfl fun x => ?_
      simp [UpdatePc.Ahead]
  | endSecond g₁ hc hu hlock =>
      rw [hu]
      refine Advances.quiet rfl fun x => ?_
      simp [UpdatePc.Ahead]
  | erase tab k timer hc hu | skip tab k timer now hc hu =>
      rw [hu]
      refine Advances.turn (by simp [Event.meets?]) (fun x hx => before_of_ahead_next hx) ?_
      intro x hx hfind
      exact ahead_next hx fun htab => by rwa [htab] at hfind
  | fire tab k timer now hc hu =>
      rw [hu]
      exact Advances.turn (by simp [Event.meets?]) (fun x hx => hx) fun x hx _ => hx
  | callbackReturn tab k hc hu =>
      rw [hu]
      exact Advances.quiet rfl fun _ => Iff.rfl
  | rearm tab k timer now hc hu =>
      rw [hu]
      refine ⟨fun x hx => ⟨before_of_ahead_next hx, nofun⟩, fun x hx hfind => Or.inl ?_, nofun⟩
      exact ahead_next hx fun htab => by rwa [htab] at hfind

end Advances

/-! ## The whole round -/

/-- Thread `t` has met `seen` since it called `Update`, the tables having been `m` then. -/
structure Round (t : ThreadId) (m : Tab → TimerMap Fp) (seen : List (Tab × ℤ)) (s : State Fp)
    (a : ℤ → Phase Fp) : Prop where
  sorted : seen.Pairwise Before
  behind : ∀ x ∈ seen, ¬ (s.loc t).update.Ahead x
  settled : ∀ tab k, ((m tab).find? k).isSome → (a k).Settled
  met : ∀ tab k, ((m tab).find? k).isSome → ¬ (s.loc t).update.Ahead (tab, k) →
    (tab, k) ∈ seen ∨ (s.engine.timers tab).find? k = none

section Round

variable {t : ThreadId} {m : Tab → TimerMap Fp} {seen : List (Tab × ℤ)} {s s' : State Fp}
  {a a' : ℤ → Phase Fp} {e : Event Fp} {k : ℤ}

/-- An id that was inserted is not inserted again. -/
theorem find_none_of_settled (href : Refines s.engine s.loc a) (hset : (a k).Settled)
    (hstep : (engineSystem Fp countTick).step s e s') {tab : Tab}
    (hnone : (s.engine.timers tab).find? k = none) : (s'.engine.timers tab).find? k = none := by
  obtain ⟨u, g', l', hst, rfl⟩ := step_of_system hstep
  refine hst.find_none ?_ hnone
  rintro timer hdr rfl
  rw [href.drafting u timer hdr] at hset
  exact hset

theorem settled_step (hledger : (ledger Fp countTick).step a e a') (hset : (a k).Settled) :
    (a' k).Settled := by
  rcases System.product_step hledger k with ⟨-, heq⟩ | ⟨-, hlife⟩
  · rwa [heq]
  · exact hlife.settled hset

/-- What a step of any thread does to the entries that thread `t` has before it. -/
theorem advances_of_step (hstep : (engineSystem Fp countTick).step s e s')
    (hin : (s.loc t).update ≠ .outside) :
    Advances t s.engine e (s.loc t).update (s'.loc t).update := by
  obtain ⟨u, g', l', hst, rfl⟩ := step_of_system hstep
  rcases eq_or_ne u t with rfl | hne
  · rw [State.put_loc_self]
    exact hst.advances hin
  · rw [State.put_loc_of_ne hne.symm]
    refine Advances.quiet ?_ fun _ => Iff.rfl
    by_contra hmeets
    obtain ⟨x, hx⟩ := Option.ne_none_iff_exists'.mp hmeets
    exact hne (hst.holds_of_at? (Event.at?_of_meets? hx)).1.symm

theorem Round.step (h : Round t m seen s a) (hin : (s.loc t).update ≠ .outside)
    (href : Refines s.engine s.loc a)
    (hst : (engineLedger Fp countTick).step (s, a) e (s', a')) :
    Round t m (seen ++ (e.meets? t).toList) s' a' := by
  obtain ⟨hengine, hledger, -⟩ := hst
  have hadv := advances_of_step hengine hin
  refine ⟨?_, ?_, fun tab k hk => settled_step hledger (h.settled tab k hk), ?_⟩
  · refine List.pairwise_append.mpr ⟨h.sorted, ?_, ?_⟩
    · cases e.meets? t with
      | none => exact List.Pairwise.nil
      | some x => exact List.pairwise_singleton Before x
    · intro y hy x hx
      exact hadv.order x (Option.mem_toList.mp hx) y (h.behind y hy)
  · intro x hx hahead
    obtain ⟨hbefore, hne⟩ := hadv.mono x hahead
    rcases List.mem_append.mp hx with hx | hx
    · exact h.behind x hx hbefore
    · exact hne (Option.mem_toList.mp hx)
  · intro tab k hk hahead
    by_cases hbefore : (s.loc t).update.Ahead (tab, k)
    · cases hfind : (s.engine.timers tab).find? k with
      | none => exact Or.inr (find_none_of_settled href (h.settled tab k hk) hengine hfind)
      | some timer =>
          rcases hadv.meets (tab, k) hbefore (Option.isSome_of_eq_some hfind) with hlater | hmeets
          · exact absurd hlater hahead
          · exact Or.inl (List.mem_append_right seen (Option.mem_toList.mpr hmeets))
    · rcases h.met tab k hk hbefore with hseen | hnone
      · exact Or.inl (List.mem_append_left _ hseen)
      · exact Or.inr (find_none_of_settled href (h.settled tab k hk) hengine hnone)

theorem update_ne_outside (hstep : (engineSystem Fp countTick).step s e s')
    (hin : (s.loc t).update ≠ .outside) (he : e ≠ .updateReturned t) :
    (s'.loc t).update ≠ .outside := by
  obtain ⟨u, g', l', hst, rfl⟩ := step_of_system hstep
  rcases eq_or_ne u t with rfl | hne
  · rw [State.put_loc_self]
    cases hst with
    | take | openTimer | tryLockTakes | tryLockFails | insert | unlockInserted | returnId
    | callUnRegister | lockUnRegister | find | miss | leaveReturn | leaveMissed => exact hin
    | endSecond => exact absurd rfl he
    | callUpdate | lockUpdate | endFirst | erase | fire | skip | callbackReturn | rearm => nofun
  · rwa [State.put_loc_of_ne hne.symm]

theorem Round.path {q q' : State Fp × (ℤ → Phase Fp)} {tr : List (Event Fp)}
    (hpath : (engineLedger Fp countTick).Path q tr q') (hq : Refines q.1.engine q.1.loc q.2)
    (h : Round t m seen q.1 q.2) (hin : (q.1.loc t).update ≠ .outside)
    (hmid : .updateReturned t ∉ tr) :
    Refines q'.1.engine q'.1.loc q'.2 ∧ (q'.1.loc t).update ≠ .outside ∧
      Round t m (seen ++ tr.filterMap (Event.meets? t)) q'.1 q'.2 := by
  induction hpath with
  | refl => exact ⟨hq, hin, by rwa [List.filterMap_nil, List.append_nil]⟩
  | @tail q₁ q₂ tr e _ hst ih =>
      obtain ⟨hq₁, hin₁, hround⟩ := ih fun hmem => hmid (List.mem_append_left [e] hmem)
      have he : e ≠ .updateReturned t := by
        rintro rfl
        exact hmid (List.mem_append_right tr List.mem_cons_self)
      refine ⟨hst.2.2.2, update_ne_outside hst.1 hin₁ he, ?_⟩
      have hsplit : (tr ++ [e]).filterMap (Event.meets? t) =
          tr.filterMap (Event.meets? t) ++ (e.meets? t).toList := by
        rw [List.filterMap_append]
        cases he : e.meets? t <;> simp [he]
      rw [hsplit, ← List.append_assoc]
      exact hround.step hin₁ hq₁ hst

theorem update_of_returned (hstep : (engineSystem Fp countTick).step s (.updateReturned t) s') :
    (s'.loc t).update = .outside := by
  obtain ⟨u, g', l', hst, rfl⟩ := step_of_system hstep
  cases hst with
  | endSecond => rw [State.put_loc_self]

theorem Round.start (href : Refines s.engine s.loc a)
    (hst : (engineLedger Fp countTick).step (s, a) (.updateCalled t) (s', a')) :
    Round t s.engine.timers [] s' a' ∧ (s'.loc t).update ≠ .outside := by
  obtain ⟨hengine, hledger, -⟩ := hst
  have hsame : a' = a := ledger_eq_of_quiet hledger rfl
  obtain ⟨u, g', l', hstep, rfl⟩ := step_of_system hengine
  cases hstep with
  | callUpdate hc hu =>
      refine ⟨⟨List.Pairwise.nil, nofun, ?_, ?_⟩, ?_⟩
      · intro tab k hk
        obtain ⟨timer, hfind⟩ := Option.isSome_iff_exists.mp hk
        have hstored := href.stored_of_find hfind
        rw [hsame]
        cases hp : a k with
        | absent | draft =>
            rw [hp] at hstored
            cases hstored
        | live | firing | gone => trivial
      · intro tab k _ hahead
        rw [State.put_loc_self] at hahead
        exact absurd (Or.inl rfl) hahead
      · rw [State.put_loc_self]
        nofun

end Round

/-- A call of `Update` from its call to its return, among the steps of other threads. -/
structure UpdateCall (countTick : UInt64) (t : ThreadId) (pre mid : List (Event Fp))
    (s₁ s₂ s₃ s₄ : State Fp) : Prop where
  before : (engineSystem Fp countTick).Run pre s₁
  called : (engineSystem Fp countTick).step s₁ (.updateCalled t) s₂
  during : (engineSystem Fp countTick).Path s₂ mid s₃
  inside : .updateReturned t ∉ mid
  returned : (engineSystem Fp countTick).step s₃ (.updateReturned t) s₄

theorem UpdateCall.round {t : ThreadId} {pre mid : List (Event Fp)} {s₁ s₂ s₃ s₄ : State Fp}
    (h : UpdateCall countTick t pre mid s₁ s₂ s₃ s₄) :
    ∃ a, Round t s₁.engine.timers (mid.filterMap (Event.meets? t)) s₄ a := by
  obtain ⟨a₁, hrun, hR₁⟩ := h.before.paired ledger_simulation
  obtain ⟨a₂, hcalled, hR₂⟩ := ledger_simulation.step _ _ _ _ hR₁ h.called
  obtain ⟨a₃, hmid, hR₃⟩ := h.during.paired ledger_simulation hR₂
  obtain ⟨a₄, hreturned, hR₄⟩ := ledger_simulation.step _ _ _ _ hR₃ h.returned
  obtain ⟨hstart, hin₂⟩ := Round.start hR₁.2 ⟨h.called, hcalled, hR₂⟩
  obtain ⟨-, hin₃, hround⟩ := hstart.path hmid hR₂.2 hin₂ h.inside
  have hend := hround.step hin₃ hR₃.2 ⟨h.returned, hreturned, hR₄⟩
  have hseen : [] ++ mid.filterMap (Event.meets? t) ++
      ((.updateReturned t : Event Fp).meets? t).toList = mid.filterMap (Event.meets? t) :=
    List.append_nil _
  rw [hseen] at hend
  exact ⟨a₄, hend⟩

/-- An entry that was there is met, or gone when the call returns. -/
theorem UpdateCall.met {t : ThreadId} {pre mid : List (Event Fp)} {s₁ s₂ s₃ s₄ : State Fp}
    (h : UpdateCall countTick t pre mid s₁ s₂ s₃ s₄) {tab : Tab} {k : ℤ}
    (hfind : ((s₁.engine.timers tab).find? k).isSome) :
    (tab, k) ∈ mid.filterMap (Event.meets? t) ∨ (s₄.engine.timers tab).find? k = none := by
  obtain ⟨a, hround⟩ := h.round
  refine hround.met tab k hfind ?_
  rw [update_of_returned h.returned]
  exact not_false

/-- Whatever other threads do meanwhile, a call of `Update` meets entries in order, so none
twice, and meets every entry that was there when it was called, or that entry is no longer
there when it returns. -/
theorem round_meets {t : ThreadId} {pre mid : List (Event Fp)} {s₁ s₂ s₃ s₄ : State Fp}
    (h : UpdateCall countTick t pre mid s₁ s₂ s₃ s₄) :
    (mid.filterMap (Event.meets? t)).Pairwise Before ∧
      ∀ tab, ∀ k ∈ (s₁.engine.timers tab).keys,
        (tab, k) ∈ mid.filterMap (Event.meets? t) ∨ k ∉ (s₄.engine.timers tab).keys := by
  obtain ⟨a, hround⟩ := h.round
  refine ⟨hround.sorted, fun tab k hk => ?_⟩
  rw [OrderedMap.mem_keys_iff] at hk
  refine (h.met hk).imp_right fun hnone => ?_
  rw [OrderedMap.mem_keys_iff, hnone]
  exact Bool.false_ne_true

/-! ## Due timers -/

/-- The timer waits in a table, unmarked. -/
structure Waiting (tab : Tab) (k : ℤ) (timer : ETimer Fp) (s : State Fp) (a : ℤ → Phase Fp) :
    Prop where
  refines : Refines s.engine s.loc a
  live : a k = .live timer
  unmarked : timer.needDelete = false
  elsewhere : ∀ tab', tab' ≠ tab → (s.engine.timers tab').find? k = none

section Waiting

variable {t : ThreadId} {tab : Tab} {k : ℤ} {timer : ETimer Fp} {s s' : State Fp}
  {a a' : ℤ → Phase Fp} {e : Event Fp}

theorem Waiting.find (h : Waiting tab k timer s a) :
    (s.engine.timers tab).find? k = some timer := by
  have hstored : (a k).stored? = some timer := by
    rw [h.live]
    rfl
  obtain ⟨tab', hfind⟩ := (h.refines.stored k timer).mp hstored
  by_cases htab : tab' = tab
  · rwa [htab] at hfind
  · rw [h.elsewhere tab' htab] at hfind
    cases hfind

theorem Waiting.start (href : Refines s.engine s.loc a)
    (hfind : (s.engine.timers tab).find? k = some timer) (hmark : timer.needDelete = false)
    (hidle : ∀ u tab', (s.loc u).firing? ≠ some (tab', k)) : Waiting tab k timer s a := by
  refine ⟨href, ?_, hmark, ?_⟩
  · have hstored := href.stored_of_find hfind
    cases hp : a k with
    | absent | draft | gone =>
        rw [hp] at hstored
        cases hstored
    | live d =>
        rw [hp] at hstored
        rw [Option.some.inj hstored]
    | firing d =>
        obtain ⟨u, tab', hfi⟩ := (href.firing k).mp ⟨d, hp⟩
        exact absurd hfi (hidle u tab')
  · intro tab' htab
    rw [Option.eq_none_iff_forall_ne_some]
    intro timer' hfind'
    exact htab (href.disjoint k tab' tab (Option.isSome_of_eq_some hfind')
      (Option.isSome_of_eq_some hfind))

theorem Waiting.step (h : Waiting tab k timer s a)
    (hst : (engineLedger Fp countTick).step (s, a) e (s', a'))
    (hquiet : e.subject? = some k → e.isFired = false ∧ e.isMarked = false) :
    Waiting tab k timer s' a' := by
  obtain ⟨hengine, hledger, -, href'⟩ := hst
  refine ⟨href', ?_, h.unmarked, fun tab' htab => ?_⟩
  · rcases System.product_step hledger k with ⟨-, heq⟩ | ⟨hself, hlife⟩
    · exact heq.trans h.live
    · obtain ⟨hfired, hmarked⟩ := hquiet hself
      have hlife' : LifeStep countTick k (a k) e (a' k) := hlife
      rw [h.live] at hlife'
      generalize a' k = p at hlife'
      cases hlife' with
      | markedLive => cases hmarked
      | erased _ _ _ hdel =>
          rw [h.unmarked] at hdel
          cases hdel
      | skipped => rfl
      | fired => cases hfired
  · have hset : (a k).Settled := by
      rw [h.live]
      trivial
    exact find_none_of_settled h.refines hset hengine (h.elsewhere tab' htab)

theorem Waiting.path {q q' : State Fp × (ℤ → Phase Fp)} {tr : List (Event Fp)}
    (hpath : (engineLedger Fp countTick).Path q tr q') (h : Waiting tab k timer q.1 q.2)
    (hquiet : ∀ e ∈ tr, e.subject? = some k → e.isFired = false ∧ e.isMarked = false) :
    Waiting tab k timer q'.1 q'.2 := by
  induction hpath with
  | refl => exact h
  | @tail q₁ q₂ tr e _ hst ih =>
      have hwaits := ih fun e' he' => hquiet e' (List.mem_append_left [e] he')
      exact hwaits.step hst (hquiet e (List.mem_append_right tr List.mem_cons_self))

theorem Waiting.fired_of_meets (h : Waiting tab k timer s a)
    (hstep : (engineSystem Fp countTick).step s e s') (he : e.meets? t = some (tab, k))
    (hdue : timer.due countTick s'.engine.clock = true) : e.isFired = true := by
  obtain ⟨u, g', l', hst, rfl⟩ := step_of_system hstep
  obtain rfl | ⟨now, rfl | rfl⟩ := Event.of_meets? he
  · cases hst with
    | erase _ _ timer' _ _ hfind hmark =>
        obtain rfl : timer' = timer := Option.some.inj (hfind.symm.trans h.find)
        rw [h.unmarked] at hmark
        cases hmark
  · cases hst with
    | skip _ _ timer' _ _ _ hfind _ _ hearly =>
        obtain rfl : timer' = timer := Option.some.inj (hfind.symm.trans h.find)
        rw [State.put_engine, hearly] at hdue
        cases hdue
  · rfl

end Waiting

theorem clock_le_of_path {s s' : State Fp} {tr : List (Event Fp)}
    (h : (engineSystem Fp countTick).Path s tr s') : s.engine.clock ≤ s'.engine.clock := by
  refine h.preserve (I := fun s' => s.engine.clock ≤ s'.engine.clock) ?_
    (UInt64.le_refl s.engine.clock)
  intro s₁ e s₂ hle hst
  obtain ⟨t, g', l', hstep, rfl⟩ := step_of_system hst
  exact UInt64.le_trans hle hstep.clock_le

/-- A timer that waits, not marked, and is due for every reading that a call of `Update`
can make, is fired before the call returns, by it or by another one, unless it is cancelled
meanwhile. -/
theorem due_fired {t : ThreadId} {pre mid : List (Event Fp)} {s₁ s₂ s₃ s₄ : State Fp}
    (h : UpdateCall countTick t pre mid s₁ s₂ s₃ s₄) {tab : Tab} {k : ℤ} {timer : ETimer Fp}
    (hfind : (s₁.engine.timers tab).find? k = some timer) (hmark : timer.needDelete = false)
    (hidle : ∀ u tab', (s₁.loc u).firing? ≠ some (tab', k))
    (hdue : ∀ now, s₁.engine.clock ≤ now → now ≤ s₄.engine.clock →
      timer.due countTick now = true) :
    ∃ e ∈ history mid k, e.isFired = true ∨ e.isMarked = true := by
  by_contra hno
  have hquiet : ∀ e ∈ mid, e.subject? = some k → e.isFired = false ∧ e.isMarked = false := by
    intro e hmem hself
    have hmem' : e ∈ history mid k := List.mem_filter.mpr ⟨hmem, by simp [hself]⟩
    constructor
    · exact Bool.eq_false_iff.mpr fun hfired => hno ⟨e, hmem', Or.inl hfired⟩
    · exact Bool.eq_false_iff.mpr fun hmarked => hno ⟨e, hmem', Or.inr hmarked⟩
  obtain ⟨a₁, hrun, hR₁⟩ := h.before.paired ledger_simulation
  obtain ⟨a₂, hcalled, hR₂⟩ := ledger_simulation.step _ _ _ _ hR₁ h.called
  obtain ⟨a₃, hmid, hR₃⟩ := h.during.paired ledger_simulation hR₂
  obtain ⟨a₄, hreturned, hR₄⟩ := ledger_simulation.step _ _ _ _ hR₃ h.returned
  have hwaits₁ : Waiting tab k timer s₁ a₁ := Waiting.start hR₁.2 hfind hmark hidle
  have hwaits₂ : Waiting tab k timer s₂ a₂ := hwaits₁.step ⟨h.called, hcalled, hR₂⟩ nofun
  have hwaits₄ : Waiting tab k timer s₄ a₄ :=
    (hwaits₂.path hmid hquiet).step ⟨h.returned, hreturned, hR₄⟩ nofun
  rcases h.met (Option.isSome_of_eq_some hfind) with hmet | hgone
  · obtain ⟨e, hmem, he⟩ := List.mem_filterMap.mp hmet
    obtain ⟨before, after, rfl⟩ := List.append_of_mem hmem
    obtain ⟨q₁, q₂, hbefore, hturn, hafter⟩ := h.during.cut
    obtain ⟨b₁, hbefore', -⟩ := hbefore.paired ledger_simulation hR₂
    have hwaits : Waiting tab k timer q₁ b₁ :=
      hwaits₂.path hbefore' fun e' he' => hquiet e' (List.mem_append_left _ he')
    have hlow : s₁.engine.clock ≤ q₂.engine.clock :=
      clock_le_of_path (((System.Path.single h.called).append hbefore).tail hturn)
    have hhigh : q₂.engine.clock ≤ s₄.engine.clock :=
      clock_le_of_path (hafter.tail h.returned)
    have hfired := hwaits.fired_of_meets hturn he (hdue _ hlow hhigh)
    rw [(hquiet e hmem (Event.subject?_of_meets? he)).1] at hfired
    cases hfired
  · rw [hwaits₄.find] at hgone
    cases hgone

/-- Thread 0 registers a timer of zero milliseconds and calls `Update`. -/
def roundActs : List (ThreadId × Act Unit) :=
  [(0, .register .milsec true 0 ()), (0, .run 5 true), (0, .run 5 true), (0, .run 5 true),
    (0, .run 5 true), (0, .run 5 true), (0, .update), (0, .run 5 true), (0, .run 5 true),
    (0, .run 5 true), (0, .run 5 true), (0, .callbackReturn), (0, .run 6 true), (0, .run 6 true)]

def roundTimer : ETimer Unit :=
  { interval := 0, leftsecs := 0, startclock := 5, timerId := 1, runOnce := true, fp := () }

def roundBefore : List (Event Unit) :=
  [.took 0 1, .opened 0 roundTimer 0, .internal, .inserted 0 .timers2 roundTimer, .internal,
    .registerReturned 0 roundTimer 1]

def roundDuring : List (Event Unit) :=
  [.internal, .internal, .internal, .fired 0 .timers2 1 5, .internal,
    .rearmed 0 .timers2 1 6 true]

def roundState (n : ℕ) : State Unit :=
  (System.exec (State.next 1000000) (roundActs.take n) State.init).elim State.init Prod.fst

theorem roundCall : UpdateCall 1000000 0 roundBefore roundDuring (roundState 6) (roundState 7)
    (roundState 13) (roundState 14) := by
  have hbefore : System.exec (State.next 1000000) (roundActs.take 6) State.init =
      some (roundState 6, roundBefore) := rfl
  have hduring : System.exec (State.next 1000000) ((roundActs.take 13).drop 7) (roundState 7) =
      some (roundState 13, roundDuring) := rfl
  exact
    { before := System.run_of_exec rfl hbefore
      called := ⟨(0, .update), rfl⟩
      during := System.exec_path hduring
      inside := by simp [roundDuring]
      returned := ⟨(0, .run 6 true), rfl⟩ }

/-- The timer of `roundActs`, due at once, is fired in the call. -/
theorem round_meets_sample :
    (.timers2, 1) ∈ roundDuring.filterMap (Event.meets? 0) ∨
      1 ∉ ((roundState 14).engine.timers .timers2).keys :=
  (round_meets roundCall).2 .timers2 1 List.mem_cons_self

theorem due_fired_sample :
    ∃ e ∈ history roundDuring 1, e.isFired = true ∨ e.isMarked = true := by
  have hfind : ((roundState 6).engine.timers .timers2).find? 1 = some roundTimer := rfl
  refine due_fired roundCall hfind rfl ?_ ?_
  · intro u tab'
    cases u <;> nofun
  · intro now _ _
    exact decide_eq_true (UInt64.zero_le)

end Qing
