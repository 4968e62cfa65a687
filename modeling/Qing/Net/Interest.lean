import Qing.Net.Readiness

/-!
# What the two backends have armed

`add` waits for reading whatever it is asked for (`inForce`), and an entry of epoll that was
reported stays disarmed until it is modified. The filters of kqueue are numbers and not bits,
and are registered one by one. As long as `add` is asked for reading, epoll has armed what was
asked for last and not reported since; and so has kqueue, reported or not, if the calls name
one condition at a time and all that is armed (`armed_eq_asked`).
-/

namespace Qing

def Interest.Within (i i' : Interest) : Prop :=
  (i.readable = true → i'.readable = true) ∧ (i.writable = true → i'.writable = true)

def Interest.Single (i : Interest) : Prop := ¬(i.readable = true ∧ i.writable = true)

instance (i i' : Interest) : Decidable (i.Within i') := inferInstanceAs (Decidable (_ ∧ _))

instance (i : Interest) : Decidable i.Single := inferInstanceAs (Decidable (¬_))

/-- What is asked for after a call, by what was asked for before. -/
def PollerCall.ask (asked : Socket → Interest) : PollerCall → Socket → Interest
  | add s e | modify s e => Function.update asked s (wanted e)
  | remove s _ => Function.update asked s .idle
  | poll _ => asked

/-- The same, if `add` always asks for reading. -/
def PollerCall.enforce (inForce : Socket → Interest) : PollerCall → Socket → Interest
  | add s _ => Function.update inForce s (wanted eventRead)
  | modify s e => Function.update inForce s (wanted e)
  | remove s _ => Function.update inForce s .idle
  | poll _ => inForce

/-- Whether a socket was reported since the last call for it. -/
def PollerCall.report (reported : Socket → Bool) : PollerCall → Socket → Bool
  | add s _ | modify s _ | remove s _ => Function.update reported s false
  | poll called => fun s => reported s || (called.map Prod.fst).contains s

/-- The mask of the last `add` or `modify` of a socket, and nothing after `remove`. -/
def asked (tr : List PollerCall) : Socket → Interest :=
  tr.foldl PollerCall.ask fun _ => .idle

def inForce (tr : List PollerCall) : Socket → Interest :=
  tr.foldl PollerCall.enforce fun _ => .idle

def reportedSince (tr : List PollerCall) : Socket → Bool :=
  tr.foldl PollerCall.report fun _ => false

/-- An `add` is asked for reading, and not for writing. -/
def PollerCall.Reads : PollerCall → Prop
  | add _ e => wanted e = wanted eventRead
  | _ => True

/-- A call that, if it is about `s`, does not leave a second condition in force beside the one
it names. -/
def PollerCall.Plain (inForce : Socket → Interest) (s : Socket) : PollerCall → Prop
  | add s' _ => s' = s → (inForce s).Within (wanted eventRead)
  | modify s' e => s' = s → (inForce s).Within (wanted e) ∧ (wanted e).Single
  | remove s' e => s' = s → (inForce s).Within (wanted e)
  | poll _ => True

def Plain (tr : List PollerCall) (s : Socket) : Prop :=
  ∀ before c after, tr = before ++ c :: after → c.Plain (inForce before) s

theorem inForce_append_singleton (tr : List PollerCall) (c : PollerCall) :
    inForce (tr ++ [c]) = c.enforce (inForce tr) := List.foldl_append

theorem asked_eq_inForce {tr : List PollerCall} (hreads : ∀ c ∈ tr, c.Reads) :
    asked tr = inForce tr := by
  suffices hall : ∀ f, tr.foldl PollerCall.ask f = tr.foldl PollerCall.enforce f from hall _
  induction tr with
  | nil => exact fun _ => rfl
  | cons c tr ih =>
      intro f
      have hc : c.ask f = c.enforce f := by
        cases c with
        | add s e => exact congrArg (Function.update f s) (hreads _ List.mem_cons_self)
        | modify s e | remove s e | poll called => rfl
      rw [List.foldl_cons, List.foldl_cons, hc]
      exact ih (fun c' hc' => hreads c' (List.mem_cons_of_mem c hc')) _

theorem reportedSince_append_singleton (tr : List PollerCall) (c : PollerCall) :
    reportedSince (tr ++ [c]) = c.report (reportedSince tr) := List.foldl_append

/-- A call about the socket `s`, after which `v` is in force for it. -/
structure PollerCall.Sets (c : PollerCall) (s : Socket) (v : Interest) : Prop where
  enforce : ∀ inForce, c.enforce inForce = Function.update inForce s v
  report : ∀ reported, c.report reported = Function.update reported s false

/-! ## What epoll has armed -/

namespace Epoll

variable {k k' : Epoll} {s : Socket} {c : PollerCall} {events : UInt32}

theorem waits_convertEventMask (e : UInt32) : waits (convertEventMask e) = wanted e := by
  rw [waits, convertEventMask, wanted]
  generalize (e &&& eventRead != 0) = read
  generalize (e &&& eventWrite != 0) = write
  generalize (e &&& eventError != 0) = error
  revert read write error
  decide

/-- Events that wait for something do so for one report. -/
def OneShot (events : UInt32) : Prop := events &&& epollOneshot ≠ 0 ∨ waits events = .idle

theorem oneShot_convertEventMask (e : UInt32) : OneShot (convertEventMask e) := by
  rw [OneShot, waits_convertEventMask, convertEventMask, wanted]
  generalize (e &&& eventRead != 0) = read
  generalize (e &&& eventWrite != 0) = write
  generalize (e &&& eventError != 0) = error
  revert read write error
  decide

theorem oneShot_disarm (h : OneShot events) : OneShot (disarm events) := by
  rw [disarm]
  split_ifs
  · exact Or.inl (by decide)
  · exact h

theorem waits_disarm (h : OneShot events) : waits (disarm events) = .idle := by
  rw [disarm]
  split_ifs with hshot
  · rfl
  · exact h.resolve_left hshot

/-- Every entry is for one report. -/
def Shots (k : Epoll) : Prop := ∀ s, ∀ events ∈ k s, OneShot events

theorem Shots.update (h : k.Shots) {entry : Option UInt32}
    (hentry : ∀ events ∈ entry, OneShot events) : Shots (Function.update k s entry) := by
  intro s' events hevents
  rw [Function.update_apply] at hevents
  split_ifs at hevents
  · exact hentry events hevents
  · exact h s' events hevents

theorem Shots.report (h : k.Shots) (s : Socket) : (k.report s).Shots := by
  refine h.update fun events hevents => ?_
  obtain ⟨events', hentry, rfl⟩ := Option.map_eq_some_iff.mp hevents
  exact oneShot_disarm (h s events' hentry)

theorem armed_report (h : k.Shots) (s s' : Socket) :
    (k.report s).armed s' = if s' = s then .idle else k.armed s' := by
  rw [armed, Epoll.report, Function.update_apply]
  split_ifs with hs
  · cases hentry : k s with
    | none => rfl
    | some events => exact waits_disarm (h s events hentry)
  · rfl

theorem armed_foldl_report (fds : List Socket) (h : k.Shots) :
    (fds.foldl report k).Shots ∧
      ∀ s, (fds.foldl report k).armed s = if s ∈ fds then .idle else k.armed s := by
  induction fds generalizing k with
  | nil => exact ⟨h, fun s => (if_neg List.not_mem_nil).symm⟩
  | cons fd fds ih =>
      obtain ⟨hshots, harmed⟩ := ih (h.report fd)
      refine ⟨hshots, fun s => ?_⟩
      rw [List.foldl_cons, harmed, armed_report h]
      by_cases hfd : s = fd
      · rw [if_pos hfd, ite_self, if_pos (List.mem_cons.mpr (Or.inl hfd))]
      · rw [if_neg hfd]
        exact if_congr (List.mem_cons.trans (or_iff_right hfd)).symm rfl rfl

theorem ctl_eq {op : CtlOp} (h : k.ctl op s events = some k') :
    k' = Function.update k s (if op = .del then none else some events) := by
  cases op with
  | add =>
      rw [ctl] at h
      split_ifs at h
      exact (Option.some.inj h).symm
  | mod =>
      rw [ctl] at h
      split_ifs at h
      exact (Option.some.inj h).symm
  | del =>
      rw [ctl] at h
      split_ifs at h
      exact (Option.some.inj h).symm

theorem step_cases (hstep : epollSystem.step k c k') :
    (∃ s entry v, c.Sets s v ∧ k' = Function.update k s entry ∧
      (∀ events ∈ entry, OneShot events) ∧ (entry.map waits).getD .idle = v) ∨
    ∃ called, c = .poll called ∧ k' = (called.map Prod.fst).foldl report k := by
  have hconvert : ∀ e, ∀ events ∈ some (convertEventMask e), OneShot events := by
    rintro e events hevents
    rw [← Option.some.inj hevents]
    exact oneShot_convertEventMask e
  obtain ⟨a, hnext⟩ := hstep
  cases a with
  | add s e =>
      obtain ⟨k₁, hctl, heq⟩ := Option.map_eq_some_iff.mp hnext
      obtain ⟨rfl, rfl⟩ := Prod.mk.inj heq
      exact Or.inl ⟨s, some _, wanted eventRead, ⟨fun _ => rfl, fun _ => rfl⟩, ctl_eq hctl,
        hconvert eventRead, waits_convertEventMask eventRead⟩
  | modify s e =>
      obtain ⟨k₁, hctl, heq⟩ := Option.map_eq_some_iff.mp hnext
      obtain ⟨rfl, rfl⟩ := Prod.mk.inj heq
      exact Or.inl ⟨s, some _, wanted e, ⟨fun _ => rfl, fun _ => rfl⟩, ctl_eq hctl,
        hconvert e, waits_convertEventMask e⟩
  | remove s e =>
      obtain ⟨k₁, hctl, heq⟩ := Option.map_eq_some_iff.mp hnext
      obtain ⟨rfl, rfl⟩ := Prod.mk.inj heq
      exact Or.inl ⟨s, none, .idle, ⟨fun _ => rfl, fun _ => rfl⟩, ctl_eq hctl,
        fun _ hevents => absurd hevents (Option.not_mem_none _), rfl⟩
  | poll events =>
      rw [next] at hnext
      split_ifs at hnext
      obtain ⟨rfl, rfl⟩ := Prod.mk.inj (Option.some.inj hnext)
      refine Or.inr ⟨_, rfl, ?_⟩
      rw [List.map_map]
      rfl

/-- What a run of epoll has armed is what is in force, or nothing once it was reported. -/
theorem armed_of_run {tr : List PollerCall} (h : epollSystem.Run tr k) (s : Socket) :
    k.armed s = if reportedSince tr s = true then .idle else inForce tr s := by
  have hrun : k.Shots ∧
      ∀ s, k.armed s = if reportedSince tr s = true then .idle else inForce tr s := by
    refine System.Run.induction (P := fun tr k => Shots k ∧
      ∀ s, armed k s = if reportedSince tr s = true then .idle else inForce tr s) ?_ ?_ h
    · rintro k rfl
      exact ⟨fun _ _ hevents => absurd hevents (Option.not_mem_none _), fun _ => rfl⟩
    rintro tr k c k' - ⟨hshots, harmed⟩ hstep
    rw [reportedSince_append_singleton, inForce_append_singleton]
    rcases step_cases hstep with ⟨s, entry, v, hsets, rfl, hentry, hv⟩ | ⟨called, rfl, rfl⟩
    · refine ⟨hshots.update hentry, fun s' => ?_⟩
      rw [hsets.enforce, hsets.report, armed]
      by_cases hs : s' = s
      · rw [hs, Function.update_self, Function.update_self, Function.update_self, hv,
          if_neg Bool.false_ne_true]
      · rw [Function.update_of_ne hs, Function.update_of_ne hs, Function.update_of_ne hs]
        exact harmed s'
    · obtain ⟨hshots', harmed'⟩ := armed_foldl_report (called.map Prod.fst) hshots
      refine ⟨hshots', fun s' => ?_⟩
      have hreported : (reportedSince tr s' || (called.map Prod.fst).contains s') = true ↔
          reportedSince tr s' = true ∨ s' ∈ called.map Prod.fst := by
        rw [Bool.or_eq_true, List.contains_iff_mem]
      rw [harmed', harmed, PollerCall.report, PollerCall.enforce]
      by_cases hs : s' ∈ called.map Prod.fst
      · rw [if_pos hs]
        exact (if_pos (hreported.mpr (Or.inr hs))).symm
      · rw [if_neg hs]
        exact if_congr (hreported.trans (or_iff_left hs)).symm rfl rfl
  exact hrun.2 s

end Epoll

/-! ## What kqueue has armed -/

namespace Interest

/-- The filter a mask is converted to: of both conditions it is that of reading. -/
def filter (i : Interest) : Int16 :=
  if i.readable then evfiltRead else if i.writable then evfiltWrite else 0

def set (i : Interest) (filter : Int16) (registered : Bool) : Interest :=
  if filter = evfiltRead then { i with readable := registered }
  else if filter = evfiltWrite then { i with writable := registered }
  else i

theorem set_filter {i i' : Interest} (h : i.Within i') (hsingle : i'.Single)
    (hfilter : i'.filter ≠ 0) : i.set i'.filter true = i' := by
  obtain ⟨a, b⟩ := i
  obtain ⟨a', b'⟩ := i'
  revert a b a' b'
  decide

theorem clear_filter {i i' : Interest} (h : i.Within i') (hsingle : i.Single)
    (hread : i'.readable = true → i.readable = true) : i.set i'.filter false = idle := by
  obtain ⟨a, b⟩ := i
  obtain ⟨a', b'⟩ := i'
  revert a b a' b'
  decide

end Interest

namespace Kqueue

variable {k k' : Kqueue} {s : Socket} {c : PollerCall} {known : Socket → Bool}

theorem filterOf_eq (e : UInt32) : filterOf e = (wanted e).filter := by
  rw [filterOf, convertEventMask, wanted]
  generalize (e &&& eventRead != 0) = read
  generalize (e &&& eventWrite != 0) = write
  revert read write
  decide

theorem armed_set (k : Kqueue) (s s' : Socket) (filter : Int16) (registered : Bool) :
    (k.set s filter registered).armed s' =
      if s' = s then (k.armed s).set filter registered else k.armed s' := by
  rw [armed, Kqueue.set]
  split_ifs with hs
  · rw [hs, Function.update_self, Interest.set]
    split_ifs with hread hwrite
    · rw [hread]
      rfl
    · rw [hwrite]
      rfl
    · rw [Function.update_of_ne (Ne.symm hread), Function.update_of_ne (Ne.symm hwrite)]
      rfl
  · rw [Function.update_of_ne hs]
    rfl

theorem step_cases (hstep : (kqueueSystem known).step k c k') :
    (∃ s e, c = .add s e ∧ k' = k.set s evfiltRead true) ∨
    (∃ s e, c = .modify s e ∧ (wanted e).filter ≠ 0 ∧ k' = k.set s (wanted e).filter true) ∨
    (∃ s e, c = .remove s e ∧ k s (wanted e).filter = true ∧
      k' = k.set s (wanted e).filter false) ∨
    ∃ called, c = .poll called ∧ k' = k := by
  obtain ⟨a, hnext⟩ := hstep
  cases a with
  | add s e =>
      rw [next] at hnext
      obtain ⟨k₁, hadd, heq⟩ := Option.map_eq_some_iff.mp hnext
      obtain ⟨rfl, rfl⟩ := Prod.mk.inj heq
      rw [add, change, if_pos (Or.inl rfl)] at hadd
      exact Or.inl ⟨s, e, rfl, (Option.some.inj hadd).symm⟩
  | modify s e =>
      rw [next] at hnext
      obtain ⟨k₁, hmodify, heq⟩ := Option.map_eq_some_iff.mp hnext
      obtain ⟨rfl, rfl⟩ := Prod.mk.inj heq
      rw [modify, change, filterOf_eq] at hmodify
      split_ifs at hmodify with hknown hfilter
      have hne : (wanted e).filter ≠ 0 := by
        intro hzero
        rw [hzero] at hfilter
        exact absurd hfilter (by decide)
      exact Or.inr (Or.inl ⟨s, e, rfl, hne, (Option.some.inj hmodify).symm⟩)
  | remove s e =>
      rw [next] at hnext
      obtain ⟨k₁, hremove, heq⟩ := Option.map_eq_some_iff.mp hnext
      obtain ⟨rfl, rfl⟩ := Prod.mk.inj heq
      rw [remove, change, filterOf_eq] at hremove
      split_ifs at hremove with hfilter
      exact Or.inr (Or.inr (Or.inl ⟨s, e, rfl, hfilter, (Option.some.inj hremove).symm⟩))
  | poll events =>
      rw [next] at hnext
      split_ifs at hnext
      obtain ⟨rfl, rfl⟩ := Prod.mk.inj (Option.some.inj hnext)
      exact Or.inr (Or.inr (Or.inr ⟨_, rfl, rfl⟩))

/-- What kqueue has registered for `s` is what is in force, and never both conditions. -/
def Follows (f : Socket → Interest) (s : Socket) (k : Kqueue) : Prop :=
  k.armed s = f s ∧ (k.armed s).Single

theorem Follows.set {f : Socket → Interest} {s' : Socket} {filter : Int16} {registered : Bool}
    {v : Interest} (h : k.Follows f s)
    (hv : s' = s → (f s).set filter registered = v ∧ v.Single) :
    (k.set s' filter registered).Follows (Function.update f s' v) s := by
  rw [Follows, armed_set, Function.update_apply]
  split_ifs with hs
  · obtain ⟨hset, hsingle⟩ := hv hs.symm
    rw [← hs, h.1]
    exact ⟨hset, hset ▸ hsingle⟩
  · exact h

theorem Follows.step {f : Socket → Interest} (h : k.Follows f s) (hplain : c.Plain f s)
    (hstep : (kqueueSystem known).step k c k') : k'.Follows (c.enforce f) s := by
  rcases step_cases hstep with ⟨s', e, rfl, rfl⟩ | ⟨s', e, rfl, hfilter, rfl⟩ |
    ⟨s', e, rfl, hregistered, rfl⟩ | ⟨called, rfl, rfl⟩
  · refine h.set fun hs => ⟨?_, by decide⟩
    have hset : (f s).set (wanted eventRead).filter true = wanted eventRead :=
      Interest.set_filter (hplain hs) (by decide) (by decide)
    exact hset
  · refine h.set fun hs => ?_
    obtain ⟨hwithin, hsingle⟩ := hplain hs
    exact ⟨Interest.set_filter hwithin hsingle hfilter, hsingle⟩
  · refine h.set fun hs => ⟨?_, by decide⟩
    rw [hs] at hregistered
    refine Interest.clear_filter (hplain hs) (h.1 ▸ h.2) fun hread => ?_
    rw [Interest.filter, if_pos hread] at hregistered
    rw [← h.1]
    exact hregistered
  · exact h

theorem armed_of_run {tr : List PollerCall} (h : (kqueueSystem known).Run tr k)
    (hplain : Plain tr s) : k.armed s = inForce tr s := by
  have hrun : k.Follows (inForce tr) s := by
    revert hplain
    refine System.Run.induction (P := fun tr k => Plain tr s → Follows (inForce tr) s k) ?_ ?_ h
    · rintro k rfl -
      have hsingle : Interest.idle.Single := by decide
      exact ⟨rfl, hsingle⟩
    intro tr k c k' _ ih hstep hplain
    rw [inForce_append_singleton]
    refine (ih fun before c' after htr => ?_).step (hplain tr c [] rfl) hstep
    exact hplain before c' (after ++ [c]) (by rw [htr]; exact List.append_assoc _ _ _)
  exact hrun.1

end Kqueue

/-- In a run in which `add` is asked for reading, epoll has armed for a socket what the last
`add` or `modify` asked for, and nothing after `remove`, or once the socket was reported. If
moreover the calls for the socket name one condition at a time, kqueue has armed the same,
reported or not. -/
theorem armed_eq_asked {tr : List PollerCall} (hreads : ∀ c ∈ tr, c.Reads) (s : Socket) :
    (∀ k, epollSystem.Run tr k →
      k.armed s = if reportedSince tr s = true then .idle else asked tr s) ∧
    ∀ known k, (kqueueSystem known).Run tr k → Plain tr s → k.armed s = asked tr s := by
  rw [asked_eq_inForce hreads]
  exact ⟨fun _ h => Epoll.armed_of_run h s, fun _ _ h hplain => Kqueue.armed_of_run h hplain⟩

/-- A socket is added for reading and then reported as readable. -/
def sampleCalls : List PollerCall := [.add 5 eventRead, .poll [(5, [.onRead])]]

theorem epoll_sampleCalls : ∃ k, epollSystem.Run sampleCalls k := by
  let added : Epoll :=
    Function.update (fun _ => none) 5 (some (Epoll.convertEventMask eventRead))
  have hadd : epollSystem.step (fun _ => none) (.add 5 eventRead) added :=
    ⟨.add 5 eventRead, rfl⟩
  have hentry : added 5 = some (Epoll.convertEventMask eventRead) := Function.update_self _ _ _
  have hreports : [((5 : Socket), epollIn)].all added.reports = true := by
    rw [List.all_cons, Epoll.reports, hentry]
    decide
  have hnext : Epoll.next (.poll [(5, epollIn)]) added = some (added.poll [(5, epollIn)]) := by
    rw [Epoll.next, if_pos hreports]
  have hpoll : epollSystem.step added (.poll [(5, [.onRead])]) (added.poll [(5, epollIn)]).1 :=
    ⟨.poll [(5, epollIn)], hnext⟩
  exact ⟨_, _, rfl, ((System.Path.refl _).tail hadd).tail hpoll⟩

theorem kqueue_sampleCalls : ∃ k, (kqueueSystem fun _ => true).Run sampleCalls k := by
  have hexec : System.exec (Kqueue.next fun _ => true)
      [.add 5 eventRead, .poll [⟨5, evfiltRead, false⟩]] (fun _ _ => false) =
      some (_, sampleCalls) := rfl
  exact ⟨_, System.run_of_exec rfl hexec⟩

theorem plain_sampleCalls : Plain sampleCalls 5 := by
  intro before c after htr
  rcases before with _ | ⟨c₁, _ | ⟨c₂, before⟩⟩
  · obtain ⟨rfl, -⟩ := List.cons.inj htr
    exact fun _ => show Interest.idle.Within (wanted eventRead) by decide
  · obtain ⟨-, htr⟩ := List.cons.inj htr
    obtain ⟨rfl, -⟩ := List.cons.inj htr
    trivial
  · obtain ⟨-, htr⟩ := List.cons.inj htr
    obtain ⟨-, htr⟩ := List.cons.inj htr
    exact absurd htr.symm (List.append_ne_nil_of_right_ne_nil _ (List.cons_ne_nil _ _))

theorem armed_eq_asked_sample :
    (∃ k, epollSystem.Run sampleCalls k ∧ k.armed 5 = .idle) ∧
      ∃ k, (kqueueSystem fun _ => true).Run sampleCalls k ∧ k.armed 5 = wanted eventRead := by
  obtain ⟨k, hk⟩ := epoll_sampleCalls
  obtain ⟨k', hk'⟩ := kqueue_sampleCalls
  have hreads : ∀ c ∈ sampleCalls, c.Reads := by
    intro c hc
    rcases List.mem_cons.mp hc with rfl | hc
    · rfl
    · rw [List.mem_singleton.mp hc]
      trivial
  obtain ⟨hepoll, hkqueue⟩ := armed_eq_asked hreads 5
  exact ⟨⟨k, hk, hepoll k hk⟩, k', hk', hkqueue _ k' hk' plain_sampleCalls⟩

/-- There the socket is not waited for though reading is what was asked for. -/
theorem not_armed_eq_asked :
    ¬((∀ tr k, epollSystem.Run tr k → k.armed = asked tr) ∧
      ∀ known tr k, (kqueueSystem known).Run tr k → k.armed = asked tr) := by
  rintro ⟨hepoll, -⟩
  obtain ⟨k, hk⟩ := epoll_sampleCalls
  have harmed : k.armed 5 = .idle := Epoll.armed_of_run hk 5
  have hasked : asked sampleCalls 5 = wanted eventRead := rfl
  rw [hepoll _ k hk, hasked] at harmed
  exact absurd harmed (by decide)

end Qing
