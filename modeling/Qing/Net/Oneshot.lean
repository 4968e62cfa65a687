import Qing.Net.Interest

/-!
# Handler calls over epoll

An entry that was reported is disarmed, so a call of a handler uses up the `add` or the
`modify` that armed its socket: a socket gets at most as many calls as it was armed times,
and each only for a condition that is asked for and was not reported since
(`handled_le_armings`).
-/

namespace Qing

namespace PollerCall

def arms (s : Socket) : PollerCall → Bool
  | add s' _ | modify s' _ => s' == s
  | _ => false

def handlersOf (s : Socket) : PollerCall → List Handler
  | poll called => (called.filter fun r => r.1 == s).flatMap Prod.snd
  | _ => []

theorem handlersOf_poll {called : List (Socket × List Handler)} {s : Socket}
    (honce : (called.map Prod.fst).Nodup) :
    handlersOf s (poll called) = [] ∨ ∃ hs, (s, hs) ∈ called ∧ handlersOf s (poll called) = hs := by
  induction called with
  | nil => exact Or.inl rfl
  | cons r called ih =>
      obtain ⟨hr, honce⟩ := List.nodup_cons.mp honce
      by_cases hs : r.1 = s
      · have hnone : called.filter (fun r => r.1 == s) = [] := by
          refine List.filter_eq_nil_iff.mpr fun r' hr' heq => hr ?_
          rw [hs, ← beq_iff_eq.mp heq]
          exact List.mem_map_of_mem hr'
        refine Or.inr ⟨r.2, ?_, ?_⟩
        · rw [← hs]
          exact List.mem_cons_self
        · have hfirst : (r :: called).filter (fun r => r.1 == s) = [r] := by
            rw [List.filter_cons_of_pos (by simpa using hs), hnone]
          rw [handlersOf, hfirst]
          exact List.append_nil r.2
      · have hskip : handlersOf s (poll (r :: called)) = handlersOf s (poll called) := by
          rw [handlersOf, List.filter_cons_of_neg (by simpa using hs), handlersOf]
        rw [hskip]
        refine (ih honce).imp_right ?_
        rintro ⟨hs, hmem, heq⟩
        exact ⟨hs, List.mem_cons_of_mem r hmem, heq⟩

end PollerCall

/-- The handlers called on a socket in a run, in order. -/
def handled (s : Socket) (tr : List PollerCall) : List Handler :=
  tr.flatMap (PollerCall.handlersOf s)

namespace Epoll

variable {k k' : Epoll} {s : Socket} {c : PollerCall}

theorem and_ne_zero_of_subset {reported events always flag : UInt32}
    (hsubset : reported &&& (events ||| always) = reported) (halways : always &&& flag = 0)
    (h : reported &&& flag ≠ 0) : events &&& flag ≠ 0 := by
  intro hzero
  have hdistrib : (events ||| always) &&& flag = (events &&& flag) ||| (always &&& flag) :=
    UInt32.toBitVec_inj.mp BitVec.and_or_distrib_right
  rw [← hsubset, UInt32.and_assoc, hdistrib, hzero, halways, UInt32.or_self,
    UInt32.and_zero] at h
  exact h rfl

/-- A handler is called for what the entry is armed for. -/
theorem armed_of_reports {r : Socket × UInt32} (h : k.reports r = true) :
    (.onRead ∈ handlers r.2 → (k.armed r.1).readable = true) ∧
      (.onWrite ∈ handlers r.2 → (k.armed r.1).writable = true) := by
  rw [reports] at h
  rw [armed]
  cases hentry : k r.1 with
  | none =>
      rw [hentry] at h
      cases h
  | some events =>
      rw [hentry] at h
      have hsubset : r.2 &&& (events ||| (epollErr ||| epollHup)) = r.2 := by
        rw [← UInt32.or_assoc]
        exact beq_iff_eq.mp (Bool.and_eq_true_iff.mp h).1
      have hflag : ∀ flag, (epollErr ||| epollHup) &&& flag = 0 → r.2 &&& flag ≠ 0 →
          (events &&& flag != 0) = true :=
        fun flag halways hne => bne_iff_ne.mpr (and_ne_zero_of_subset hsubset halways hne)
      constructor
      · intro hmem
        apply hflag epollIn (by decide)
        intro hzero
        rw [handlers, if_neg (not_not_intro hzero)] at hmem
        split_ifs at hmem <;> simp at hmem
      · intro hmem
        apply hflag epollOut (by decide)
        intro hzero
        rw [handlers] at hmem
        split_ifs at hmem with hin hout
        · simp at hmem
        · exact hout hzero
        · simp at hmem

theorem length_handlers_le_one (events : UInt32) : (handlers events).length ≤ 1 := by
  rw [handlers]
  split_ifs <;> simp

theorem poll_cases {called : List (Socket × List Handler)}
    (hstep : epollSystem.step k (.poll called) k') :
    (∀ r ∈ called, r.2.length ≤ 1 ∧ (.onRead ∈ r.2 → (k.armed r.1).readable = true) ∧
      (.onWrite ∈ r.2 → (k.armed r.1).writable = true)) ∧
      k' = (called.map Prod.fst).foldl report k := by
  obtain ⟨a, hnext⟩ := hstep
  cases a with
  | add | modify | remove =>
      obtain ⟨k₁, -, heq⟩ := Option.map_eq_some_iff.mp hnext
      cases (Prod.mk.inj heq).2
  | poll events =>
      rw [next] at hnext
      split_ifs at hnext with hall
      obtain ⟨rfl, hcalled⟩ := Prod.mk.inj (Option.some.inj hnext)
      obtain rfl := PollerCall.poll.inj hcalled
      constructor
      · rintro r hr
        obtain ⟨event, hevent, rfl⟩ := List.mem_map.mp hr
        exact ⟨length_handlers_le_one event.2,
          armed_of_reports (List.all_eq_true.mp hall event hevent)⟩
      · rw [List.map_map]
        rfl

/-- What is armed pays for one call. -/
def credit (k : Epoll) (s : Socket) : ℕ := if k.armed s = .idle then 0 else 1

theorem credit_le_one (k : Epoll) (s : Socket) : k.credit s ≤ 1 := by
  rw [credit]
  split_ifs <;> simp

theorem credit_of_mem {hs : List Handler} {h : Handler} (hmem : h ∈ hs)
    (hread : .onRead ∈ hs → (k.armed s).readable = true)
    (hwrite : .onWrite ∈ hs → (k.armed s).writable = true) : k.credit s = 1 := by
  rw [credit, if_neg]
  intro hidle
  rw [hidle] at hread hwrite
  cases h with
  | onRead => cases hread hmem
  | onWrite => cases hwrite hmem

theorem credit_ctl {op : CtlOp} {s' : Socket} {events : UInt32} (hshots : k.Shots)
    (hctl : k.ctl op s' events = some k') (hevents : OneShot events)
    (hnone : c.handlersOf s = []) (harms : op ≠ .del → c.arms s' = true) :
    k'.Shots ∧ (c.handlersOf s).length + k'.credit s ≤
      k.credit s + [c].countP (PollerCall.arms s) := by
  rw [ctl_eq hctl, hnone, List.length_nil, Nat.zero_add]
  constructor
  · refine hshots.update fun events' hentry => ?_
    split_ifs at hentry
    · cases hentry
    · obtain rfl := Option.some.inj hentry
      exact hevents
  · rcases eq_or_ne s s' with rfl | hne
    · by_cases hdel : op = .del
      · rw [credit, if_pos]
        · exact Nat.zero_le _
        · rw [armed, Function.update_self, if_pos hdel]
          rfl
      · rw [List.countP_cons_of_pos (harms hdel)]
        exact Nat.le_trans (credit_le_one _ s) (Nat.le_add_left _ _)
    · rw [credit, armed, Function.update_of_ne hne]
      exact Nat.le_add_right _ _

/-- A call of a handler is paid for by the entry that is reported. -/
theorem credit_poll {called : List (Socket × List Handler)} (hshots : k.Shots)
    (hstep : epollSystem.step k (.poll called) k') (honce : (called.map Prod.fst).Nodup) :
    k'.Shots ∧ ((PollerCall.poll called).handlersOf s).length + k'.credit s ≤ k.credit s := by
  obtain ⟨hlicensed, rfl⟩ := poll_cases hstep
  obtain ⟨hshots', harmed⟩ := armed_foldl_report (called.map Prod.fst) hshots
  refine ⟨hshots', ?_⟩
  rw [credit, harmed]
  rcases PollerCall.handlersOf_poll (s := s) honce with hnone | ⟨hs, hmem, heq⟩
  · rw [hnone, List.length_nil, Nat.zero_add, credit]
    by_cases hs : s ∈ called.map Prod.fst
    · rw [if_pos hs, if_pos rfl]
      exact Nat.zero_le _
    · simp only [if_neg hs, Nat.le_refl]
  · obtain ⟨hlen, hread, hwrite⟩ := hlicensed (s, hs) hmem
    have hs' : s ∈ called.map Prod.fst := List.mem_map_of_mem hmem
    rw [heq, if_pos hs', if_pos rfl, Nat.add_zero]
    cases hs with
    | nil => exact Nat.zero_le _
    | cons h hs =>
        rw [credit_of_mem List.mem_cons_self hread hwrite]
        exact hlen

theorem credit_step (hshots : k.Shots) (hstep : epollSystem.step k c k')
    (honce : ∀ called, c = .poll called → (called.map Prod.fst).Nodup) (s : Socket) :
    k'.Shots ∧ (c.handlersOf s).length + k'.credit s ≤
      k.credit s + [c].countP (PollerCall.arms s) := by
  have hpoll := hstep
  obtain ⟨a, hnext⟩ := hstep
  cases a with
  | add s' e =>
      obtain ⟨k₁, hctl, heq⟩ := Option.map_eq_some_iff.mp hnext
      obtain ⟨rfl, rfl⟩ := Prod.mk.inj heq
      exact credit_ctl hshots hctl (oneShot_convertEventMask eventRead) rfl
        fun _ => beq_iff_eq.mpr rfl
  | modify s' e =>
      obtain ⟨k₁, hctl, heq⟩ := Option.map_eq_some_iff.mp hnext
      obtain ⟨rfl, rfl⟩ := Prod.mk.inj heq
      exact credit_ctl hshots hctl (oneShot_convertEventMask e) rfl fun _ => beq_iff_eq.mpr rfl
  | remove s' e =>
      obtain ⟨k₁, hctl, heq⟩ := Option.map_eq_some_iff.mp hnext
      obtain ⟨rfl, rfl⟩ := Prod.mk.inj heq
      exact credit_ctl hshots hctl (Or.inr rfl) rfl fun hdel => absurd rfl hdel
  | poll events =>
      rw [next] at hnext
      split_ifs at hnext
      obtain ⟨rfl, rfl⟩ := Prod.mk.inj (Option.some.inj hnext)
      obtain ⟨hshots', hle⟩ := credit_poll (s := s) hshots hpoll (honce _ rfl)
      exact ⟨hshots', Nat.le_trans hle (Nat.le_add_right _ _)⟩

/-- In every run of epoll whose polls report a socket once at a time: the handlers called on
a socket are no more than the calls that armed it; and each is called for a condition that
is in force then, and of which nothing was reported since it is. -/
theorem handled_le_armings {tr : List PollerCall} (h : epollSystem.Run tr k)
    (honce : ∀ called, .poll called ∈ tr → (called.map Prod.fst).Nodup) (s : Socket) :
    (handled s tr).length ≤ tr.countP (PollerCall.arms s) ∧
    ∀ pre called post hs, tr = pre ++ .poll called :: post → (s, hs) ∈ called →
      (∀ handler ∈ hs, reportedSince pre s = false) ∧
      (.onRead ∈ hs → (inForce pre s).readable = true) ∧
      (.onWrite ∈ hs → (inForce pre s).writable = true) := by
  constructor
  · have hrun : k.Shots ∧ (handled s tr).length + k.credit s ≤
        tr.countP (PollerCall.arms s) := by
      revert honce
      refine System.Run.induction (P := fun tr k =>
        (∀ called, .poll called ∈ tr → (called.map Prod.fst).Nodup) →
          Shots k ∧ (handled s tr).length + credit k s ≤
            tr.countP (PollerCall.arms s)) ?_ ?_ h
      · rintro k rfl -
        exact ⟨fun _ _ hevents => absurd hevents (Option.not_mem_none _), Nat.le_refl 0⟩
      · intro tr k c k' _ ih hstep honce
        obtain ⟨hshots, hle⟩ := ih fun called hmem => honce called (List.mem_append_left [c] hmem)
        obtain ⟨hshots', hcredit⟩ := credit_step hshots hstep
          (fun called heq => honce called (by simp [heq])) s
        refine ⟨hshots', ?_⟩
        rw [handled, List.flatMap_append, List.length_append, List.countP_append,
          List.flatMap_singleton]
        rw [handled] at hle
        omega
    omega
  · rintro pre called post hs rfl hmem
    obtain ⟨k₁, k₂, hpre, hstep, -⟩ := h.cut
    obtain ⟨-, hread, hwrite⟩ := (poll_cases hstep).1 (s, hs) hmem
    have harmed := armed_of_run hpre s
    by_cases hreported : reportedSince pre s = true
    · rw [if_pos hreported] at harmed
      rw [harmed] at hread hwrite
      refine ⟨fun handler hcalled => ?_, fun hcalled => ?_, fun hcalled => ?_⟩
      · cases handler with
        | onRead => cases hread hcalled
        | onWrite => cases hwrite hcalled
      · cases hread hcalled
      · cases hwrite hcalled
    · rw [if_neg hreported] at harmed
      rw [harmed] at hread hwrite
      exact ⟨fun _ _ => Bool.eq_false_iff.mpr hreported, hread, hwrite⟩

/-- The socket of `sampleCalls` is added once and gets its one call. -/
theorem handled_le_armings_sample :
    (handled 5 sampleCalls).length ≤ sampleCalls.countP (PollerCall.arms 5) := by
  obtain ⟨k, hk⟩ := epoll_sampleCalls
  have honce : ∀ called, .poll called ∈ sampleCalls → (called.map Prod.fst).Nodup := by
    intro called hmem
    rcases List.mem_cons.mp hmem with heq | hmem
    · cases heq
    · obtain rfl := PollerCall.poll.inj (List.mem_singleton.mp hmem)
      simp
  exact (handled_le_armings hk honce 5).1

end Epoll

end Qing
