import Qing.Lib.Transition
import Qing.Net.TcpListener

/-!
# What `onAccept` is called with

A listener after its `listen`, with the accepts it has started: the system completes them
in any order, each once, and every completion is dispatched to `onRead`. The system makes
each handle a new one and none of them 0.

`accept` clears the handle before it passes it on, so no connection is ever accepted on a
socket that was made for it, and no completion can be handed over as it should
(`oneToOne_iff`). Clearing it overruns the handle, which may end the program: then the
listener halts, and `onAccept` is not called.
-/

namespace Qing

/-- A listener, the handles that were made for it and the accepts it has started. -/
structure Acceptor where
  listener : TcpListener
  listening : Bool := false
  made : List Socket := []
  /-- The handles passed to `AcceptEx` in the calls that have not completed. -/
  posted : List Socket := []
  /-- The program has ended in a call. -/
  halted : Bool := false

inductive AcceptAct
  | listen (r : TcpListener.Listening) (new : NewSocket) (result : Option WsaResult)
  /-- The accept on `passed` completes; `new` and `result` answer the calls of `onRead`. -/
  | complete (passed : Socket) (countBytes : UInt32) (new : NewSocket)
      (result : Option WsaResult)

inductive AcceptEvent
  | listened (calls : List SysCall) (ret : Option Bool)
  /-- The accept on `passed` completed and `onAccept` was called with `handed`, if it was
  called. -/
  | accepted (passed : Socket) (calls : List SysCall) (handed : Option Socket)

def AcceptEvent.calls : AcceptEvent → List SysCall
  | listened calls _ | accepted _ calls _ => calls

def createdBy (tr : List AcceptEvent) : List Socket := tr.flatMap fun e => created e.calls

def AcceptEvent.handed? : AcceptEvent → Option Socket
  | listened _ _ => none
  | accepted _ _ handed => handed

def handedOver (tr : List AcceptEvent) : List Socket := tr.filterMap AcceptEvent.handed?

/-- The handle on which an accept has completed. -/
def AcceptEvent.completed? : AcceptEvent → Option Socket
  | listened _ _ => none
  | accepted passed _ _ => some passed

/-- The accepts that have completed, each by the handle it was started on. -/
def completions (tr : List AcceptEvent) : List Socket := tr.filterMap AcceptEvent.completed?

/-- What is promised of the handles `new`, made after `old`. -/
def Fresh (old new : List Socket) : Prop := (old ++ new).Nodup ∧ 0 ∉ new

instance (old new : List Socket) : Decidable (Fresh old new) :=
  inferInstanceAs (Decidable (_ ∧ _))

namespace Acceptor

def after {ρ : Type} (s : Acceptor) (o : Outcome ρ) (posted : List Socket) : Acceptor :=
  { listener := o.self, listening := true
    made := s.made ++ created o.calls, posted := posted ++ accepting o.calls
    halted := o.ret.isNone }

/-- The listener with the count of a completion in its record. -/
def completed (s : Acceptor) (countBytes : UInt32) : TcpListener :=
  { s.listener with ioData := { s.listener.ioData with bytes := countBytes } }

def next : AcceptAct → Acceptor → Option (Acceptor × AcceptEvent)
  | .listen r new result, s =>
      let o := s.listener.listen r new result
      if s.halted = false ∧ s.listening = false ∧ Fresh s.made (created o.calls) then
        some (s.after o s.posted, .listened o.calls o.ret)
      else none
  | .complete passed countBytes new result, s =>
      let o := (s.completed countBytes).onRead new result
      if s.halted = false ∧ passed ∈ s.posted ∧ Fresh s.made (created o.calls) then
        some (s.after o (s.posted.erase passed), .accepted passed o.calls o.ret)
      else none

end Acceptor

/-- The listener as its constructor left it: `_socket` is `INVALID_SOCKET`, `_ioData` is
not initialized. -/
def acceptSystem : System Acceptor AcceptEvent :=
  System.ofNext (fun s => ∃ ioData, s = { listener := { ioData } }) Acceptor.next

/-- The accept on `passed` is completed by a call of `onAccept` with that very handle, one
that was made for it and was not handed over before. -/
def HandedOver (before : List AcceptEvent) (passed handed : Socket) : Prop :=
  handed = passed ∧ passed ∈ createdBy before ∧ handed ∉ handedOver before

/-- Accepted connections are handed over one to one. -/
def OneToOne (tr : List AcceptEvent) : Prop :=
  ∀ before passed calls ret after, tr = before ++ .accepted passed calls ret :: after →
    ∃ handed, ret = some handed ∧ HandedOver before passed handed

section Accept

variable {s s' : Acceptor} {e : AcceptEvent} {tr : List AcceptEvent}

theorem Acceptor.step_cases (h : acceptSystem.step s e s') :
    (∃ r new result, Fresh s.made (created (s.listener.listen r new result).calls) ∧
      e = .listened (s.listener.listen r new result).calls
        (s.listener.listen r new result).ret ∧
      s' = s.after (s.listener.listen r new result) s.posted) ∨
    ∃ passed, ∃ l : TcpListener, ∃ new result, passed ∈ s.posted ∧
      Fresh s.made (created (l.accept new result).calls) ∧
      e = .accepted passed (l.accept new result).calls (l.accept new result).ret ∧
      s' = s.after (l.accept new result) (s.posted.erase passed) := by
  obtain ⟨a, hnext⟩ := h
  cases a with
  | listen r new result =>
      rw [next] at hnext
      split_ifs at hnext with hguard
      obtain ⟨rfl, rfl⟩ := Prod.mk.inj (Option.some.inj hnext)
      exact Or.inl ⟨r, new, result, hguard.2.2, rfl, rfl⟩
  | complete passed countBytes new result =>
      rw [next] at hnext
      split_ifs at hnext with hguard
      obtain ⟨rfl, rfl⟩ := Prod.mk.inj (Option.some.inj hnext)
      exact Or.inr ⟨passed, _, new, result, hguard.2.1, hguard.2.2, rfl, rfl⟩

/-- Accepts complete on a cleared handle, and `onAccept`, if it is called, is called with that
handle unless the accept that `onRead` starts is refused. -/
def Cleared (tr : List AcceptEvent) : Prop :=
  ∀ passed calls ret, .accepted passed calls ret ∈ tr →
    passed = 0 ∧ ∀ handed, ret = some handed → (handed = passed ↔
      ∀ listenSocket acceptSocket result,
        .acceptEx listenSocket acceptSocket result ∈ calls → ¬result.Fails)

theorem handed_eq_zero_iff (l : TcpListener) (new : NewSocket) (result : Option WsaResult)
    {handed : Socket} (h : (l.accept new result).ret = some handed) :
    handed = 0 ↔
      ∀ listenSocket acceptSocket answer,
        .acceptEx listenSocket acceptSocket answer ∈ (l.accept new result).calls →
          ¬answer.Fails := by
  have hcall : ∀ ls s a, .acceptEx ls s a ∈ (l.accept new result).calls ↔
      new.Succeeds ∧ ls = l.socket ∧ s = 0 ∧ result = some a :=
    fun ls s a => l.mem_calls_accept new result
  rcases (l.accept_ret_iff new result).mp h with ⟨hnew, hzero⟩ | ⟨answer, hnew, hresult, heq⟩
  · refine iff_of_true hzero fun ls s a hmem => ?_
    exact absurd ((hcall ls s a).mp hmem).1 hnew
  · rw [heq]
    by_cases hfails : answer.Fails
    · rw [if_pos hfails]
      refine iff_of_false (by decide) fun hall => ?_
      exact hall _ _ _ ((hcall _ _ _).mpr ⟨hnew, rfl, rfl, hresult⟩) hfails
    · rw [if_neg hfails]
      refine iff_of_true rfl fun ls s a hmem => ?_
      obtain rfl := Option.some.inj (((hcall ls s a).mp hmem).2.2.2.symm.trans hresult)
      exact hfails

theorem createdBy_append_singleton : createdBy (tr ++ [e]) = createdBy tr ++ created e.calls := by
  rw [createdBy, List.flatMap_append, List.flatMap_singleton, ← createdBy]

/-- What a run keeps: every accept is started on 0, and no handle that was made is 0. -/
structure Acceptor.Kept (tr : List AcceptEvent) (s : Acceptor) : Prop where
  posted : ∀ passed ∈ s.posted, passed = 0
  made : 0 ∉ createdBy tr
  cleared : Cleared tr

namespace Acceptor.Kept

theorem after {ρ : Type} {o : Outcome ρ} {posted : List Socket} (h : Kept tr s)
    (hcalls : e.calls = o.calls) (hposted : ∀ passed ∈ posted, passed = 0)
    (hstarted : ∀ passed ∈ accepting o.calls, passed = 0) (hmade : 0 ∉ created o.calls)
    (hcleared : Cleared [e]) : Kept (tr ++ [e]) (s.after o posted) := by
  constructor
  case posted =>
      intro passed hmem
      rcases List.mem_append.mp hmem with hold | hnew
      · exact hposted passed hold
      · exact hstarted passed hnew
  case made =>
      rw [createdBy_append_singleton, hcalls]
      exact List.not_mem_append h.made hmade
  case cleared =>
      intro passed calls handed hmem
      rcases List.mem_append.mp hmem with hold | hnew
      · exact h.cleared passed calls handed hold
      · exact hcleared passed calls handed hnew

theorem of_run (h : acceptSystem.Run tr s) : Kept tr s := by
  refine System.Run.induction (P := Kept) ?_ ?_ h
  · rintro s ⟨ioData, rfl⟩
    exact ⟨fun _ hp => absurd hp List.not_mem_nil, List.not_mem_nil,
      fun _ _ _ hmem => absurd hmem List.not_mem_nil⟩
  intro tr s e s' _ ih hstep
  rcases step_cases hstep with ⟨r, new, result, hfresh, rfl, rfl⟩ |
    ⟨passed, l, new, result, hpassed, hfresh, rfl, rfl⟩
  · refine ih.after rfl ih.posted (fun passed hmem => ?_) hfresh.2 fun passed calls ret hmem => ?_
    · exact TcpListener.eq_zero_of_accepting_listen hmem
    · cases List.mem_singleton.mp hmem
  · refine ih.after rfl (fun p hmem => ih.posted p (List.mem_of_mem_erase hmem))
      (fun p hmem => l.eq_zero_of_accepting new result hmem) hfresh.2 fun p calls ret hmem => ?_
    obtain ⟨rfl, rfl, rfl⟩ := AcceptEvent.accepted.inj (List.mem_singleton.mp hmem)
    have hzero := ih.posted p hpassed
    refine ⟨hzero, fun handed hret => ?_⟩
    rw [hzero]
    exact handed_eq_zero_iff l new result hret

end Acceptor.Kept

/-- In every run `onAccept` is called with the handle of the accept that completed exactly
when the accept that follows is not refused; but that is the cleared handle, so accepted
connections are handed over one to one in the runs that complete no accept, and in no
others. -/
theorem oneToOne_iff (h : acceptSystem.Run tr s) :
    Cleared tr ∧ (OneToOne tr ↔ completions tr = []) := by
  have hkept := Acceptor.Kept.of_run h
  refine ⟨hkept.cleared, fun hone => ?_, fun hnone => ?_⟩
  · rw [completions, List.filterMap_eq_nil_iff]
    intro e he
    cases e with
    | listened calls ret => rfl
    | accepted passed calls ret =>
        obtain ⟨before, after, hsplit⟩ := List.append_of_mem he
        obtain ⟨handed, -, -, hcreated, -⟩ := hone before passed calls ret after hsplit
        rw [(hkept.cleared passed calls ret he).1] at hcreated
        refine absurd ?_ hkept.made
        rw [hsplit, createdBy, List.flatMap_append]
        exact List.mem_append_left _ hcreated
  · rintro before passed calls ret after rfl
    rw [completions, List.filterMap_eq_nil_iff] at hnone
    cases hnone _ (List.mem_append_right before List.mem_cons_self)

end Accept

/-- The calls of `getNewSocket` that make the handle `h`. -/
def newSocketCalls (h : Socket) : List SysCall :=
  [.wsaSocket h, .setsockopt h .reuseAddr 1 true, .setsockopt h .sndBuf maxSendSize true]

/-- A listener on handle 3 makes 4 for the first connection. When that is there it makes
5, and the accept it starts then is refused. -/
def sampleAccepts : List AcceptEvent :=
  [.listened ([.socket 3, .setsockopt 3 .reuseAddr 1 true, .bind 3 true, .listen 3 8 true,
      .createIoCompletionPort 3 true] ++
        (newSocketCalls 4 ++ [.acceptEx 3 0 (.error ioPending)])) (some false),
    .accepted 0 (newSocketCalls 5 ++ [.acceptEx 3 0 (.error 10038)]) (some invalidSocket)]

theorem run_sampleAccepts : ∃ s, acceptSystem.Run sampleAccepts s := by
  let start : Acceptor := { listener := { ioData := ⟨0, .handleAccept, 0⟩ } }
  have hexec : System.exec Acceptor.next
      [.listen ⟨3, true, true, true, true⟩ ⟨4, true, true⟩ (some (.error ioPending)),
        .complete 0 0 ⟨5, true, true⟩ (some (.error 10038))] start =
          some (_, sampleAccepts) := rfl
  exact ⟨_, System.run_of_exec ⟨_, rfl⟩ hexec⟩

theorem oneToOne_iff_sample : OneToOne sampleAccepts ↔ completions sampleAccepts = [] :=
  (oneToOne_iff run_sampleAccepts.choose_spec).2

/-- There the connection accepted first is handed over as `-1`. -/
theorem not_oneToOne : ¬∀ tr s, acceptSystem.Run tr s → OneToOne tr := by
  intro h
  have hone := h _ _ run_sampleAccepts.choose_spec
  obtain ⟨handed, hret, heq, -⟩ := hone [_] 0 _ (some invalidSocket) [] rfl
  obtain rfl := Option.some.inj hret
  exact absurd heq (by decide)

end Qing
