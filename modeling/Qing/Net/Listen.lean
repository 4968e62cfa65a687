import Qing.Net.TcpListener

/-!
# What `listen` returns

`ListensOn` says of the calls that were made that a listener stands: its socket made,
configured, bound, listening and registered with the poller, and a first accept posted.
Once everything before that accept has gone well, `accept` writes over memory that is not its
own, and `listen` may not return. If it does, it takes the handle that `accept` returns for the
answer, which is 0 where `accept` has succeeded and -1 where `AcceptEx` has failed, and so the
answer is the wrong one (`listen_faithful_iff`).
-/

namespace Qing

/-- The calls have made `listenSocket` listen, and `AcceptEx` accept on `acceptSocket`. -/
structure ListensOn (calls : List SysCall) (listenSocket acceptSocket : Socket) : Prop where
  made : .socket listenSocket ∈ calls ∧ listenSocket ≠ invalidSocket
  configured : .setsockopt listenSocket .reuseAddr 1 true ∈ calls
  bound : .bind listenSocket true ∈ calls
  listening : ∃ backlog, .listen listenSocket backlog true ∈ calls
  registered : .createIoCompletionPort listenSocket true ∈ calls
  accepting : ∃ result, .acceptEx listenSocket acceptSocket result ∈ calls ∧ result.posted = true

/-- `WSASocket` has made the handle. -/
def MadeFor (calls : List SysCall) (acceptSocket : Socket) : Prop :=
  .wsaSocket acceptSocket ∈ calls ∧ acceptSocket ≠ invalidSocket

/-- The call returns, and returns `true` exactly if `P`. -/
def Outcome.Answers (o : Outcome Bool) (P : Prop) : Prop :=
  ∃ answer, o.ret = some answer ∧ (answer = true ↔ P)

/-- A listener stands, with an accept posted on some handle. -/
def Outcome.Listens (o : Outcome Bool) : Prop :=
  ∃ listenSocket acceptSocket, ListensOn o.calls listenSocket acceptSocket

/-- A listener stands, with an accept posted on a socket that was made for it. -/
def Outcome.Established (o : Outcome Bool) : Prop :=
  ∃ listenSocket acceptSocket,
    ListensOn o.calls listenSocket acceptSocket ∧ MadeFor o.calls acceptSocket

theorem WsaResult.not_fails_of_posted {result : WsaResult} (h : result.posted = true) :
    ¬result.Fails := by
  cases result with
  | done bytes => exact id
  | error lastError => exact fun hfails => hfails.2 (beq_iff_eq.mp h)

theorem Util.wsaSocket_mem_getNewSocket {new : NewSocket} {s : Socket} :
    .wsaSocket s ∈ (Util.getNewSocket new).2 ↔ s = new.socket := by
  rw [getNewSocket]
  split_ifs <;> simp

namespace TcpListener

variable (l : TcpListener) (r : Listening) (new : NewSocket) (result : Option WsaResult)

/-- The calls of `listen` before it calls `accept`. -/
def prepared (r : Listening) : List SysCall :=
  [.socket r.socket, .setsockopt r.socket .reuseAddr 1 true, .bind r.socket true,
    .listen r.socket 8 true, .createIoCompletionPort r.socket r.added]

theorem calls_listen (h : r.Accepts) :
    (l.listen r new result).calls =
      prepared r ++ ({ l with socket := r.socket }.accept new result).calls := by
  obtain ⟨hreuse, hbound, hlisten⟩ := h
  rw [listen, prepared]
  simp [hreuse, hbound, hlisten]

theorem accepts_of_listensOn {listenSocket acceptSocket : Socket}
    (h : ListensOn (l.listen r new result).calls listenSocket acceptSocket) : r.Accepts := by
  obtain ⟨result', hmem, hposted⟩ := h.accepting
  obtain ⟨calls, ⟨-, hnone, -⟩, ⟨-, heq⟩ | ⟨haccepts, -⟩⟩ := l.listen_cases r new result
  · have hin : acceptSocket ∈ accepting calls := by
      rw [heq] at hmem
      exact List.mem_filterMap.mpr ⟨_, hmem, if_pos hposted⟩
    rw [hnone] at hin
    cases hin
  · exact haccepts

theorem notMem_calls_accept (s : Socket) (ok : Bool) :
    .socket s ∉ (l.accept new result).calls ∧
      .createIoCompletionPort s ok ∉ (l.accept new result).calls := by
  have hnew : .socket s ∉ (Util.getNewSocket new).2 ∧
      .createIoCompletionPort s ok ∉ (Util.getNewSocket new).2 := by
    rw [Util.getNewSocket]
    split_ifs <;> simp
  rcases l.accept_cases new result with ⟨-, heq⟩ | ⟨-, -, heq⟩ | ⟨ioData, answer, -, -, heq⟩
  · rw [heq]
    exact hnew
  · rw [heq]
    exact hnew
  · rw [heq]
    exact ⟨List.not_mem_append hnew.1 (by simp), List.not_mem_append hnew.2 (by simp)⟩

/-- A listener stands exactly if all the calls before `AcceptEx` have succeeded, the overrun
has not ended the program and the accept is posted; it is posted on handle 0. -/
theorem listensOn_iff {listenSocket acceptSocket : Socket} :
    ListensOn (l.listen r new result).calls listenSocket acceptSocket ↔
      (r.Accepts ∧ new.Succeeds) ∧ (r.socket ≠ invalidSocket ∧ r.added = true ∧
        ∃ answer, result = some answer ∧ answer.posted = true) ∧
          listenSocket = r.socket ∧ acceptSocket = 0 := by
  constructor
  · intro h
    have haccepts := l.accepts_of_listensOn r new result h
    obtain ⟨⟨hmade, hvalid⟩, -, -, -, hregistered, answer, hmem, hposted⟩ := h
    rw [calls_listen l r new result haccepts, List.mem_append] at hmade hregistered hmem
    obtain ⟨hsocket, hadd⟩ := notMem_calls_accept { l with socket := r.socket } new result
      listenSocket true
    obtain rfl : listenSocket = r.socket := by
      simpa [prepared] using hmade.resolve_right hsocket
    have hadded : true = r.added := by simpa [prepared] using hregistered.resolve_right hadd
    have hexpired : .acceptEx r.socket acceptSocket answer ∉ prepared r := by simp [prepared]
    obtain ⟨hnew, -, hzero, hresult⟩ :=
      (mem_calls_accept _ new result).mp (hmem.resolve_left hexpired)
    exact ⟨⟨haccepts, hnew⟩, ⟨hvalid, hadded.symm, answer, hresult, hposted⟩, rfl, hzero⟩
  · rintro ⟨⟨haccepts, hnew⟩, ⟨hvalid, hadded, answer, hresult, hposted⟩, rfl, rfl⟩
    have hmem : ∀ call ∈ prepared r, call ∈ (l.listen r new result).calls := by
      intro call hcall
      rw [calls_listen l r new result haccepts]
      exact List.mem_append_left _ hcall
    refine ⟨⟨hmem _ ?_, hvalid⟩, hmem _ ?_, hmem _ ?_, ⟨8, hmem _ ?_⟩, hmem _ ?_,
      answer, ?_, hposted⟩
    · simp [prepared]
    · simp [prepared]
    · simp [prepared]
    · simp [prepared]
    · simp [prepared, hadded]
    · rw [calls_listen l r new result haccepts]
      exact List.mem_append_right _ ((mem_calls_accept _ new result).mpr ⟨hnew, rfl, rfl, hresult⟩)

theorem madeFor_iff (h : r.Accepts) {acceptSocket : Socket} :
    MadeFor (l.listen r new result).calls acceptSocket ↔
      acceptSocket = new.socket ∧ acceptSocket ≠ invalidSocket := by
  have hnone : .wsaSocket acceptSocket ∉ prepared r := by simp [prepared]
  rw [MadeFor, calls_listen l r new result h, List.mem_append, or_iff_right hnone]
  refine and_congr_left fun _ => ?_
  rw [← Util.wsaSocket_mem_getNewSocket]
  rcases ({ l with socket := r.socket } : TcpListener).accept_cases new result with
    ⟨-, heq⟩ | ⟨-, -, heq⟩ | ⟨ioData, answer, -, -, heq⟩
  · rw [heq]
  · rw [heq]
  · rw [heq, List.mem_append, or_iff_left (by simp)]

theorem listens_iff : (l.listen r new result).Listens ↔
    (r.Accepts ∧ new.Succeeds) ∧ r.socket ≠ invalidSocket ∧ r.added = true ∧
      ∃ answer, result = some answer ∧ answer.posted = true := by
  constructor
  · rintro ⟨listenSocket, acceptSocket, h⟩
    obtain ⟨hgone, hdone, -⟩ := (l.listensOn_iff r new result).mp h
    exact ⟨hgone, hdone⟩
  · rintro ⟨hgone, hdone⟩
    exact ⟨r.socket, 0, (l.listensOn_iff r new result).mpr ⟨hgone, hdone, rfl, rfl⟩⟩

theorem established_iff : (l.listen r new result).Established ↔
    (l.listen r new result).Listens ∧ new.socket = 0 := by
  constructor
  · rintro ⟨listenSocket, acceptSocket, h, hmade⟩
    obtain ⟨hgone, -, -, rfl⟩ := (l.listensOn_iff r new result).mp h
    exact ⟨⟨_, _, h⟩, ((l.madeFor_iff r new result hgone.1).mp hmade).1.symm⟩
  · rintro ⟨⟨listenSocket, acceptSocket, h⟩, hzero⟩
    obtain ⟨hgone, -, -, rfl⟩ := (l.listensOn_iff r new result).mp h
    exact ⟨_, _, h, (l.madeFor_iff r new result hgone.1).mpr ⟨hzero.symm, by decide⟩⟩

theorem answers_of_not {P : Prop} (h : ¬(r.Accepts ∧ new.Succeeds)) (hP : ¬P) :
    (l.listen r new result).Answers P :=
  ⟨false, l.listen_ret_of_not r new result h, iff_of_false Bool.false_ne_true hP⟩

theorem answers_some_iff {P : Prop} {answer : WsaResult} (h : r.Accepts ∧ new.Succeeds) :
    (l.listen r new (some answer)).Answers P ↔ (answer.Fails ↔ P) := by
  rw [Outcome.Answers, l.listen_ret_of r new _ h, Option.map_some]
  simp

/-- `listen` answers well, whatever the overrun does, exactly as long as it does not get to it:
one of the calls before the first `AcceptEx` has failed. Where the overrun does no harm it
returns `true` exactly if a listener stands, with an accept posted on a socket that was made
for it, but in these cases: everything before `AcceptEx` has gone well, and either `AcceptEx`
fails, or a listener does stand. The same is so with an accept posted on any handle, and there
the second exception is the success of every call. -/
theorem listen_faithful_iff (answer : WsaResult) :
    ((∀ result ∈ [none, some answer],
        (l.listen r new result).Answers (l.listen r new result).Established) ↔
      ¬(r.Accepts ∧ new.Succeeds)) ∧
    ((l.listen r new (some answer)).Answers (l.listen r new (some answer)).Established ↔
      ¬((r.Accepts ∧ new.Succeeds) ∧
        (answer.Fails ∨ (r.socket ≠ invalidSocket ∧ r.added = true ∧ answer.posted = true) ∧
          new.socket = 0))) ∧
    ((l.listen r new (some answer)).Answers (l.listen r new (some answer)).Listens ↔
      ¬((r.Accepts ∧ new.Succeeds) ∧
        (answer.Fails ∨ r.socket ≠ invalidSocket ∧ r.added = true ∧ answer.posted = true))) := by
  by_cases h : r.Accepts ∧ new.Succeeds
  · have hlistens : (l.listen r new (some answer)).Listens ↔
        r.socket ≠ invalidSocket ∧ r.added = true ∧ answer.posted = true := by
      rw [listens_iff, and_iff_right h]
      simp
    have hexcl : answer.posted = true → ¬answer.Fails := WsaResult.not_fails_of_posted
    rw [answers_some_iff l r new h, answers_some_iff l r new h, established_iff, hlistens]
    refine ⟨iff_of_false (fun hall => ?_) (not_not_intro h), by tauto, by tauto⟩
    obtain ⟨ret, hret, -⟩ := hall none List.mem_cons_self
    rw [l.listen_ret_of r new none h] at hret
    cases hret
  · have hlistens : ∀ result, ¬(l.listen r new result).Listens := fun result hstands =>
      h ((l.listens_iff r new result).mp hstands).1
    have hestablished : ∀ result, ¬(l.listen r new result).Established := fun result hstands =>
      hlistens result ((l.established_iff r new result).mp hstands).1
    refine ⟨iff_of_true (fun result _ => ?_) h, iff_of_true ?_ fun hgone => h hgone.1,
      iff_of_true ?_ fun hgone => h hgone.1⟩
    · exact l.answers_of_not r new result h (hestablished result)
    · exact l.answers_of_not r new _ h (hestablished _)
    · exact l.answers_of_not r new _ h (hlistens _)

end TcpListener

/-- A listener with any record, on which `AcceptEx` fails after an overrun that did no harm. -/
theorem not_listen_faithful :
    ¬ ∀ (l : TcpListener) (r : TcpListener.Listening) (new : NewSocket) (answer : WsaResult),
      (l.listen r new (some answer)).Answers (l.listen r new (some answer)).Established := by
  intro hall
  let l : TcpListener := { ioData := ⟨0, .handleAccept, 0⟩ }
  have hiff := hall l { socket := 3 } { socket := 4 } (.error 10038)
  have hgone : TcpListener.Listening.Accepts { socket := 3 } ∧
      NewSocket.Succeeds { socket := 4 } := by decide
  have hestablished := ((l.answers_some_iff _ _ hgone).mp hiff).mp (by decide)
  obtain ⟨-, -, -, answer, hanswer, hposted⟩ :=
    (l.listens_iff _ _ _).mp ((l.established_iff _ _ _).mp hestablished).1
  obtain rfl := Option.some.inj hanswer
  revert hposted
  decide

end Qing
