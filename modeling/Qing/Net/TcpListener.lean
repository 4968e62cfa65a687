import Mathlib.Data.List.Basic
import Qing.Net.TcpSocket

/-!
# The listener and where its sockets come from

`Util::getNewSocket` and the functions of `TcpListener` in its `AcceptEx` version. As for
`TcpSocket`, a function is given what the system calls answer and returns what it leaves,
the calls it made and its return value. A failing system call answers `-1` (`false` for
those that answer nothing else).

`accept` clears its local handle of 8 bytes with the size of a whole `IO_DATA`, and so writes
over 10 KB that are not its own. That is undefined: here it ends the program, or the program
goes on with the handle cleared and nothing else changed, and in both cases it is put down
(`Outcome.overran`). The address is only passed to `bind` and is left out.
-/

namespace Qing

/-- `MAX_SEND_SIZE` -/
def maxSendSize : UInt32 := 655360

inductive SockOpt
  | reuseAddr
  | sndBuf
  deriving DecidableEq, Repr

/-- A system call about socket handles, with its answer. -/
inductive SysCall
  | wsaSocket (result : Socket)
  | socket (result : Socket)
  | setsockopt (socket : Socket) (option : SockOpt) (value : UInt32) (ok : Bool)
  | bind (socket : Socket) (ok : Bool)
  | listen (socket : Socket) (backlog : UInt32) (ok : Bool)
  | createIoCompletionPort (socket : Socket) (ok : Bool)
  | acceptEx (listenSocket acceptSocket : Socket) (result : WsaResult)
  | closesocket (handle : Socket)
  deriving DecidableEq, Repr

/-- The handle a call has obtained from the system. -/
def SysCall.created? : SysCall → Option Socket
  | wsaSocket result | socket result => if result = invalidSocket then none else some result
  | _ => none

/-- The handles that were obtained, in order. -/
def created (calls : List SysCall) : List Socket := calls.filterMap SysCall.created?

theorem created_append (calls calls' : List SysCall) :
    created (calls ++ calls') = created calls ++ created calls' := List.filterMap_append

/-- The handle on which a call has started to accept, so that a completion follows. -/
def SysCall.accepting? : SysCall → Option Socket
  | acceptEx _ acceptSocket result => if result.posted then some acceptSocket else none
  | _ => none

/-- The handles on which the calls have started to accept. -/
def accepting (calls : List SysCall) : List Socket := calls.filterMap SysCall.accepting?

theorem accepting_append (calls calls' : List SysCall) :
    accepting (calls ++ calls') = accepting calls ++ accepting calls' := List.filterMap_append

/-! ## `Util::getNewSocket` -/

/-- What the calls of `getNewSocket` answer. -/
structure NewSocket where
  socket : Socket
  reuseAddr : Bool := true
  sndBuf : Bool := true

/-- Whether `getNewSocket` has a handle to return. -/
def NewSocket.Succeeds (r : NewSocket) : Prop :=
  r.socket ≠ invalidSocket ∧ r.reuseAddr = true ∧ r.sndBuf = true

instance (r : NewSocket) : Decidable r.Succeeds :=
  inferInstanceAs (Decidable (_ ∧ _ ∧ _))

/-- The handles that `getNewSocket` obtains. -/
def NewSocket.opened (r : NewSocket) : List Socket :=
  if r.socket = invalidSocket then [] else [r.socket]

def Util.getNewSocket (r : NewSocket) : Socket × List SysCall :=
  if r.socket = invalidSocket then (invalidSocket, [.wsaSocket r.socket])
  else if r.reuseAddr = false then
    (invalidSocket, [.wsaSocket r.socket, .setsockopt r.socket .reuseAddr 1 false])
  else if r.sndBuf = false then
    (invalidSocket, [.wsaSocket r.socket, .setsockopt r.socket .reuseAddr 1 true,
      .setsockopt r.socket .sndBuf maxSendSize false])
  else
    (r.socket, [.wsaSocket r.socket, .setsockopt r.socket .reuseAddr 1 true,
      .setsockopt r.socket .sndBuf maxSendSize true])

theorem Util.created_getNewSocket (r : NewSocket) :
    created (getNewSocket r).2 = r.opened := by
  rw [getNewSocket, NewSocket.opened]
  split_ifs with hsocket
  all_goals simp [created, SysCall.created?, hsocket]

theorem Util.accepting_getNewSocket (r : NewSocket) : accepting (getNewSocket r).2 = [] := by
  rw [getNewSocket]
  split_ifs <;> rfl

theorem Util.closesocket_notMem_getNewSocket (r : NewSocket) (k : Socket) :
    .closesocket k ∉ (getNewSocket r).2 := by
  rw [getNewSocket]
  split_ifs <;> simp

theorem Util.getNewSocket_fst (r : NewSocket) :
    (r.Succeeds ∧ (getNewSocket r).1 = r.socket) ∨
      (¬r.Succeeds ∧ (getNewSocket r).1 = invalidSocket) := by
  rw [getNewSocket]
  split_ifs with hsocket hreuse hsend
  · exact Or.inr ⟨fun h => h.1 hsocket, rfl⟩
  · exact Or.inr ⟨fun h => absurd (h.2.1.symm.trans hreuse) Bool.noConfusion, rfl⟩
  · exact Or.inr ⟨fun h => absurd (h.2.2.symm.trans hsend) Bool.noConfusion, rfl⟩
  · exact Or.inl ⟨⟨hsocket, Bool.of_not_eq_false hreuse, Bool.of_not_eq_false hsend⟩, rfl⟩

theorem Util.getNewSocket_eq_invalid_iff (r : NewSocket) :
    (getNewSocket r).1 = invalidSocket ↔ ¬r.Succeeds := by
  rcases getNewSocket_fst r with ⟨hr, heq⟩ | ⟨hr, heq⟩
  · rw [heq]
    exact iff_of_false hr.1 (not_not_intro hr)
  · exact iff_of_true heq hr

/-! ## `TcpListener` -/

structure TcpListener where
  socket : Socket := invalidSocket
  ioData : IoData

/-- What a function of the listener leaves, the calls it made, and what it returned. -/
structure Outcome (ρ : Type) where
  self : TcpListener
  calls : List SysCall
  /-- `none` if it did not return. -/
  ret : Option ρ
  /-- Whether it has written over memory that is not its own. -/
  overran : Bool := false

/-- Whether `accept` takes the answer of `AcceptEx` for a failure. -/
def WsaResult.Fails : WsaResult → Prop
  | done _ => False
  | error lastError => lastError ≠ errorSuccess ∧ lastError ≠ ioPending

instance (result : WsaResult) : Decidable result.Fails := by
  cases result <;> unfold WsaResult.Fails <;> infer_instance

namespace TcpListener

/-- `AcceptEx` stores a count in the record when it is done at once. -/
def received (bytes : UInt32) : WsaResult → UInt32
  | .done bytes' => bytes'
  | .error _ => bytes

/-- `result` is the answer of `AcceptEx`, or `none` if the overrun ends the program. -/
def accept (l : TcpListener) (r : NewSocket) (result : Option WsaResult) : Outcome Socket :=
  let new := Util.getNewSocket r
  if new.1 = invalidSocket then
    -- `return false;`
    { self := l, calls := new.2, ret := some 0 }
  else
    -- `memset(&socket, 0, sizeof(IO_DATA));`
    match result with
    | none => { self := l, calls := new.2, ret := none, overran := true }
    | some result =>
        let socket : Socket := 0
        let ioData : IoData :=
          { socket := l.socket, type := .handleAccept, bytes := received l.ioData.bytes result }
        let calls := new.2 ++ [.acceptEx l.socket socket result]
        if result.Fails then
          { self := { l with ioData }, calls, ret := some invalidSocket, overran := true }
        else { self := { l with ioData }, calls, ret := some socket, overran := true }

/-- What the calls of `listen` answer before it calls `accept`. -/
structure Listening where
  socket : Socket
  reuseAddr : Bool := true
  bound : Bool := true
  listening : Bool := true
  added : Bool := true

/-- The handles that `listen` obtains before it calls `accept`. -/
def Listening.opened (r : Listening) : List Socket :=
  if r.socket = invalidSocket then [] else [r.socket]

/-- Whether `listen` gets as far as `accept`. -/
def Listening.Accepts (r : Listening) : Prop :=
  r.reuseAddr = true ∧ r.bound = true ∧ r.listening = true

instance (r : Listening) : Decidable r.Accepts :=
  inferInstanceAs (Decidable (_ ∧ _ ∧ _))

def listen (l : TcpListener) (r : Listening) (new : NewSocket) (result : Option WsaResult) :
    Outcome Bool :=
  let l' := { l with socket := r.socket }
  let created : List SysCall := [.socket r.socket]
  let set := created ++ [.setsockopt r.socket .reuseAddr 1 r.reuseAddr]
  let bound := set ++ [.bind r.socket r.bound]
  let listened := bound ++ [.listen r.socket 8 r.listening]
  let added := listened ++ [.createIoCompletionPort r.socket r.added]
  if r.reuseAddr = false then { self := l', calls := set, ret := some false }
  else if r.bound = false then { self := l', calls := bound, ret := some false }
  else if r.listening = false then { self := l', calls := listened, ret := some false }
  else
    let accepted := l'.accept new result
    { self := accepted.self, calls := added ++ accepted.calls
      ret := accepted.ret.map fun socket => if socket ≠ 0 then true else false
      overran := accepted.overran }

/-- The value is the handle that `onAccept` is called with; `onAccept` does nothing. -/
def onRead (l : TcpListener) (r : NewSocket) (result : Option WsaResult) : Outcome Socket :=
  l.accept r result

/-! ### What they do -/

variable (l : TcpListener) (r : Listening) (new : NewSocket) (result : Option WsaResult)

theorem accept_cases :
    (¬new.Succeeds ∧
      l.accept new result = { self := l, calls := (Util.getNewSocket new).2, ret := some 0 }) ∨
    (new.Succeeds ∧ result = none ∧ l.accept new result =
      { self := l, calls := (Util.getNewSocket new).2, ret := none, overran := true }) ∨
    ∃ ioData answer, new.Succeeds ∧ result = some answer ∧ l.accept new result =
      { self := { l with ioData }
        calls := (Util.getNewSocket new).2 ++ [.acceptEx l.socket 0 answer]
        ret := some (if answer.Fails then invalidSocket else 0), overran := true } := by
  unfold accept
  by_cases hnew : (Util.getNewSocket new).1 = invalidSocket
  · dsimp only
    rw [if_pos hnew]
    exact Or.inl ⟨(Util.getNewSocket_eq_invalid_iff new).mp hnew, rfl⟩
  · have hsucceeds := not_not.mp ((Util.getNewSocket_eq_invalid_iff new).not.mp hnew)
    dsimp only
    rw [if_neg hnew]
    refine Or.inr ?_
    cases result with
    | none => exact Or.inl ⟨hsucceeds, rfl, rfl⟩
    | some answer =>
        refine Or.inr ⟨⟨l.socket, .handleAccept, received l.ioData.bytes answer⟩, answer,
          hsucceeds, rfl, ?_⟩
        dsimp only
        split_ifs <;> rfl

/-- Every call of `accept` that obtains a socket writes over what is not its own. -/
theorem accept_overran_iff : (l.accept new result).overran = true ↔ new.Succeeds := by
  rcases l.accept_cases new result with ⟨hnew, heq⟩ | ⟨hnew, -, heq⟩ |
    ⟨ioData, answer, hnew, -, heq⟩
  · rw [heq]
    exact iff_of_false Bool.false_ne_true hnew
  · rw [heq]
    exact iff_of_true rfl hnew
  · rw [heq]
    exact iff_of_true rfl hnew

theorem created_accept : created (l.accept new result).calls = new.opened := by
  rcases l.accept_cases new result with ⟨-, heq⟩ | ⟨-, -, heq⟩ | ⟨ioData, answer, -, -, heq⟩
  · rw [heq, Util.created_getNewSocket]
  · rw [heq, Util.created_getNewSocket]
  · rw [heq, created_append, Util.created_getNewSocket]
    exact List.append_nil _

theorem closesocket_notMem_accept (k : Socket) :
    .closesocket k ∉ (l.accept new result).calls := by
  have hnew := Util.closesocket_notMem_getNewSocket new k
  rcases l.accept_cases new result with ⟨-, heq⟩ | ⟨-, -, heq⟩ | ⟨ioData, answer, -, -, heq⟩
  · rw [heq]
    exact hnew
  · rw [heq]
    exact hnew
  · rw [heq]
    exact List.not_mem_append hnew (by simp)

@[simp] theorem accept_socket : (l.accept new result).self.socket = l.socket := by
  rcases l.accept_cases new result with ⟨-, heq⟩ | ⟨-, -, heq⟩ | ⟨ioData, answer, -, -, heq⟩
  · rw [heq]
  · rw [heq]
  · rw [heq]

theorem eq_zero_of_accepting {s : Socket} (h : s ∈ accepting (l.accept new result).calls) :
    s = 0 := by
  rcases l.accept_cases new result with ⟨-, heq⟩ | ⟨-, -, heq⟩ | ⟨ioData, answer, -, -, heq⟩
  · rw [heq, Util.accepting_getNewSocket] at h
    cases h
  · rw [heq, Util.accepting_getNewSocket] at h
    cases h
  · rw [heq, accepting_append, Util.accepting_getNewSocket, List.nil_append, accepting,
      List.filterMap_cons, SysCall.accepting?] at h
    split_ifs at h
    · exact List.mem_singleton.mp h
    · cases h

theorem mem_calls_accept {listenSocket acceptSocket : Socket} {answer : WsaResult} :
    .acceptEx listenSocket acceptSocket answer ∈ (l.accept new result).calls ↔
      new.Succeeds ∧ listenSocket = l.socket ∧ acceptSocket = 0 ∧ result = some answer := by
  have hnone : .acceptEx listenSocket acceptSocket answer ∉ (Util.getNewSocket new).2 := by
    rw [Util.getNewSocket]
    split_ifs <;> simp
  rcases l.accept_cases new result with ⟨hnew, heq⟩ | ⟨-, hresult, heq⟩ |
    ⟨ioData, answer', hnew, hresult, heq⟩
  · rw [heq]
    exact iff_of_false hnone fun h => hnew h.1
  · rw [heq, hresult]
    exact iff_of_false hnone fun h => Option.some_ne_none _ h.2.2.2.symm
  · rw [heq, List.mem_append, or_iff_right hnone, List.mem_singleton, SysCall.acceptEx.injEq,
      and_iff_right hnew, hresult, Option.some_inj, eq_comm (a := answer)]

theorem accept_ret_iff {socket : Socket} :
    (l.accept new result).ret = some socket ↔
      (¬new.Succeeds ∧ socket = 0) ∨
        ∃ answer, new.Succeeds ∧ result = some answer ∧
          socket = if answer.Fails then invalidSocket else 0 := by
  rcases l.accept_cases new result with ⟨hnew, heq⟩ | ⟨hnew, hresult, heq⟩ |
    ⟨ioData, answer, hnew, hresult, heq⟩
  · rw [heq]
    simp [hnew, eq_comm]
  · rw [heq, hresult]
    simp [hnew]
  · rw [heq, hresult]
    simp [hnew, eq_comm]

theorem listen_cases :
    ∃ calls, (created calls = r.opened ∧ accepting calls = [] ∧ ∀ k, .closesocket k ∉ calls) ∧
      ((¬r.Accepts ∧ l.listen r new result =
        { self := { l with socket := r.socket }, calls, ret := some false }) ∨
      (r.Accepts ∧ l.listen r new result =
        { self := ({ l with socket := r.socket }.accept new result).self
          calls := calls ++ ({ l with socket := r.socket }.accept new result).calls
          ret := ({ l with socket := r.socket }.accept new result).ret.map
            fun socket => if socket ≠ 0 then true else false
          overran := ({ l with socket := r.socket }.accept new result).overran })) := by
  have hopened : ∀ rest : List SysCall, created rest = [] →
      created (.socket r.socket :: rest) = r.opened := by
    intro rest hrest
    rw [created, List.filterMap_cons, SysCall.created?, Listening.opened]
    split_ifs
    · exact hrest
    · exact congrArg _ hrest
  rw [listen]
  split_ifs with hreuse hbound hlisten
  · refine ⟨_, ⟨hopened _ rfl, rfl, by simp⟩, Or.inl ⟨fun h => ?_, rfl⟩⟩
    exact absurd (h.1.symm.trans hreuse) Bool.noConfusion
  · refine ⟨_, ⟨hopened _ rfl, rfl, by simp⟩, Or.inl ⟨fun h => ?_, rfl⟩⟩
    exact absurd (h.2.1.symm.trans hbound) Bool.noConfusion
  · refine ⟨_, ⟨hopened _ rfl, rfl, by simp⟩, Or.inl ⟨fun h => ?_, rfl⟩⟩
    exact absurd (h.2.2.symm.trans hlisten) Bool.noConfusion
  · refine ⟨_, ⟨hopened [.setsockopt r.socket .reuseAddr 1 r.reuseAddr, .bind r.socket r.bound,
      .listen r.socket 8 r.listening, .createIoCompletionPort r.socket r.added] rfl, rfl,
      by simp⟩, Or.inr ⟨⟨Bool.of_not_eq_false hreuse,
      Bool.of_not_eq_false hbound, Bool.of_not_eq_false hlisten⟩, rfl⟩⟩

theorem created_listen : created (l.listen r new result).calls =
    r.opened ++ if r.Accepts then new.opened else [] := by
  obtain ⟨calls, ⟨hcreated, -, -⟩, ⟨haccepts, heq⟩ | ⟨haccepts, heq⟩⟩ :=
    l.listen_cases r new result
  · rw [heq, if_neg haccepts, List.append_nil, hcreated]
  · rw [heq, if_pos haccepts, created_append, created_accept, hcreated]

theorem closesocket_notMem_listen (k : Socket) :
    .closesocket k ∉ (l.listen r new result).calls := by
  obtain ⟨calls, ⟨-, -, hclose⟩, ⟨-, heq⟩ | ⟨-, heq⟩⟩ := l.listen_cases r new result
  · rw [heq]
    exact hclose k
  · rw [heq]
    exact List.not_mem_append (hclose k) (closesocket_notMem_accept _ new result k)

@[simp] theorem listen_socket : (l.listen r new result).self.socket = r.socket := by
  obtain ⟨calls, -, ⟨-, heq⟩ | ⟨-, heq⟩⟩ := l.listen_cases r new result
  · rw [heq]
  · rw [heq]
    exact accept_socket _ new result

theorem listen_overran_iff :
    (l.listen r new result).overran = true ↔ r.Accepts ∧ new.Succeeds := by
  obtain ⟨calls, -, ⟨haccepts, heq⟩ | ⟨haccepts, heq⟩⟩ := l.listen_cases r new result
  · rw [heq]
    exact iff_of_false Bool.false_ne_true fun h => haccepts h.1
  · rw [heq, and_iff_right haccepts]
    exact accept_overran_iff _ new result

theorem listen_ret_of_not (h : ¬(r.Accepts ∧ new.Succeeds)) :
    (l.listen r new result).ret = some false := by
  obtain ⟨calls, -, ⟨-, heq⟩ | ⟨haccepts, heq⟩⟩ := l.listen_cases r new result
  · rw [heq]
  · have hret : ({ l with socket := r.socket }.accept new result).ret = some 0 :=
      (accept_ret_iff _ new result).mpr (Or.inl ⟨fun hnew => h ⟨haccepts, hnew⟩, rfl⟩)
    rw [heq, hret]
    rfl

theorem listen_ret_of (h : r.Accepts ∧ new.Succeeds) :
    (l.listen r new result).ret = result.map fun answer => decide answer.Fails := by
  obtain ⟨haccepts, hnew⟩ := h
  obtain ⟨calls, -, ⟨hnot, -⟩ | ⟨-, heq⟩⟩ := l.listen_cases r new result
  · exact absurd haccepts hnot
  rw [heq]
  rcases ({ l with socket := r.socket } : TcpListener).accept_cases new result with
    ⟨hnot, -⟩ | ⟨-, hresult, haccept⟩ | ⟨ioData, answer, -, hresult, haccept⟩
  · exact absurd hnew hnot
  · rw [haccept, hresult]
    rfl
  · rw [haccept, hresult]
    by_cases hfails : answer.Fails
    · simp [hfails, invalidSocket]
    · simp [hfails]

variable {l r new result} in
theorem eq_zero_of_accepting_listen {s : Socket}
    (h : s ∈ accepting (l.listen r new result).calls) : s = 0 := by
  obtain ⟨calls, ⟨-, hnone, -⟩, ⟨-, heq⟩ | ⟨-, heq⟩⟩ := l.listen_cases r new result
  · rw [heq, hnone] at h
    cases h
  · rw [heq, accepting_append, hnone] at h
    exact eq_zero_of_accepting _ new result h

end TcpListener

end Qing
