import Mathlib.Data.List.Basic
import Qing.Net.Buffer

/-!
# A TCP socket over overlapped I/O

`TcpSocket` posts its reads and writes with `WSARecv` and `WSASend` and is told of
their completion through `onRead` and `onWrite`. A member function is given what the
system calls answer and returns the object after it, the calls it made of the outside,
and its return value (`Effect`).

The object keeps three records of type `IO_DATA`: the two it posts, and the `_ioData`
that `init` fills and `read` and `onRead` look at. Nothing sets a record or a buffer
before one of these functions does, so a socket is built from memory of any contents.
What the close handler does comes after everything `close` and its callers do, and is
no part of them.
-/

namespace Qing

/-- `SOCKET`, an unsigned handle. -/
abbrev Socket := UInt64

/-- The `-1` that `_socket` is compared with. -/
def invalidSocket : Socket := -1

inductive IoType
  | handleAccept
  | handleRead
  | handleWrite
  | handleComplete
  deriving DecidableEq, Repr

structure IoData where
  socket : Socket
  type : IoType
  bytes : UInt32
  deriving DecidableEq, Repr

structure WsaBuf where
  len : UInt32
  buf : Memory

structure TcpSocket where
  socket : Socket
  handle : Socket
  ioData : IoData
  readIoData : IoData
  writeIoData : IoData
  readBuffer : WsaBuf
  writeBuffer : WsaBuf
  readQueue : List (List UInt8)
  writeQueue : List (List UInt8)
  /-- Whether a close handler is registered. -/
  closeHandler : Bool

/-- The member functions that are declared or called and have no body: the accessors
of `_socket`, and `shutIOData`, which may do anything to the three records. -/
structure External where
  socket : TcpSocket → Socket
  setSocket : TcpSocket → Socket → TcpSocket
  shutIOData : TcpSocket → TcpSocket
  socket_eq : ∀ t, socket t = t.socket
  setSocket_eq : ∀ t h, setSocket t h = { t with socket := h }
  shutIOData_keeps : ∀ t, { shutIOData t with
    ioData := t.ioData, readIoData := t.readIoData, writeIoData := t.writeIoData } = t

/-- The accessors as their names say, with a `shutIOData` that marks `_ioData`. -/
def External.plain : External where
  socket t := t.socket
  setSocket t h := { t with socket := h }
  shutIOData t := { t with ioData := { t.ioData with type := .handleComplete } }
  socket_eq _ := rfl
  setSocket_eq _ _ := rfl
  shutIOData_keeps _ := rfl

/-- Memory that holds `key` where the key of `_readIoData` will be, and zeros. -/
def rawMemory (key : Socket) : TcpSocket :=
  { socket := 0, handle := 0
    ioData := ⟨0, .handleAccept, 0⟩
    readIoData := ⟨key, .handleAccept, 0⟩
    writeIoData := ⟨0, .handleAccept, 0⟩
    readBuffer := ⟨0, fun _ => 0⟩
    writeBuffer := ⟨0, fun _ => 0⟩
    readQueue := [], writeQueue := [], closeHandler := false }

/-- What `WSASend` or `WSARecv` answers: 0, with the bytes moved at once, or
`SOCKET_ERROR`, with the error that `WSAGetLastError` reports. -/
inductive WsaResult
  | done (bytes : UInt32)
  | error (lastError : UInt32)
  deriving DecidableEq, Repr

def errorSuccess : UInt32 := 0

/-- `WSA_IO_PENDING` and `ERROR_IO_PENDING`. -/
def ioPending : UInt32 := 997

/-- Whether the operation was started, so that a completion follows. -/
def WsaResult.posted : WsaResult → Bool
  | done _ => true
  | error lastError => lastError == ioPending

/-- The count a record is left with by a call that had set it to 0. -/
def WsaResult.bytes : WsaResult → UInt32
  | done bytes => bytes
  | error _ => 0

/-- A call of the outside made by a member function. -/
inductive Call
  | wsaSend (socket : Socket) (result : WsaResult)
  | wsaRecv (socket : Socket) (result : WsaResult)
  | closesocket (handle : Socket)
  | closeHandler
  deriving DecidableEq, Repr

structure Effect where
  self : TcpSocket
  calls : List Call := []
  ret : Option Bool := none

namespace TcpSocket

def init (t : TcpSocket) : TcpSocket :=
  { t with ioData := { socket := t.socket, type := .handleAccept, bytes := 0 } }

/-- A member as its initializers leave it; `raw` is the memory it is built in. -/
def initial (raw : TcpSocket) : TcpSocket :=
  { raw with socket := invalidSocket, readQueue := [], writeQueue := [], closeHandler := false }

/-- `TcpSocket()`, with the handle that `Util::getNewSocket` returned. -/
def new (raw : TcpSocket) (newSocket : Socket) : TcpSocket :=
  init { initial raw with socket := newSocket }

/-- `TcpSocket(poller)` -/
def ofPoller (raw : TcpSocket) : TcpSocket := initial raw

/-- `TcpSocket(poller, socket)` -/
def ofSocket (X : External) (raw : TcpSocket) (socket : Socket) : TcpSocket :=
  init (X.setSocket (initial raw) socket)

def valid (t : TcpSocket) : Bool := t.socket != invalidSocket

def close (X : External) (t : TcpSocket) : Effect :=
  if t.valid = false then { self := t }
  else
    let shut := if t.handle = invalidSocket then t else X.shutIOData t
    let closed := if t.handle = invalidSocket then [] else [Call.closesocket t.handle]
    let called := if t.closeHandler then [Call.closeHandler] else []
    { self := { shut with socket := invalidSocket }, calls := closed ++ called }

/-- The object as the call of `WSASend` leaves it. -/
def sending (data : Memory) (length : UInt32) (result : WsaResult) (t : TcpSocket) : TcpSocket :=
  { t with
    writeBuffer := { len := length, buf := data }
    writeIoData := { t.writeIoData with type := .handleWrite, bytes := result.bytes } }

/-- A `return;` of this function leaves its value undetermined. -/
def write (X : External) (data : Memory) (length : UInt32) (result : WsaResult)
    (t : TcpSocket) : Effect :=
  if t.valid = false then { self := t, ret := some false }
  else if length = 0 then { self := t, ret := some false }
  else
    let t' := t.sending data length result
    match result with
    | .done _ => { self := t', calls := [.wsaSend t.socket result] }
    | .error lastError =>
        if lastError ≠ ioPending then
          { self := (t'.close X).self
            calls := .wsaSend t.socket result :: (t'.close X).calls }
        else { self := t', calls := [.wsaSend t.socket result] }

/-- The object as the call of `WSARecv` leaves it. -/
def receiving (result : WsaResult) (t : TcpSocket) : TcpSocket :=
  { t with readIoData := { t.readIoData with type := .handleRead, bytes := result.bytes } }

def read (X : External) (result : WsaResult) (t : TcpSocket) : Effect :=
  if t.valid = false ∧ t.ioData.type = .handleComplete then { self := t, ret := some false }
  else
    let t' := t.receiving result
    match result with
    | .done _ => { self := t', calls := [.wsaRecv t.socket result], ret := some true }
    | .error lastError =>
        if lastError ≠ errorSuccess ∧ lastError ≠ ioPending then
          { self := (t'.close X).self
            calls := .wsaRecv t.socket result :: (t'.close X).calls
            ret := some false }
        else { self := t', calls := [.wsaRecv t.socket result], ret := some true }

def onWrite (t : TcpSocket) : Effect := { self := t }

def onRead (X : External) (t : TcpSocket) : Effect :=
  if t.ioData.bytes ≤ 0 then t.close X
  else { self := { t with
    writeQueue := t.writeQueue ++ [bytesAt t.readBuffer.buf t.ioData.bytes] } }

def registerCloseHandler (handler : Bool) (t : TcpSocket) : TcpSocket :=
  { t with closeHandler := handler }

/-- The objects the constructors make, and those given a handle after that. -/
inductive Constructed (X : External) : TcpSocket → Prop
  | new (raw : TcpSocket) (newSocket : Socket) : Constructed X (new raw newSocket)
  | ofPoller (raw : TcpSocket) : Constructed X (ofPoller raw)
  | ofSocket (raw : TcpSocket) (socket : Socket) : Constructed X (ofSocket X raw socket)
  | setSocket {t : TcpSocket} (h : Constructed X t) (socket : Socket) :
      Constructed X (X.setSocket t socket)

end TcpSocket

/-- A call of a member function, with what the system calls answer. -/
inductive SocketOp
  | init
  | write (data : Memory) (length : UInt32) (result : WsaResult)
  | read (result : WsaResult)
  | onWrite
  | onRead
  | close
  | registerCloseHandler (handler : Bool)

def TcpSocket.perform (X : External) (t : TcpSocket) : SocketOp → Effect
  | .init => { self := t.init }
  | .write data length result => t.write X data length result
  | .read result => t.read X result
  | .onWrite => t.onWrite
  | .onRead => t.onRead X
  | .close => t.close X
  | .registerCloseHandler handler => { self := t.registerCloseHandler handler }

/-! ## The two records that are posted -/

/-- The direction of an overlapped operation. -/
inductive Dir
  | read
  | write
  deriving DecidableEq, Repr

namespace Dir

/-- The type an operation is posted with. -/
def ioType : Dir → IoType
  | read => .handleRead
  | write => .handleWrite

end Dir

/-- The record an operation is posted with. -/
def TcpSocket.record (t : TcpSocket) : Dir → IoData
  | .read => t.readIoData
  | .write => t.writeIoData

/-- The operation a call has started. -/
def Call.posted? : Call → Option Dir
  | wsaSend _ result => if result.posted then some .write else none
  | wsaRecv _ result => if result.posted then some .read else none
  | closesocket _ | closeHandler => none

/-- What a completion of `countBytes` bytes leaves in the object: `data` in the read
buffer, put there by the system, and the count in the record, put there by `poll`. -/
def TcpSocket.complete (t : TcpSocket) (countBytes : UInt32) (data : Memory) : Dir → TcpSocket
  | .read => { t with
      readIoData := { t.readIoData with bytes := countBytes }
      readBuffer := { t.readBuffer with
        buf := memcpy t.readBuffer.buf (bytesAt data countBytes) countBytes.toNat } }
  | .write => { t with writeIoData := { t.writeIoData with bytes := countBytes } }

theorem TcpSocket.record_complete (t : TcpSocket) (countBytes : UInt32) (data : Memory)
    (d : Dir) :
    (t.complete countBytes data d).record d = { t.record d with bytes := countBytes } := by
  cases d <;> rfl

/-! ## What a member function does to an open socket -/

namespace External

variable (X : External) (t : TcpSocket)

@[simp] theorem shutIOData_readQueue : (X.shutIOData t).readQueue = t.readQueue := by
  have h := congrArg TcpSocket.readQueue (X.shutIOData_keeps t)
  exact h

@[simp] theorem shutIOData_writeQueue : (X.shutIOData t).writeQueue = t.writeQueue := by
  have h := congrArg TcpSocket.writeQueue (X.shutIOData_keeps t)
  exact h

@[simp] theorem shutIOData_writeBuffer : (X.shutIOData t).writeBuffer = t.writeBuffer := by
  have h := congrArg TcpSocket.writeBuffer (X.shutIOData_keeps t)
  exact h

end External

namespace TcpSocket

variable (X : External) (t : TcpSocket)

theorem close_valid : (t.close X).self.valid = false := by
  by_cases h : t.valid = false
  · rw [close, if_pos h]
    exact h
  · rw [close, if_neg h]
    rfl

theorem close_readQueue : (t.close X).self.readQueue = t.readQueue := by
  rw [close]
  split_ifs <;> simp

theorem close_writeQueue : (t.close X).self.writeQueue = t.writeQueue := by
  rw [close]
  split_ifs <;> simp

theorem close_writeBuffer : (t.close X).self.writeBuffer = t.writeBuffer := by
  rw [close]
  split_ifs <;> simp

theorem close_posted : (t.close X).calls.filterMap Call.posted? = [] := by
  rw [close]
  split_ifs <;> rfl

variable {X t}

theorem write_cases (X : External) (data : Memory) (length : UInt32) (result : WsaResult)
    (t : TcpSocket) :
    t.write X data length result = { self := t, ret := some false } ∨
    t.write X data length result =
      { self := t.sending data length result, calls := [.wsaSend t.socket result] } ∨
    t.write X data length result =
      { self := ((t.sending data length result).close X).self
        calls := .wsaSend t.socket result :: ((t.sending data length result).close X).calls } := by
  rw [write]
  split_ifs with hvalid hlength
  · exact Or.inl rfl
  · exact Or.inl rfl
  · cases result with
    | done bytes => exact Or.inr (Or.inl rfl)
    | error lastError =>
        by_cases herr : lastError ≠ ioPending
        · exact Or.inr (Or.inr (if_pos herr))
        · exact Or.inr (Or.inl (if_neg herr))

theorem read_cases (X : External) (result : WsaResult) (t : TcpSocket) :
    t.read X result = { self := t, ret := some false } ∨
    t.read X result =
      { self := t.receiving result, calls := [.wsaRecv t.socket result], ret := some true } ∨
    t.read X result =
      { self := ((t.receiving result).close X).self
        calls := .wsaRecv t.socket result :: ((t.receiving result).close X).calls
        ret := some false } := by
  rw [read]
  split_ifs with hguard
  · exact Or.inl rfl
  · cases result with
    | done bytes => exact Or.inr (Or.inl rfl)
    | error lastError =>
        by_cases herr : lastError ≠ errorSuccess ∧ lastError ≠ ioPending
        · exact Or.inr (Or.inr (if_pos herr))
        · exact Or.inr (Or.inl (if_neg herr))

theorem onRead_cases (X : External) (t : TcpSocket) :
    (t.ioData.bytes = 0 ∧ t.onRead X = t.close X) ∨
    (t.ioData.bytes ≠ 0 ∧ t.onRead X = { self := { t with
      writeQueue := t.writeQueue ++ [bytesAt t.readBuffer.buf t.ioData.bytes] } }) := by
  rw [onRead]
  split_ifs with h
  · exact Or.inl ⟨UInt32.le_antisymm h UInt32.zero_le, rfl⟩
  · exact Or.inr ⟨fun h0 => h (h0 ▸ UInt32.le_refl _), rfl⟩

theorem onRead_posted (X : External) (t : TcpSocket) :
    (t.onRead X).calls.filterMap Call.posted? = [] := by
  rcases onRead_cases X t with ⟨-, heq⟩ | ⟨-, heq⟩
  · rw [heq, close_posted]
  · rw [heq]
    rfl

theorem read_dir {result : WsaResult} {d : Dir}
    (h : d ∈ (t.read X result).calls.filterMap Call.posted?) : d = .read := by
  have hrecv : ∀ calls : List Call, calls.filterMap Call.posted? = [] →
      d ∈ (Call.wsaRecv t.socket result :: calls).filterMap Call.posted? → d = .read := by
    intro calls hcalls hd
    rw [List.filterMap_cons, hcalls, Call.posted?] at hd
    split_ifs at hd
    · exact List.mem_singleton.mp hd
    · cases hd
  rcases read_cases X result t with heq | heq | heq
  · rw [heq] at h
    cases h
  · rw [heq] at h
    exact hrecv [] rfl h
  · rw [heq] at h
    exact hrecv _ (close_posted X _) h

/-- A member function that leaves the socket open keeps the keys in the records, and
leaves in each record its old type or that of its direction, which it is for the
operations just started. -/
structure Kept (t : TcpSocket) (effect : Effect) : Prop where
  valid : t.valid = true
  socket : ∀ d, (effect.self.record d).socket = (t.record d).socket
  type : ∀ d, (effect.self.record d).type = (t.record d).type ∨
    (effect.self.record d).type = d.ioType
  posted : ∀ d ∈ effect.calls.filterMap Call.posted?, (effect.self.record d).type = d.ioType

theorem kept_of_records {effect : Effect} (hvalid : t.valid = true)
    (hrecord : ∀ d, effect.self.record d = t.record d) (hcalls : effect.calls = []) :
    Kept t effect := by
  refine ⟨hvalid, fun d => ?_, fun d => Or.inl ?_, fun d hd => ?_⟩
  · rw [hrecord]
  · rw [hrecord]
  · rw [hcalls] at hd
    cases hd

theorem kept_of_valid {op : SocketOp} (h : (t.perform X op).self.valid = true) :
    Kept t (t.perform X op) := by
  cases op with
  | init | onWrite | registerCloseHandler =>
      exact kept_of_records h (fun d => by cases d <;> rfl) rfl
  | close =>
      rw [perform, close_valid] at h
      cases h
  | onRead =>
      rcases onRead_cases X t with ⟨-, heq⟩ | ⟨-, heq⟩
      · rw [perform, heq, close_valid] at h
        cases h
      · rw [perform, heq] at h ⊢
        exact kept_of_records h (fun d => by cases d <;> rfl) rfl
  | write data length result =>
      rcases write_cases X data length result t with heq | heq | heq
      · rw [perform, heq] at h ⊢
        exact kept_of_records h (fun d => rfl) rfl
      · rw [perform, heq] at h ⊢
        refine ⟨h, fun d => by cases d <;> rfl, fun d => ?_, fun d hd => ?_⟩
        · cases d with
          | read => exact Or.inl rfl
          | write => exact Or.inr rfl
        · cases d with
          | read => simp [Call.posted?] at hd
          | write => rfl
      · rw [perform, heq, close_valid] at h
        cases h
  | read result =>
      rcases read_cases X result t with heq | heq | heq
      · rw [perform, heq] at h ⊢
        exact kept_of_records h (fun d => rfl) rfl
      · rw [perform, heq] at h ⊢
        refine ⟨h, fun d => by cases d <;> rfl, fun d => ?_, fun d hd => ?_⟩
        · cases d with
          | read => exact Or.inr rfl
          | write => exact Or.inl rfl
        · cases d with
          | read => rfl
          | write => simp [Call.posted?] at hd
      · rw [perform, heq, close_valid] at h
        cases h

end TcpSocket

end Qing
