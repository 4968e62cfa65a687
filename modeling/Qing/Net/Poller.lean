import Mathlib.Logic.Function.Basic
import Qing.Lib.Transition
import Qing.Net.TcpSocket

/-!
# The poller and the completion port

`Poller` keeps the table of registered sockets, `_socketPool`, and `poll` calls the
handler of the socket it finds there under the key in the completed record. An `Iocp`
is a poller with the sockets and the operations that the system has still to complete.
The system completes them in any order and with any counts. A handler called on a null
pointer has no defined meaning in the source, so nothing follows it.
-/

namespace Qing

/-- `_socketPool`: no entry, or one that holds a pointer. -/
abbrev SocketPool (Obj : Type*) := Socket → Option (Option Obj)

inductive Handler
  | onRead
  | onWrite
  deriving DecidableEq, Repr

variable {Obj : Type*}

/-- `operator[]` of the table, which enters a null pointer for a key that is not there. -/
def SocketPool.lookup (pool : SocketPool Obj) (key : Socket) : Option Obj × SocketPool Obj :=
  match pool key with
  | some p => (p, pool)
  | none => (none, Function.update pool key (some none))

/-- What a `poll` did: the key it looked up and the handler it called. -/
structure Dispatch (Obj : Type*) where
  pool : SocketPool Obj
  key : Option Socket := none
  called : Option (Option Obj × Handler) := none

namespace Poller

/-- `created` is what `CreateIoCompletionPort` answers. -/
def add (pool : SocketPool Obj) (baseSocket : Obj) (socket : Socket) (created : Bool) :
    SocketPool Obj × Bool :=
  let pool' := Function.update pool socket (some (some baseSocket))
  if created = false then (pool', false) else (pool', true)

def remove (pool : SocketPool Obj) (_baseSocket : Obj) : SocketPool Obj × Bool := (pool, true)

/-- The part of `poll` after a completion is dequeued; `ioData` is its record, with
the count stored. -/
def poll (pool : SocketPool Obj) (ioData : IoData) : Dispatch Obj :=
  if ioData.type = .handleComplete then { pool }
  else
    let r := pool.lookup ioData.socket
    match ioData.type with
    | .handleAccept | .handleRead =>
        { pool := r.2, key := some ioData.socket, called := some (r.1, .onRead) }
    | .handleWrite =>
        { pool := r.2, key := some ioData.socket, called := some (r.1, .onWrite) }
    | .handleComplete => { pool := r.2, key := some ioData.socket }

end Poller

/-- The handler that `poll` calls for a record of this type. -/
def IoType.handler? : IoType → Option Handler
  | handleAccept | handleRead => some .onRead
  | handleWrite => some .onWrite
  | handleComplete => none

def Dir.handler : Dir → Handler
  | read => .onRead
  | write => .onWrite

theorem Dir.handler?_ioType (d : Dir) : d.ioType.handler? = some d.handler := by
  cases d <;> rfl

theorem Poller.poll_spec (pool : SocketPool Obj) (ioData : IoData) :
    (ioData.type.handler? = none ∧ Poller.poll pool ioData = { pool }) ∨
      ∃ handler, ioData.type.handler? = some handler ∧
        Poller.poll pool ioData =
          { pool := (pool.lookup ioData.socket).2, key := some ioData.socket
            called := some ((pool.lookup ioData.socket).1, handler) } := by
  cases h : ioData.type with
  | handleAccept => exact Or.inr ⟨.onRead, rfl, by simp [poll, h]⟩
  | handleRead => exact Or.inr ⟨.onRead, rfl, by simp [poll, h]⟩
  | handleWrite => exact Or.inr ⟨.onWrite, rfl, by simp [poll, h]⟩
  | handleComplete => exact Or.inl ⟨rfl, by simp [poll, h]⟩

/-! ## The system -/

def Handler.op : Handler → SocketOp
  | onRead => .onRead
  | onWrite => .onWrite

structure Iocp (Obj : Type*) where
  sockets : Obj → TcpSocket
  pool : SocketPool Obj := fun _ => none
  /-- The operations posted and not yet dequeued. -/
  inflight : List (Obj × Dir) := []
  halted : Bool := false

inductive IocpAct (Obj : Type*)
  | add (o : Obj) (created : Bool)
  | remove (o : Obj)
  | call (o : Obj) (op : SocketOp)
  /-- `GetQueuedCompletionStatus` returns this operation, if any. -/
  | poll (completed : Option (Obj × Dir)) (countBytes : UInt32) (data : Memory)

inductive IocpEvent (Obj : Type*)
  | added (o : Obj) (key : Socket) (ok : Bool)
  | removed (o : Obj) (key : Socket)
  | called (o : Obj) (op : SocketOp) (calls : List Call) (ret : Option Bool)
  | timedOut
  /-- The completion of `d`, posted by `o`, was dequeued. -/
  | polled (o : Obj) (d : Dir) (countBytes : UInt32) (data : Memory) (key : Option Socket)
      (called : Option (Option Obj × Handler)) (calls : List Call)

namespace Iocp

variable [DecidableEq Obj]

def perform (s : Iocp Obj) (o : Obj) (effect : Effect) : Iocp Obj :=
  { s with
    sockets := Function.update s.sockets o effect.self
    inflight := s.inflight ++ (effect.calls.filterMap Call.posted?).map fun d => (o, d) }

/-- A completion leaves the port; the record and the read buffer are filled. -/
def dequeue (s : Iocp Obj) (o : Obj) (d : Dir) (countBytes : UInt32) (data : Memory) :
    Iocp Obj :=
  { s with
    sockets := Function.update s.sockets o ((s.sockets o).complete countBytes data d)
    inflight := s.inflight.erase (o, d) }

/-- The call that `poll` makes, with the calls made from it. -/
def dispatched (X : External) (s : Iocp Obj) :
    Option (Option Obj × Handler) → Iocp Obj × List Call
  | none => (s, [])
  | some (none, _) => ({ s with halted := true }, [])
  | some (some o, handler) =>
      let effect := (s.sockets o).perform X handler.op
      (s.perform o effect, effect.calls)

def next (X : External) (a : IocpAct Obj) (s : Iocp Obj) : Option (Iocp Obj × IocpEvent Obj) :=
  if s.halted then none
  else match a with
    | .add o created =>
        let key := X.socket (s.sockets o)
        let r := Poller.add s.pool o key created
        some ({ s with pool := r.1 }, .added o key r.2)
    | .remove o =>
        some ({ s with pool := (Poller.remove s.pool o).1 }, .removed o (X.socket (s.sockets o)))
    | .call o op =>
        let effect := (s.sockets o).perform X op
        some (s.perform o effect, .called o op effect.calls effect.ret)
    | .poll none _ _ => some (s, .timedOut)
    | .poll (some (o, d)) countBytes data =>
        if (o, d) ∈ s.inflight then
          let s₁ := s.dequeue o d countBytes data
          let dispatch := Poller.poll s₁.pool ((s₁.sockets o).record d)
          let r := dispatched X { s₁ with pool := dispatch.pool } dispatch.called
          some (r.1, .polled o d countBytes data dispatch.key dispatch.called r.2)
        else none

end Iocp

/-- The completion port with the sockets as their constructors left them, none of them
registered and nothing posted. -/
def iocpSystem (Obj : Type*) [DecidableEq Obj] (X : External) :
    System (Iocp Obj) (IocpEvent Obj) :=
  System.ofNext
    (fun s => ∃ sockets, (∀ o, TcpSocket.Constructed X (sockets o)) ∧ s = { sockets })
    (Iocp.next X)

namespace Iocp

variable [DecidableEq Obj] {X : External} {s s' : Iocp Obj} {e : IocpEvent Obj}

/-- What `poll` does with the completion of `d` posted by `o`. -/
def dispatch (s : Iocp Obj) (o : Obj) (d : Dir) : Dispatch Obj :=
  Poller.poll s.pool ((s.sockets o).record d)

theorem step_cases (h : (iocpSystem Obj X).step s e s') :
    (∃ o ok, e = .added o (s.sockets o).socket ok ∧
      s' = { s with pool := Function.update s.pool (s.sockets o).socket (some (some o)) }) ∨
    (∃ o key, e = .removed o key ∧ s' = s) ∨
    (∃ o op, e = .called o op ((s.sockets o).perform X op).calls ((s.sockets o).perform X op).ret ∧
      s' = s.perform o ((s.sockets o).perform X op)) ∨
    (e = .timedOut ∧ s' = s) ∨
    ∃ o d countBytes data s₁, (o, d) ∈ s.inflight ∧ s₁ = s.dequeue o d countBytes data ∧
      e = .polled o d countBytes data (s₁.dispatch o d).key (s₁.dispatch o d).called
        (dispatched X { s₁ with pool := (s₁.dispatch o d).pool } (s₁.dispatch o d).called).2 ∧
      s' = (dispatched X { s₁ with pool := (s₁.dispatch o d).pool }
        (s₁.dispatch o d).called).1 := by
  obtain ⟨a, hnext⟩ := h
  rw [next.eq_def] at hnext
  split_ifs at hnext
  cases a with
  | add o created =>
      obtain ⟨rfl, rfl⟩ := Prod.mk.inj (Option.some.inj hnext)
      refine Or.inl ⟨o, created, ?_⟩
      cases created <;> simp [Poller.add, X.socket_eq]
  | remove o =>
      obtain ⟨rfl, rfl⟩ := Prod.mk.inj (Option.some.inj hnext)
      exact Or.inr (Or.inl ⟨o, _, rfl, rfl⟩)
  | call o op =>
      obtain ⟨rfl, rfl⟩ := Prod.mk.inj (Option.some.inj hnext)
      exact Or.inr (Or.inr (Or.inl ⟨o, op, rfl, rfl⟩))
  | poll completed countBytes data =>
      refine Or.inr (Or.inr (Or.inr ?_))
      cases completed with
      | none =>
          obtain ⟨rfl, rfl⟩ := Prod.mk.inj (Option.some.inj hnext)
          exact Or.inl ⟨rfl, rfl⟩
      | some op =>
          obtain ⟨o, d⟩ := op
          simp only at hnext
          split_ifs at hnext with hmem
          obtain ⟨rfl, rfl⟩ := Prod.mk.inj (Option.some.inj hnext)
          exact Or.inr ⟨o, d, countBytes, data, _, hmem, rfl, rfl, rfl⟩

end Iocp

end Qing
