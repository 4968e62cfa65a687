import Mathlib.Data.List.Basic
import Mathlib.Logic.Function.Basic
import Qing.Lib.Transition
import Qing.Net.Poller

/-!
# The poller over epoll and over kqueue

`add`, `modify`, `remove` and `poll` in these versions, over the table that the kernel
keeps for each. epoll has a mask for a handle, disarmed when the entry is reported if it
is `EPOLLONESHOT`; kqueue has a registration for a handle and a filter. A run is one in
which the calls of the kernel succeed: `epoll_ctl` and `kevent` with a change return no -1,
and a wait returns a number of events. (The value of the poller's own function is not looked
at: `remove` returns `true` when the call it makes has failed.) What a handler called from
`poll` does are later calls.
-/

namespace Qing

/-! ## Masks -/

def eventRead : UInt32 := 2
def eventWrite : UInt32 := 4
def eventError : UInt32 := 16

/-- The conditions that are waited for. -/
structure Interest where
  readable : Bool
  writable : Bool
  deriving DecidableEq, Repr

def Interest.idle : Interest := ⟨false, false⟩

def wanted (e : UInt32) : Interest := ⟨e &&& eventRead != 0, e &&& eventWrite != 0⟩

/-! ## Calls -/

/-- A call that succeeded, of the poller of either backend; for a `poll`, the sockets that
were reported with the handlers called. -/
inductive PollerCall
  | add (s : Socket) (e : UInt32)
  | modify (s : Socket) (e : UInt32)
  | remove (s : Socket) (e : UInt32)
  | poll (called : List (Socket × List Handler))

/-! ## epoll -/

def epollIn : UInt32 := 1
def epollOut : UInt32 := 4
def epollErr : UInt32 := 8
def epollHup : UInt32 := 16
def epollOneshot : UInt32 := 1073741824

/-- The entries of the kernel: the events of the handles that are registered. -/
abbrev Epoll := Socket → Option UInt32

inductive CtlOp
  | add
  | mod
  | del
  deriving DecidableEq, Repr

inductive EpollAct
  | add (s : Socket) (e : UInt32)
  | modify (s : Socket) (e : UInt32)
  | remove (s : Socket) (e : UInt32)
  /-- `epoll_wait` returns these handles with the events that have occurred. -/
  | poll (events : List (Socket × UInt32))

namespace Epoll

/-- `epoll_ctl`, which fails for a handle that is there already or that is not. -/
def ctl (k : Epoll) (op : CtlOp) (fd : Socket) (events : UInt32) : Option Epoll :=
  match op with
  | .add => if (k fd).isNone then some (Function.update k fd (some events)) else none
  | .mod => if (k fd).isSome then some (Function.update k fd (some events)) else none
  | .del => if (k fd).isSome then some (Function.update k fd none) else none

/-- What reporting leaves of an entry: of one with `EPOLLONESHOT`, nothing but that. -/
def disarm (events : UInt32) : UInt32 :=
  if events &&& epollOneshot ≠ 0 then epollOneshot else events

/-- Whether `epoll_wait` may return these events for a handle. -/
def reports (k : Epoll) (r : Socket × UInt32) : Bool :=
  match k r.1 with
  | none => false
  | some events => r.2 &&& (events ||| epollErr ||| epollHup) == r.2 && r.2 != 0

def report (k : Epoll) (s : Socket) : Epoll :=
  Function.update k s ((k s).map disarm)

def convertEventMask (e : UInt32) : UInt32 :=
  let op : UInt32 := 0
  let op := if e &&& eventRead != 0 then op ||| (epollIn ||| epollOneshot) else op
  let op := if e &&& eventWrite != 0 then op ||| (epollOut ||| epollOneshot) else op
  if e &&& eventError != 0 then op ||| epollErr else op

def add (k : Epoll) (s : Socket) (_e : UInt32) : Option Epoll :=
  k.ctl .add s (convertEventMask eventRead)

def modify (k : Epoll) (s : Socket) (e : UInt32) : Option Epoll :=
  k.ctl .mod s (convertEventMask e)

def remove (k : Epoll) (s : Socket) (_e : UInt32) : Option Epoll := k.ctl .del s 0

/-- The handlers that `poll` calls for an entry. -/
def handlers (events : UInt32) : List Handler :=
  if events &&& epollIn ≠ 0 then [.onRead]
  else if events &&& epollOut ≠ 0 then [.onWrite]
  else []

def poll (k : Epoll) (events : List (Socket × UInt32)) : Epoll × PollerCall :=
  ((events.map Prod.fst).foldl report k, .poll (events.map fun r => (r.1, handlers r.2)))

def next : EpollAct → Epoll → Option (Epoll × PollerCall)
  | .add s e, k => (k.add s e).map fun k' => (k', .add s e)
  | .modify s e, k => (k.modify s e).map fun k' => (k', .modify s e)
  | .remove s e, k => (k.remove s e).map fun k' => (k', .remove s e)
  | .poll events, k => if events.all k.reports then some (k.poll events) else none

/-- The conditions that an entry with these events waits for. -/
def waits (events : UInt32) : Interest := ⟨events &&& epollIn != 0, events &&& epollOut != 0⟩

def armed (k : Epoll) (s : Socket) : Interest := ((k s).map waits).getD .idle

end Epoll

def epollSystem : System Epoll PollerCall :=
  System.ofNext (fun k => k = fun _ => none) Epoll.next

/-! ## kqueue -/

def evfiltRead : Int16 := -1
def evfiltWrite : Int16 := -2

/-- The registrations of the kernel. -/
abbrev Kqueue := Socket → Int16 → Bool

/-- The flags that are passed, `EV_ADD | EV_ENABLE` and `EV_DELETE | EV_DISABLE`. -/
inductive KeventFlags
  | addEnable
  | deleteDisable
  deriving DecidableEq, Repr

/-- An event as `kevent` returns it. -/
structure Kevent where
  ident : Socket
  filter : Int16
  /-- Whether `EV_EOF` or `EV_ERROR` is set. -/
  eofOrError : Bool

inductive KqueueAct
  | add (s : Socket) (e : UInt32)
  | modify (s : Socket) (e : UInt32)
  | remove (s : Socket) (e : UInt32)
  | poll (events : List Kevent)

namespace Kqueue

def set (k : Kqueue) (ident : Socket) (filter : Int16) (registered : Bool) : Kqueue :=
  Function.update k ident (Function.update (k ident) filter registered)

/-- `kevent` with one change, which fails for a filter that does not exist and for the
deletion of a registration that is not there. -/
def change (k : Kqueue) (ident : Socket) (filter : Int16) (flags : KeventFlags) :
    Option Kqueue :=
  match flags with
  | .addEnable =>
      if filter = evfiltRead ∨ filter = evfiltWrite then some (k.set ident filter true) else none
  | .deleteDisable =>
      if k ident filter = true then some (k.set ident filter false) else none

def convertEventMask (e : UInt32) : UInt16 :=
  let op : UInt16 := 0
  let op := if e &&& eventRead != 0 then op ||| evfiltRead.toUInt16 else op
  if e &&& eventWrite != 0 then op ||| evfiltWrite.toUInt16 else op

/-- The filter of a change, into which `EV_SET` stores what it is given. -/
def filterOf (e : UInt32) : Int16 := (convertEventMask e).toInt16

def add (k : Kqueue) (s : Socket) (_e : UInt32) : Option Kqueue :=
  k.change s evfiltRead .addEnable

/-- `known` tells the sockets for which `SocketMgr` has a handler. -/
def modify (known : Socket → Bool) (k : Kqueue) (s : Socket) (e : UInt32) : Option Kqueue :=
  if known s = false then none else k.change s (filterOf e) .addEnable

def remove (k : Kqueue) (s : Socket) (e : UInt32) : Option Kqueue :=
  k.change s (filterOf e) .deleteDisable

/-- The handlers that `poll` calls for an event. -/
def handlers (event : Kevent) : List Handler :=
  (if event.eofOrError then [.onRead] else []) ++
    if event.filter = evfiltRead then [.onRead]
    else if event.filter = evfiltWrite then [.onWrite]
    else []

def poll (k : Kqueue) (events : List Kevent) : Kqueue × PollerCall :=
  (k, .poll (events.map fun event => (event.ident, handlers event)))

def next (known : Socket → Bool) : KqueueAct → Kqueue → Option (Kqueue × PollerCall)
  | .add s e, k => (k.add s e).map fun k' => (k', .add s e)
  | .modify s e, k => (k.modify known s e).map fun k' => (k', .modify s e)
  | .remove s e, k => (k.remove s e).map fun k' => (k', .remove s e)
  | .poll events, k =>
      if events.all fun event => k event.ident event.filter then some (k.poll events) else none

def armed (k : Kqueue) (s : Socket) : Interest := ⟨k s evfiltRead, k s evfiltWrite⟩

end Kqueue

def kqueueSystem (known : Socket → Bool) : System Kqueue PollerCall :=
  System.ofNext (fun k => k = fun _ _ => false) (Kqueue.next known)

end Qing
