import Mathlib.Data.List.Basic
import Mathlib.Logic.Function.Basic
import Qing.Lib.Custody
import Qing.Lib.Transition
import Qing.Net.TcpListener

/-!
# Where the handles are

The handles that the system has given out, with everything that can hold one: the
listeners and the sockets that exist, in `_socket`, and the caller, who has what was
returned to it. A step is a call of `getNewSocket`, of `listen` or `accept`, or the
construction, the closing or the destruction of a socket. The system answers what it
likes, except that it makes no handle that is open. After a step in which the program has
ended there is none.
-/

namespace Qing

variable {Obj : Type*}

/-! ## The system's table -/

/-- The open handles after these calls, if the system can answer them so. -/
def openAfter : (Socket → Bool) → List SysCall → Option (Socket → Bool)
  | isOpen, [] => some isOpen
  | isOpen, .closesocket h :: calls => openAfter (Function.update isOpen h false) calls
  | isOpen, c :: calls =>
      match c.created? with
      | none => openAfter isOpen calls
      | some h =>
          if isOpen h = true then none else openAfter (Function.update isOpen h true) calls

theorem openAfter_spec {calls : List SysCall} {isOpen isOpen' : Socket → Bool}
    (h : openAfter isOpen calls = some isOpen') (hcalls : ∀ k, .closesocket k ∉ calls) :
    (created calls).Nodup ∧ (∀ k ∈ created calls, isOpen k = false) ∧
      ∀ k, isOpen' k = true ↔ isOpen k = true ∨ k ∈ created calls := by
  induction calls generalizing isOpen with
  | nil =>
      obtain rfl := Option.some.inj h
      exact ⟨List.nodup_nil, fun _ hk => absurd hk List.not_mem_nil,
        fun k => (or_iff_left List.not_mem_nil).symm⟩
  | cons c calls ih =>
      have hrest : ∀ k, .closesocket k ∉ calls := fun k hk => hcalls k (List.mem_cons_of_mem c hk)
      have hc : ∀ k, c ≠ .closesocket k := by
        rintro k rfl
        exact hcalls k List.mem_cons_self
      rw [openAfter.eq_3 _ _ _ hc] at h
      cases hmade : c.created? with
      | none =>
          rw [hmade] at h
          rw [created, List.filterMap_cons, hmade]
          exact ih h hrest
      | some j =>
          rw [hmade] at h
          dsimp only at h
          split_ifs at h with hopen
          obtain ⟨hnodup, hfresh, hafter⟩ := ih h hrest
          have hne : ∀ k ∈ created calls, k ≠ j := by
            rintro k hk rfl
            have hk' := hfresh k hk
            rw [Function.update_self] at hk'
            cases hk'
          rw [created, List.filterMap_cons, hmade, ← created]
          refine ⟨List.nodup_cons.mpr ⟨fun hj => hne j hj rfl, hnodup⟩, ?_, fun k => ?_⟩
          · intro k hk
            rcases List.mem_cons.mp hk with rfl | hk
            · exact Bool.eq_false_iff.mpr hopen
            · have hk' := hfresh k hk
              rwa [Function.update_of_ne (hne k hk)] at hk'
          · rw [hafter, List.mem_cons, Function.update_apply]
            split_ifs with hk
            · exact iff_of_true (Or.inl rfl) (Or.inr (Or.inl hk))
            · exact or_congr_right (or_iff_right hk).symm

/-! ## Who holds a handle -/

structure Handles (Obj : Type*) where
  isOpen : Socket → Bool := fun _ => false
  listeners : Obj → TcpListener
  /-- The sockets that exist. -/
  sockets : Obj → Option TcpSocket := fun _ => none
  /-- What the caller was returned and has not passed on. -/
  returned : List Socket := []
  /-- The program has ended in a call. -/
  halted : Bool := false

inductive Holder (Obj : Type*)
  | caller
  | listener (o : Obj)
  | socket (o : Obj)
  deriving DecidableEq

def Handles.Holds (s : Handles Obj) (h : Socket) : Holder Obj → Prop
  | .caller => h ∈ s.returned
  | .listener o => (s.listeners o).socket = h
  | .socket o => (s.sockets o).map TcpSocket.socket = some h

/-! ## The steps -/

inductive HandleAct (Obj : Type*)
  | getNewSocket (new : NewSocket)
  | listen (o : Obj) (r : TcpListener.Listening) (new : NewSocket) (result : Option WsaResult)
  | accept (o : Obj) (new : NewSocket) (result : Option WsaResult)
  /-- `TcpSocket()` -/
  | construct (o : Obj) (raw : TcpSocket) (new : NewSocket)
  /-- `TcpSocket(poller)` -/
  | constructIdle (o : Obj) (raw : TcpSocket)
  /-- `TcpSocket(poller, socket)`, with a handle that the caller passes on. -/
  | constructWith (o : Obj) (raw : TcpSocket) (h : Socket)
  | close (o : Obj)
  | destroy (o : Obj)

/-- What is seen of a call: the system calls made in it and how it came out. -/
structure Conduct where
  calls : List SysCall := []
  /-- Whether the function left through an exit that reports failure. -/
  failed : Bool := false
  /-- Whether it has written over memory that is not its own. -/
  overran : Bool := false

structure HandleEvent (Obj : Type*) extends Conduct where
  act : HandleAct Obj

/-- The system call in a call of the outside. -/
def Call.sysCall? : Call → Option SysCall
  | closesocket handle => some (.closesocket handle)
  | _ => none

theorem TcpSocket.sysCalls_close (X : External) {t : TcpSocket} (h : t.valid = true) :
    (t.close X).calls.filterMap Call.sysCall? =
      if t.handle = invalidSocket then [] else [.closesocket t.handle] := by
  rw [close, h]
  by_cases hhandle : t.handle = invalidSocket
  · cases hhandler : t.closeHandler <;> simp [hhandle, Call.sysCall?]
  · cases hhandler : t.closeHandler <;> simp [hhandle, Call.sysCall?]

theorem TcpSocket.socket_close (X : External) {t : TcpSocket} (h : t.valid = true) :
    (t.close X).self.socket = invalidSocket := by
  rw [close, h]
  rfl

theorem TcpSocket.valid_eq_false_iff {t : TcpSocket} :
    t.valid = false ↔ t.socket = invalidSocket := by
  rw [valid, bne_eq_false_iff_eq]

namespace Handles

variable [DecidableEq Obj]

def setListener (s : Handles Obj) (o : Obj) (l : TcpListener) : Handles Obj :=
  { s with listeners := Function.update s.listeners o l }

def setSocket (s : Handles Obj) (o : Obj) (t : Option TcpSocket) : Handles Obj :=
  { s with sockets := Function.update s.sockets o t }

/-- The caller is given `h`, unless it is `-1`. -/
def give (s : Handles Obj) (h : Socket) : Handles Obj :=
  if h = invalidSocket then s else { s with returned := h :: s.returned }

/-- The caller passes `h` on. -/
def passOn (s : Handles Obj) (h : Socket) : Handles Obj :=
  { s with returned := s.returned.filter (· ≠ h) }

/-- What the code does; `failed` is told from the exit and not from the value, since the
handle that `accept` returns is 0 and so is its `return false`. -/
def perform (X : External) (s : Handles Obj) : HandleAct Obj → Option (Handles Obj × Conduct)
  | .getNewSocket new =>
      let r := Util.getNewSocket new
      some (s.give r.1, { calls := r.2, failed := r.1 = invalidSocket })
  | .listen o r new result =>
      let e := (s.listeners o).listen r new result
      some ({ s.setListener o e.self with halted := e.ret.isNone },
        { calls := e.calls, failed := e.ret = some false, overran := e.overran })
  | .accept o new result =>
      let e := (s.listeners o).accept new result
      let s' := { s.setListener o e.self with halted := e.ret.isNone }
      if new.Succeeds ∧ e.ret ≠ some invalidSocket then
        some (s'.give (e.ret.getD invalidSocket), { calls := e.calls, overran := e.overran })
      else some (s', { calls := e.calls, failed := true, overran := e.overran })
  | .construct o raw new =>
      let r := Util.getNewSocket new
      if (s.sockets o).isNone then
        some (s.setSocket o (some (.new raw r.1)),
          { calls := r.2, failed := r.1 = invalidSocket })
      else none
  | .constructIdle o raw =>
      if (s.sockets o).isNone then some (s.setSocket o (some (.ofPoller raw)), {}) else none
  | .constructWith o raw h =>
      if (s.sockets o).isNone then
        some ((s.passOn h).setSocket o (some (.ofSocket X raw h)), {})
      else none
  | .close o => (s.sockets o).map fun t =>
      (s.setSocket o (some (t.close X).self),
        { calls := (t.close X).calls.filterMap Call.sysCall? })
  | .destroy o => (s.sockets o).map fun _ => (s.setSocket o none, {})

def next (X : External) (a : HandleAct Obj) (s : Handles Obj) :
    Option (Handles Obj × HandleEvent Obj) :=
  if s.halted then none
  else (s.perform X a).bind fun r =>
    (openAfter s.isOpen r.2.calls).map fun isOpen => ({ r.1 with isOpen }, { r.2 with act := a })

end Handles

/-- No handle is open, no socket exists and no listener has listened. -/
def handleSystem (Obj : Type*) [DecidableEq Obj] (X : External) :
    System (Handles Obj) (HandleEvent Obj) :=
  System.ofNext
    (fun s => ∃ listeners, (∀ o, (listeners o).socket = invalidSocket) ∧ s = { listeners })
    (Handles.next X)

/-! ## What is claimed of a state and of a step -/

/-- A function that reports failure has closed the handles it had opened; and it has not
written over memory that is not its own. -/
def Conduct.Clean (e : Conduct) : Prop :=
  e.overran = false ∧ (e.failed = true → ∀ h ∈ created e.calls, .closesocket h ∈ e.calls)

namespace Handles

/-- Every open handle is held, by one listener or socket or by the caller. -/
def Conserved (s : Handles Obj) : Prop :=
  ∀ h, h ≠ invalidSocket → s.isOpen h = true → ∃! i, s.Holds h i

/-- Every handle is in custody: those that are open are held once and the others are not. -/
def Kept (s : Handles Obj) : Prop :=
  ∀ h, h ≠ invalidSocket → InCustody (s.isOpen h = true) (s.Holds h)

/-- The answers of the system, and the objects, with which a step loses no handle. -/
def Meets (s : Handles Obj) : HandleAct Obj → Prop
  | .getNewSocket new | .construct _ _ new => new.socket = invalidSocket ∨ new.Succeeds
  | .listen o r new _ =>
      (s.listeners o).socket = invalidSocket ∧ r.socket = invalidSocket ∧
        (r.Accepts → new.socket = invalidSocket)
  | .accept _ new _ => new.socket = invalidSocket
  | .constructIdle _ _ => True
  | .constructWith _ _ h => h = invalidSocket ∨ h ∈ s.returned
  | .close o => ∀ t, s.sockets o = some t → t.valid = false ∨ t.handle = t.socket
  | .destroy o => ∀ t, s.sockets o = some t → t.valid = false

/-! ## The holders after a change -/

variable {s s' : Handles Obj} {h k : Socket} {o : Obj} {i j : Holder Obj}

@[simp] theorem holds_with_isOpen (isOpen : Socket → Bool) :
    { s with isOpen }.Holds k i ↔ s.Holds k i := by
  cases i <;> exact Iff.rfl

@[simp] theorem holds_with_halted (halted : Bool) :
    { s with halted }.Holds k i ↔ s.Holds k i := by
  cases i <;> exact Iff.rfl

theorem holds_give : (s.give h).Holds k i ↔
    s.Holds k i ∨ h ≠ invalidSocket ∧ i = .caller ∧ k = h := by
  rw [give]
  split_ifs with hh
  · exact (or_iff_left fun hr => hr.1 hh).symm
  · cases i with
    | caller =>
        rw [Holds, List.mem_cons]
        exact or_comm.trans (or_congr_right ⟨fun hk => ⟨hh, rfl, hk⟩, fun hr => hr.2.2⟩)
    | listener o => simp [Holds]
    | socket o => simp [Holds]

theorem holds_passOn :
    (s.passOn h).Holds k i ↔ s.Holds k i ∧ ¬(i = .caller ∧ k = h) := by
  cases i with
  | caller => simp [Holds, passOn]
  | listener o => simp [Holds, passOn]
  | socket o => simp [Holds, passOn]

theorem holds_socket_iff {t : TcpSocket} (ht : s.sockets o = some t) :
    s.Holds k (.socket o) ↔ k = t.socket := by
  rw [Holds, ht, Option.map_some, Option.some_inj, eq_comm]

theorem not_holds_of_isNone (hnone : (s.sockets o).isNone = true) : ¬s.Holds k (.socket o) := by
  rw [Holds, Option.isNone_iff_eq_none.mp hnone]
  exact Option.some_ne_none k ∘ Eq.symm

variable [DecidableEq Obj]

theorem holds_setListener {l : TcpListener} : (s.setListener o l).Holds k i ↔
    i ≠ .listener o ∧ s.Holds k i ∨ i = .listener o ∧ l.socket = k := by
  cases i with
  | caller => simp [Holds, setListener]
  | socket o' => simp [Holds, setListener]
  | listener o' =>
      simp only [Holds, setListener, Function.update_apply, ne_eq, Holder.listener.injEq]
      split_ifs with ho <;> simp [ho]

theorem holds_setSocket {t : Option TcpSocket} : (s.setSocket o t).Holds k i ↔
    i ≠ .socket o ∧ s.Holds k i ∨ i = .socket o ∧ t.map TcpSocket.socket = some k := by
  cases i with
  | caller => simp [Holds, setSocket]
  | listener o' => simp [Holds, setSocket]
  | socket o' =>
      simp only [Holds, setSocket, Function.update_apply, ne_eq, Holder.socket.injEq]
      split_ifs with ho <;> simp [ho]

theorem holds_fill {t : TcpSocket} (hnone : (s.sockets o).isNone = true) :
    (s.setSocket o (some t)).Holds k i ↔ s.Holds k i ∨ i = .socket o ∧ t.socket = k := by
  rw [holds_setSocket]
  by_cases hi : i = .socket o
  · have hnot : ¬s.Holds k i := by
      rw [hi]
      exact not_holds_of_isNone hnone
    rw [or_iff_right fun h => h.1 hi, or_iff_right hnot]
    exact and_congr_right fun _ => Option.some_inj
  · exact or_congr (and_iff_right hi)
      (iff_of_false (fun h => hi h.1) fun h => hi h.1)

end Handles

end Qing
