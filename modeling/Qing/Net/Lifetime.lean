import Qing.Lib.Transition
import Qing.Net.TcpSocket

/-!
# From open to closed

What a socket goes through when its member functions are called in any order, the
close handler calling some of them as well. `valid()` falls once and the close handler
is called just then (`notified_once`). What is not so well guarded is the closed
socket: `read` is refused only if the socket is closed and `_ioData` is marked
`HANDLE_COMPLETE`, where either should be enough (`refused_iff`).
-/

namespace Qing

/-- A call of a member function: the socket before it, and what it did. -/
structure Performed where
  op : SocketOp
  before : TcpSocket
  effect : Effect

/-- Calls of member functions one after the other; `handler` is what the close handler
calls if the call before it ends in the handler. -/
inductive Script
  | done
  | call (op : SocketOp) (handler : Script) (rest : Script)

inductive SocketEvent
  | performed (p : Performed)
  /-- The close handler starts on this socket. -/
  | handler (t : TcpSocket)

namespace Script

/-- The script run on a socket: what happened, in order, and the socket after it. -/
def exec (X : External) : Script → TcpSocket → List SocketEvent × TcpSocket
  | done, t => ([], t)
  | call op handler rest, t =>
      let effect := t.perform X op
      let inner := handler.exec X effect.self
      let called := if .closeHandler ∈ effect.calls
        then (SocketEvent.handler effect.self :: inner.1, inner.2) else ([], effect.self)
      let outer := rest.exec X called.2
      (.performed ⟨op, t, effect⟩ :: (called.1 ++ outer.1), outer.2)

/-- No call of the script registers a handler. -/
def Keeps : Script → Prop
  | done => True
  | call op handler rest => (∀ b, op ≠ .registerCloseHandler b) ∧ handler.Keeps ∧ rest.Keeps

end Script

namespace SocketEvent

def calls : SocketEvent → List Call
  | performed p => p.effect.calls
  | handler _ => []

def Closes : SocketEvent → Prop
  | performed p => p.before.valid = true ∧ p.effect.self.valid = false
  | handler _ => False

end SocketEvent

/-! ## What one call does -/

namespace TcpSocket

variable {X : External} {t : TcpSocket}

theorem close_of_invalid (h : t.valid = false) : t.close X = { self := t } := by
  rw [close, if_pos h]

theorem count_closeHandler_close (h : t.valid = true) :
    (t.close X).calls.count .closeHandler = if t.closeHandler then 1 else 0 := by
  rw [close, h, if_neg (Bool.noConfusion : true ≠ false)]
  split_ifs <;> rfl

theorem perform_of_invalid (h : t.valid = false) (op : SocketOp) :
    (t.perform X op).self.valid = false ∧ .closeHandler ∉ (t.perform X op).calls := by
  cases op with
  | init | onWrite | registerCloseHandler => exact ⟨h, List.not_mem_nil⟩
  | close =>
      rw [perform, close_of_invalid h]
      exact ⟨h, List.not_mem_nil⟩
  | onRead =>
      rcases onRead_cases X t with ⟨-, heq⟩ | ⟨-, heq⟩
      · rw [perform, heq, close_of_invalid h]
        exact ⟨h, List.not_mem_nil⟩
      · rw [perform, heq]
        exact ⟨h, List.not_mem_nil⟩
  | write data length result =>
      rw [perform, write, if_pos h]
      exact ⟨h, List.not_mem_nil⟩
  | read result =>
      have hclosed : (t.receiving result).valid = false := h
      rcases read_cases X result t with heq | heq | heq
      · rw [perform, heq]
        exact ⟨h, List.not_mem_nil⟩
      · rw [perform, heq]
        exact ⟨h, by simp⟩
      · rw [perform, heq, close_of_invalid hclosed]
        exact ⟨h, by simp⟩

theorem perform_of_valid (h : t.valid = true) {op : SocketOp}
    (hop : ∀ b, op ≠ .registerCloseHandler b) :
    ((t.perform X op).self.valid = true ∧ (t.perform X op).self.closeHandler = t.closeHandler ∧
        (t.perform X op).calls.count .closeHandler = 0) ∨
      ((t.perform X op).self.valid = false ∧
        (t.perform X op).calls.count .closeHandler = if t.closeHandler then 1 else 0) := by
  cases op with
  | init | onWrite => exact Or.inl ⟨h, rfl, rfl⟩
  | registerCloseHandler b => exact absurd rfl (hop b)
  | close => exact Or.inr ⟨close_valid X t, count_closeHandler_close h⟩
  | onRead =>
      rcases onRead_cases X t with ⟨-, heq⟩ | ⟨-, heq⟩
      · rw [perform, heq]
        exact Or.inr ⟨close_valid X t, count_closeHandler_close h⟩
      · rw [perform, heq]
        exact Or.inl ⟨h, rfl, rfl⟩
  | write data length result =>
      have hopen : (t.sending data length result).valid = true := h
      rcases write_cases X data length result t with heq | heq | heq
      · rw [perform, heq]
        exact Or.inl ⟨h, rfl, rfl⟩
      · rw [perform, heq]
        exact Or.inl ⟨h, rfl, rfl⟩
      · rw [perform, heq, List.count_cons_of_ne (by simp)]
        exact Or.inr ⟨close_valid X _, count_closeHandler_close hopen⟩
  | read result =>
      have hopen : (t.receiving result).valid = true := h
      rcases read_cases X result t with heq | heq | heq
      · rw [perform, heq]
        exact Or.inl ⟨h, rfl, rfl⟩
      · rw [perform, heq]
        exact Or.inl ⟨h, rfl, rfl⟩
      · rw [perform, heq, List.count_cons_of_ne (by simp)]
        exact Or.inr ⟨close_valid X _, count_closeHandler_close hopen⟩

end TcpSocket

/-! ## The close handler -/

/-- An event of a socket that is closed: a call that leaves it so and does not call
the handler. -/
def SocketEvent.Dead : SocketEvent → Prop
  | performed p => p.before.valid = false ∧ p.effect.self.valid = false ∧
      .closeHandler ∉ p.effect.calls
  | handler _ => False

/-- An event of a socket that stays open. -/
def SocketEvent.Open : SocketEvent → Prop
  | performed p => p.before.valid = true ∧ p.effect.self.valid = true ∧
      .closeHandler ∉ p.effect.calls
  | handler _ => False

section Exec

variable {X : External}

theorem exec_call_of_mem {op : SocketOp} {handler rest : Script} {t : TcpSocket}
    (h : .closeHandler ∈ (t.perform X op).calls) :
    (Script.call op handler rest).exec X t =
      let inner := handler.exec X (t.perform X op).self
      let outer := rest.exec X inner.2
      (.performed ⟨op, t, t.perform X op⟩ ::
        (.handler (t.perform X op).self :: inner.1 ++ outer.1), outer.2) := by
  rw [Script.exec, if_pos h]

theorem exec_call_of_not_mem {op : SocketOp} {handler rest : Script} {t : TcpSocket}
    (h : .closeHandler ∉ (t.perform X op).calls) :
    (Script.call op handler rest).exec X t =
      let outer := rest.exec X (t.perform X op).self
      (.performed ⟨op, t, t.perform X op⟩ :: outer.1, outer.2) := by
  rw [Script.exec, if_neg h, List.nil_append]

theorem dead_of_exec (script : Script) {t : TcpSocket} (h : t.valid = false) :
    (∀ e ∈ (script.exec X t).1, e.Dead) ∧ (script.exec X t).2.valid = false := by
  induction script generalizing t with
  | done => exact ⟨List.forall_mem_nil _, h⟩
  | call op handler rest _ ih =>
      obtain ⟨hself, hcalls⟩ := TcpSocket.perform_of_invalid (X := X) h op
      obtain ⟨hrest, hend⟩ := ih hself
      rw [exec_call_of_not_mem hcalls]
      refine ⟨fun e he => ?_, hend⟩
      rcases List.mem_cons.mp he with rfl | he
      · exact ⟨h, hself, hcalls⟩
      · exact hrest e he

/-- The history of an open socket: it stays open throughout, or up to the call that
closes it, after which the close handler is called, if `notify` says that there is one,
and nothing that happens to a closed socket matters to it. -/
inductive Lifetime (notify : Bool) : List SocketEvent → TcpSocket → Prop
  | stays {tr : List SocketEvent} {t' : TcpSocket} (hopen : ∀ e ∈ tr, e.Open)
      (hvalid : t'.valid = true) : Lifetime notify tr t'
  | closes {pre post : List SocketEvent} {p : Performed} {t' : TcpSocket}
      (hopen : ∀ e ∈ pre, e.Open) (hbefore : p.before.valid = true)
      (hself : p.effect.self.valid = false)
      (hcount : p.effect.calls.count .closeHandler = if notify then 1 else 0)
      (hdead : ∀ e ∈ post, e.Dead) (hvalid : t'.valid = false) :
      Lifetime notify (pre ++ .performed p ::
        (if notify then .handler p.effect.self :: post else post)) t'

theorem Lifetime.cons {notify : Bool} {e : SocketEvent} {tr : List SocketEvent}
    {t' : TcpSocket} (he : e.Open) (h : Lifetime notify tr t') : Lifetime notify (e :: tr) t' := by
  cases h with
  | stays hopen hvalid => exact .stays (List.forall_mem_cons.mpr ⟨he, hopen⟩) hvalid
  | @closes pre post p _ hopen hbefore hself hcount hdead hvalid =>
      exact .closes (List.forall_mem_cons.mpr ⟨he, hopen⟩) hbefore hself hcount hdead hvalid

theorem lifetime_of_exec (script : Script) (hkeeps : script.Keeps) {t : TcpSocket}
    (h : t.valid = true) :
    Lifetime t.closeHandler (script.exec X t).1 (script.exec X t).2 := by
  induction script generalizing t with
  | done => exact .stays (List.forall_mem_nil _) h
  | call op handler rest _ ih =>
      obtain ⟨hop, -, hrest⟩ := hkeeps
      rcases TcpSocket.perform_of_valid (X := X) h hop with
        ⟨hself, hhandler, hcount⟩ | ⟨hself, hcount⟩
      · have hcalls : .closeHandler ∉ (t.perform X op).calls := List.count_eq_zero.mp hcount
        have hlife := ih hrest hself
        rw [hhandler] at hlife
        rw [exec_call_of_not_mem hcalls]
        exact hlife.cons ⟨h, hself, hcalls⟩
      · cases hb : t.closeHandler with
        | true =>
            rw [hb, if_pos rfl] at hcount
            have hcalls : .closeHandler ∈ (t.perform X op).calls :=
              List.count_pos_iff.mp (by rw [hcount]; exact Nat.one_pos)
            obtain ⟨hinner, hmid⟩ := dead_of_exec (X := X) handler hself
            obtain ⟨houter, hend⟩ := dead_of_exec (X := X) rest hmid
            rw [exec_call_of_mem hcalls]
            exact Lifetime.closes (List.forall_mem_nil _) h hself hcount
              (List.forall_mem_append.mpr ⟨hinner, houter⟩) hend
        | false =>
            rw [hb, if_neg Bool.false_ne_true] at hcount
            have hcalls : .closeHandler ∉ (t.perform X op).calls := List.count_eq_zero.mp hcount
            obtain ⟨houter, hend⟩ := dead_of_exec (X := X) rest hself
            rw [exec_call_of_not_mem hcalls]
            exact Lifetime.closes (List.forall_mem_nil _) h hself hcount houter hend

end Exec

theorem eq_of_split {α : Type*} {Q : α → Prop} {pre₀ post₀ pre post : List α} {x₀ x : α}
    (h : pre₀ ++ x₀ :: post₀ = pre ++ x :: post) (hpre : ∀ y ∈ pre₀, ¬ Q y)
    (hpost : ∀ y ∈ post₀, ¬ Q y) (hx : Q x) : pre₀ = pre ∧ x₀ = x ∧ post₀ = post := by
  rcases List.append_eq_append_iff.mp h with ⟨as, rfl, heq⟩ | ⟨bs, rfl, heq⟩
  · cases as with
    | nil =>
        obtain ⟨rfl, rfl⟩ := List.cons.inj heq
        exact ⟨(List.append_nil pre₀).symm, rfl, rfl⟩
    | cons a as =>
        rw [(List.cons.inj heq).2] at hpost
        exact absurd hx (hpost x (List.mem_append_right as List.mem_cons_self))
  · cases bs with
    | nil =>
        obtain ⟨rfl, rfl⟩ := List.cons.inj heq
        exact ⟨List.append_nil pre, rfl, rfl⟩
    | cons b bs =>
        obtain ⟨rfl, -⟩ := List.cons.inj heq
        exact absurd hx (hpre x (List.mem_append_right pre List.mem_cons_self))

namespace SocketEvent

def Invalid : SocketEvent → Prop
  | performed p => p.before.valid = false ∧ p.effect.self.valid = false
  | handler t => t.valid = false

variable {e : SocketEvent}

theorem Dead.invalid (h : e.Dead) : e.Invalid := by
  cases e with
  | performed p => exact ⟨h.1, h.2.1⟩
  | handler t => cases h

theorem Invalid.not_closes (h : e.Invalid) : ¬ e.Closes := by
  cases e with
  | performed p =>
      intro hcloses
      exact Bool.false_ne_true (h.1.symm.trans hcloses.1)
  | handler t => exact id

theorem Open.not_closes (h : e.Open) : ¬ e.Closes := by
  cases e with
  | performed p =>
      intro hcloses
      exact Bool.false_ne_true (hcloses.2.symm.trans h.2.1)
  | handler t => exact id

theorem Dead.not_mem_calls (h : e.Dead) : .closeHandler ∉ e.calls := by
  cases e with
  | performed p => exact h.2.2
  | handler t => exact List.not_mem_nil

theorem Open.not_mem_calls (h : e.Open) : .closeHandler ∉ e.calls := by
  cases e with
  | performed p => exact h.2.2
  | handler t => exact List.not_mem_nil

end SocketEvent

/-- What the calls of a lifetime are. -/
structure Notified (notify : Bool) (tr : List SocketEvent) (t' : TcpSocket) : Prop where
  /-- The handler is called at most once. -/
  once : (tr.flatMap SocketEvent.calls).count .closeHandler ≤ 1
  /-- It is called, if there is one, just where `valid()` falls. -/
  called_iff : ∀ e ∈ tr, .closeHandler ∈ e.calls ↔ e.Closes ∧ notify = true
  /-- `valid()` falls once and stays false, and the handler starts at once. -/
  falls : ∀ pre e post, tr = pre ++ e :: post → e.Closes →
    (∀ e' ∈ pre, ¬ e'.Closes) ∧ (∀ e' ∈ post, e'.Invalid) ∧ t'.valid = false ∧
      (notify = true → ∃ t post', post = .handler t :: post')
  /-- The handler runs on a socket that is no longer valid. -/
  handler : ∀ t, .handler t ∈ tr → t.valid = false

theorem count_calls_eq_zero {tr : List SocketEvent} (h : ∀ e ∈ tr, .closeHandler ∉ e.calls) :
    (tr.flatMap SocketEvent.calls).count .closeHandler = 0 := by
  apply List.count_eq_zero.mpr
  intro hmem
  obtain ⟨e, he, hcall⟩ := List.mem_flatMap.mp hmem
  exact h e he hcall

theorem notified_of_quiet {notify : Bool} {tr : List SocketEvent} {t' : TcpSocket}
    (h : ∀ e ∈ tr, e.Open ∨ e.Dead) : Notified notify tr t' := by
  have hcalls : ∀ e ∈ tr, .closeHandler ∉ e.calls := fun e he =>
    (h e he).elim SocketEvent.Open.not_mem_calls SocketEvent.Dead.not_mem_calls
  have hcloses : ∀ e ∈ tr, ¬ e.Closes := fun e he =>
    (h e he).elim SocketEvent.Open.not_closes fun hdead => hdead.invalid.not_closes
  refine ⟨?_, ?_, ?_, ?_⟩
  · rw [count_calls_eq_zero hcalls]
    exact Nat.zero_le 1
  · exact fun e he => iff_of_false (hcalls e he) fun hboth => hcloses e he hboth.1
  · intro pre e post heq he
    refine absurd he (hcloses e ?_)
    rw [heq]
    exact List.mem_append_right pre List.mem_cons_self
  · intro t ht
    rcases h _ ht with hopen | hdead
    · cases hopen
    · cases hdead

theorem Lifetime.notified {notify : Bool} {tr : List SocketEvent} {t' : TcpSocket}
    (h : Lifetime notify tr t') : Notified notify tr t' := by
  cases h with
  | stays hopen => exact notified_of_quiet fun e he => Or.inl (hopen e he)
  | @closes pre post p _ hopen hbefore hself hcount hdead hvalid =>
      have hpre : ∀ e ∈ pre, .closeHandler ∉ e.calls := fun e he => (hopen e he).not_mem_calls
      have hpost : ∀ e ∈ post, .closeHandler ∉ e.calls := fun e he => (hdead e he).not_mem_calls
      have hinvalid : ∀ e ∈ (if notify then SocketEvent.handler p.effect.self :: post else post),
          e.Invalid ∧ .closeHandler ∉ e.calls := by
        intro e he
        cases notify with
        | true =>
            rcases List.mem_cons.mp he with rfl | he
            · exact ⟨hself, List.not_mem_nil⟩
            · exact ⟨(hdead e he).invalid, hpost e he⟩
        | false => exact ⟨(hdead e he).invalid, hpost e he⟩
      refine ⟨?_, ?_, ?_, ?_⟩
      · rw [List.flatMap_append, List.flatMap_cons, List.count_append, List.count_append,
          count_calls_eq_zero hpre, count_calls_eq_zero fun e he => (hinvalid e he).2,
          SocketEvent.calls, hcount]
        split_ifs <;> simp
      · intro e he
        rcases List.mem_append.mp he with he | he
        · exact iff_of_false (hpre e he) fun hboth => (hopen e he).not_closes hboth.1
        · rcases List.mem_cons.mp he with rfl | he
          · rw [SocketEvent.calls, ← List.count_pos_iff, hcount]
            cases notify <;> simp [SocketEvent.Closes, hbefore, hself]
          · exact iff_of_false (hinvalid e he).2 fun hboth => (hinvalid e he).1.not_closes hboth.1
      · intro pre' e post' heq hcloses
        obtain ⟨rfl, rfl, rfl⟩ := eq_of_split heq (fun e he => (hopen e he).not_closes)
          (fun e he => (hinvalid e he).1.not_closes) hcloses
        refine ⟨fun e he => (hopen e he).not_closes, fun e he => (hinvalid e he).1, hvalid, ?_⟩
        rintro rfl
        exact ⟨_, _, rfl⟩
      · intro t ht
        rcases List.mem_append.mp ht with ht | ht
        · cases hopen _ ht
        · rcases List.mem_cons.mp ht with ht | ht
          · cases ht
          · exact (hinvalid _ ht).1

/-- However its member functions are called, from outside and from the close handler,
a socket calls its close handler at most once, just where `valid()` falls, and on a
socket that is no longer valid; one without a handle never calls it. -/
theorem notified_once (X : External) (script : Script) (hkeeps : script.Keeps) (t : TcpSocket) :
    Notified t.closeHandler (script.exec X t).1 (script.exec X t).2 ∧
      (t.valid = false → ((script.exec X t).1.flatMap SocketEvent.calls).count .closeHandler = 0 ∧
        ∀ t', .handler t' ∉ (script.exec X t).1) := by
  constructor
  · cases hvalid : t.valid with
    | true => exact (lifetime_of_exec script hkeeps hvalid).notified
    | false => exact notified_of_quiet fun e he => Or.inr ((dead_of_exec script hvalid).1 e he)
  · intro hvalid
    have hdead := (dead_of_exec (X := X) script hvalid).1
    refine ⟨count_calls_eq_zero fun e he => (hdead e he).not_mem_calls, fun t' ht' => ?_⟩
    cases hdead _ ht'

/-- A handler that closes the socket again, and posts a read on it, after a failed
send. -/
def reentrant : Script :=
  .call (.write (fun _ => 1) 1 (.error 10054))
    (.call .close .done (.call (.read (.error ioPending)) .done .done)) (.call .close .done .done)

theorem notified_once_reentrant :
    ((reentrant.exec External.plain
      { TcpSocket.new (rawMemory 0) 5 with closeHandler := true }).1.flatMap
        SocketEvent.calls).count .closeHandler ≤ 1 := by
  have hkeeps : reentrant.Keeps := by simp [reentrant, Script.Keeps]
  exact (notified_once External.plain reentrant hkeeps _).1.once

/-! ## Calls on a closed socket -/

/-- The system of one socket, its member functions called in any order. -/
def socketSystem (X : External) : System TcpSocket Performed :=
  System.ofNext (TcpSocket.Constructed X)
    fun op t => some ((t.perform X op).self, ⟨op, t, t.perform X op⟩)

def SocketEvent.performed? : SocketEvent → Option Performed
  | performed p => some p
  | handler _ => none

section Runs

variable {X : External} {t t' : TcpSocket} {tr : List Performed} {p : Performed}

theorem performed_of_step (h : (socketSystem X).step t p t') :
    p.before = t ∧ p.effect = t.perform X p.op ∧ t' = (t.perform X p.op).self := by
  obtain ⟨op, hnext⟩ := h
  obtain ⟨rfl, rfl⟩ := Prod.mk.inj (Option.some.inj hnext)
  exact ⟨rfl, rfl, rfl⟩

theorem path_of_exec (script : Script) (t : TcpSocket) :
    (socketSystem X).Path t ((script.exec X t).1.filterMap SocketEvent.performed?)
      (script.exec X t).2 := by
  induction script generalizing t with
  | done => exact System.Path.refl t
  | call op handler rest ihhandler ihrest =>
      have hfirst : (socketSystem X).Path t [⟨op, t, t.perform X op⟩] (t.perform X op).self :=
        System.Path.single ⟨op, rfl⟩
      by_cases hcalls : .closeHandler ∈ (t.perform X op).calls
      · rw [exec_call_of_mem hcalls]
        simp only [List.filterMap_cons, List.filterMap_append, SocketEvent.performed?]
        exact hfirst.append ((ihhandler _).append (ihrest _))
      · rw [exec_call_of_not_mem hcalls]
        simp only [List.filterMap_cons, SocketEvent.performed?]
        exact hfirst.append (ihrest _)

end Runs

def Call.isIo : Call → Bool
  | wsaSend _ _ | wsaRecv _ _ => true
  | closesocket _ | closeHandler => false

def SocketOp.isRead : SocketOp → Bool
  | read _ => true
  | _ => false

namespace TcpSocket

def mark (t : TcpSocket) (type : IoType) : TcpSocket :=
  { t with ioData := { t.ioData with type := type } }

/-- `read` and `write` are refused where they should be. -/
structure Refuses (X : External) (t : TcpSocket) : Prop where
  read : t.valid = false ∨ t.ioData.type = .handleComplete → ∀ result,
    (t.read X result).ret = some false ∧ ∀ c ∈ (t.read X result).calls, c.isIo = false
  write : t.valid = false → ∀ data length result,
    ∀ c ∈ (t.write X data length result).calls, c.isIo = false

variable {X : External} {t : TcpSocket}

theorem read_calls (h : ¬(t.valid = false ∧ t.ioData.type = .handleComplete))
    (result : WsaResult) : .wsaRecv t.socket result ∈ (t.read X result).calls := by
  rw [read, if_neg h]
  cases result with
  | done bytes => exact List.mem_cons_self
  | error lastError =>
      dsimp only
      split_ifs
      · exact List.mem_cons_self
      · exact List.mem_cons_self

theorem read_isIo_iff {result : WsaResult} :
    (∀ c ∈ (t.read X result).calls, c.isIo = false) ↔
      t.valid = false ∧ t.ioData.type = .handleComplete := by
  constructor
  · intro hcalls
    by_contra hguard
    cases hcalls _ (read_calls hguard result)
  · intro hguard
    rw [read, if_pos hguard]
    exact List.forall_mem_nil _

theorem isIo_of_close : ∀ c ∈ (t.close X).calls, c.isIo = false := by
  rw [close]
  split_ifs <;> simp [Call.isIo]

theorem perform_isIo_iff (h : t.valid = false) (op : SocketOp) :
    (∀ c ∈ (t.perform X op).calls, c.isIo = false) ↔
      (op.isRead = true → t.ioData.type = .handleComplete) := by
  cases op with
  | init | onWrite | registerCloseHandler =>
      exact iff_of_true (List.forall_mem_nil _) fun hread => by cases hread
  | close => exact iff_of_true isIo_of_close fun hread => by cases hread
  | onRead =>
      refine iff_of_true ?_ fun hread => by cases hread
      rcases onRead_cases X t with ⟨-, heq⟩ | ⟨-, heq⟩
      · rw [perform, heq]
        exact isIo_of_close
      · rw [perform, heq]
        exact List.forall_mem_nil _
  | write data length result =>
      refine iff_of_true ?_ fun hread => by cases hread
      rw [perform, write, if_pos h]
      exact List.forall_mem_nil _
  | read result =>
      rw [perform, read_isIo_iff]
      exact ⟨fun hguard _ => hguard.2, fun hmark => ⟨h, hmark rfl⟩⟩

theorem refuses_iff : Refuses X t ↔ (t.valid = false ↔ t.ioData.type = .handleComplete) := by
  constructor
  · intro hrefuses
    have hguard : t.valid = false ∨ t.ioData.type = .handleComplete →
        t.valid = false ∧ t.ioData.type = .handleComplete := fun hdead =>
      read_isIo_iff.mp (hrefuses.read hdead (.done 0)).2
    exact ⟨fun h => (hguard (Or.inl h)).2, fun h => (hguard (Or.inr h)).1⟩
  · intro hiff
    constructor
    · intro hdead result
      have hguard : t.valid = false ∧ t.ioData.type = .handleComplete :=
        hdead.elim (fun h => ⟨h, hiff.mp h⟩) fun h => ⟨hiff.mpr h, h⟩
      rw [read, if_pos hguard]
      exact ⟨rfl, List.forall_mem_nil _⟩
    · intro h data length result
      rw [write, if_pos h]
      exact List.forall_mem_nil _

end TcpSocket

theorem perform_of_path {X : External} {t t' : TcpSocket} {tr : List Performed}
    (h : (socketSystem X).Path t tr t') (hvalid : t.valid = false) :
    t'.valid = false ∧
      ∀ p ∈ tr, p.before.valid = false ∧ p.effect = p.before.perform X p.op := by
  induction h with
  | refl => exact ⟨hvalid, List.forall_mem_nil _⟩
  | @tail t₁ t₂ tr p _ hstep ih =>
      obtain ⟨hmid, htr⟩ := ih
      obtain ⟨rfl, heffect, rfl⟩ := performed_of_step hstep
      refine ⟨(TcpSocket.perform_of_invalid hmid p.op).1, fun q hq => ?_⟩
      rcases List.mem_append.mp hq with hq | hq
      · exact htr q hq
      · rw [List.mem_singleton.mp hq]
        exact ⟨hmid, heffect⟩

/-- What should be refused on a dead socket is refused exactly when the socket is dead
in both senses or in neither, and after the socket is closed no operation is started
exactly if every `read` finds `_ioData` marked. -/
theorem refused_iff (X : External) (t : TcpSocket) :
    (∀ type, TcpSocket.Refuses X (t.mark type) ↔ (t.valid = false ↔ type = .handleComplete)) ∧
    ∀ tr' t', (socketSystem X).Path t tr' t' → t.valid = false →
      ((∀ p ∈ tr', ∀ c ∈ p.effect.calls, c.isIo = false) ↔
        ∀ p ∈ tr', p.op.isRead = true → p.before.ioData.type = .handleComplete) := by
  refine ⟨fun type => TcpSocket.refuses_iff, fun tr' t' hpath hvalid => ?_⟩
  obtain ⟨-, hperformed⟩ := perform_of_path hpath hvalid
  refine forall₂_congr fun p hp => ?_
  obtain ⟨hbefore, heffect⟩ := hperformed p hp
  rw [heffect]
  exact TcpSocket.perform_isIo_iff hbefore p.op

/-- A closed socket whose record is marked. -/
def sampleMarked : TcpSocket := (TcpSocket.new (rawMemory 0) invalidSocket).mark .handleComplete

/-- It is written to and read from and hears of a completion. -/
def refusedCalls : List Performed :=
  ((Script.call (.write (fun _ => 1) 1 (.done 1)) .done
    (.call (.read (.done 0)) .done (.call .onRead .done .done))).exec External.plain
      sampleMarked).1.filterMap SocketEvent.performed?

theorem refused_iff_sample :
    refusedCalls.length = 3 ∧
      (refusedCalls.flatMap fun p => p.effect.calls.filter Call.isIo) = [] := by
  have hmarked : ∀ p ∈ refusedCalls, p.op.isRead = true →
      p.before.ioData.type = .handleComplete := by decide
  have hcalls :=
    ((refused_iff External.plain sampleMarked).2 _ _ (path_of_exec _ _) rfl).mpr hmarked
  refine ⟨rfl, List.flatMap_eq_nil_iff.mpr fun p hp => List.filter_eq_nil_iff.mpr fun c hc => ?_⟩
  rw [hcalls p hp c hc]
  exact Bool.false_ne_true

/-- A socket whose handle could not be created reads all the same. -/
theorem not_refused :
    ¬ ∀ (X : External) {tr : List Performed} {t : TcpSocket}, (socketSystem X).Run tr t →
      ∀ type, TcpSocket.Refuses X (t.mark type) := by
  intro h
  have hrun : (socketSystem External.plain).Run [] (TcpSocket.new (rawMemory 0) invalidSocket) :=
    ⟨_, .new (rawMemory 0) invalidSocket, System.Path.refl _⟩
  have hrefuses := (h External.plain hrun .handleAccept).read (Or.inl rfl) (.error 10038)
  cases hrefuses.2 (.wsaRecv invalidSocket (.error 10038)) List.mem_cons_self

end Qing
