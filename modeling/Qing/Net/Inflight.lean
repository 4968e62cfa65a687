import Mathlib.Data.List.Count
import Qing.Net.Routing

/-!
# One operation at a time on a record

A socket has one record for its writes and one for its reads, and nothing in it tells
whether the record is still with the system: a second `write` before the completion of
the first overwrites record and buffer. It is for the caller to wait (`Waits`). If it
does, the system holds each record at most once, a completion stands for the operation
posted last, and what is being sent is what was last accepted (`exclusive_of_waits`).
-/

namespace Qing

/-- The system call made with the record of a direction. -/
def Call.dir? : Call → Option Dir
  | wsaSend _ _ => some .write
  | wsaRecv _ _ => some .read
  | closesocket _ | closeHandler => none

/-- The direction in which the call asks the system for an operation, if it is not
refused. -/
def SocketOp.starts (t : TcpSocket) : SocketOp → Option Dir
  | write _ length _ => if t.valid = false ∨ length = 0 then none else some .write
  | read _ =>
      if t.valid = false ∧ t.ioData.type = .handleComplete then none else some .read
  | _ => none

/-- The calls an operation makes: the one that starts it, and none that starts another. -/
def Asks (d : Dir) (calls : List Call) : Prop :=
  ∃ c rest, calls = c :: rest ∧ c.dir? = some d ∧ (c.posted? = none ∨ c.posted? = some d) ∧
    rest.filterMap Call.dir? = [] ∧ rest.filterMap Call.posted? = []

/-- The calls of a function that starts nothing. -/
def Silent (calls : List Call) : Prop :=
  calls.filterMap Call.dir? = [] ∧ calls.filterMap Call.posted? = []

theorem Call.posted_or (c : Call) {d : Dir} (h : c.dir? = some d) :
    c.posted? = none ∨ c.posted? = some d := by
  cases c with
  | wsaSend socket result =>
      rw [← h, posted?]
      split_ifs
      · exact Or.inr rfl
      · exact Or.inl rfl
  | wsaRecv socket result =>
      rw [← h, posted?]
      split_ifs
      · exact Or.inr rfl
      · exact Or.inl rfl
  | closesocket => exact Or.inl rfl
  | closeHandler => exact Or.inl rfl

theorem Silent.nil : Silent [] := ⟨rfl, rfl⟩

theorem Asks.cons {c : Call} {d : Dir} {rest : List Call} (h : c.dir? = some d)
    (hrest : Silent rest) : Asks d (c :: rest) :=
  ⟨c, rest, rfl, h, c.posted_or h, hrest.1, hrest.2⟩

namespace TcpSocket

variable (X : External) (t : TcpSocket)

theorem close_silent : Silent (t.close X).calls := by
  refine ⟨?_, close_posted X t⟩
  rw [close]
  split_ifs <;> rfl

theorem perform_asks (op : SocketOp) :
    (op.starts t = none ∧ Silent (t.perform X op).calls) ∨
      ∃ d, op.starts t = some d ∧ Asks d (t.perform X op).calls := by
  cases op with
  | init | onWrite | registerCloseHandler => exact Or.inl ⟨rfl, rfl, rfl⟩
  | close => exact Or.inl ⟨rfl, close_silent X t⟩
  | onRead =>
      refine Or.inl ⟨rfl, ?_⟩
      rcases onRead_cases X t with ⟨-, heq⟩ | ⟨-, heq⟩
      · rw [perform, heq]
        exact close_silent X t
      · rw [perform, heq]
        exact ⟨rfl, rfl⟩
  | write data length result =>
      rw [SocketOp.starts, perform, write]
      by_cases hvalid : t.valid = false
      · rw [if_pos (Or.inl hvalid), if_pos hvalid]
        exact Or.inl ⟨rfl, rfl, rfl⟩
      by_cases hlength : length = 0
      · rw [if_pos (Or.inr hlength), if_neg hvalid, if_pos hlength]
        exact Or.inl ⟨rfl, rfl, rfl⟩
      rw [if_neg (not_or.mpr ⟨hvalid, hlength⟩), if_neg hvalid, if_neg hlength]
      refine Or.inr ⟨.write, rfl, ?_⟩
      cases result with
      | done bytes => exact Asks.cons rfl Silent.nil
      | error lastError =>
          dsimp only
          split_ifs
          · exact Asks.cons rfl (close_silent X _)
          · exact Asks.cons rfl Silent.nil
  | read result =>
      rw [SocketOp.starts, perform, read]
      by_cases hguard : t.valid = false ∧ t.ioData.type = .handleComplete
      · rw [if_pos hguard, if_pos hguard]
        exact Or.inl ⟨rfl, rfl, rfl⟩
      rw [if_neg hguard, if_neg hguard]
      refine Or.inr ⟨.read, rfl, ?_⟩
      cases result with
      | done bytes => exact Asks.cons rfl Silent.nil
      | error lastError =>
          dsimp only
          split_ifs
          · exact Asks.cons rfl (close_silent X _)
          · exact Asks.cons rfl Silent.nil

variable {X t}

theorem perform_dir (op : SocketOp) :
    (t.perform X op).calls.filterMap Call.dir? = (op.starts t).toList := by
  rcases perform_asks X t op with ⟨hstarts, hdir, -⟩ |
    ⟨d, hstarts, c, rest, hcalls, hc, -, hrest, -⟩
  · rw [hstarts, hdir]
    rfl
  · rw [hstarts, hcalls, List.filterMap_cons, hc, hrest]
    rfl

theorem perform_posted (op : SocketOp) :
    (t.perform X op).calls.filterMap Call.posted? = [] ∨
      ∃ d, op.starts t = some d ∧ (t.perform X op).calls.filterMap Call.posted? = [d] := by
  rcases perform_asks X t op with ⟨-, -, hposted⟩ | ⟨d, hstarts, c, rest, hcalls, -, hc, -, hrest⟩
  · exact Or.inl hposted
  · rw [hcalls, List.filterMap_cons, hrest]
    rcases hc with hc | hc
    · exact Or.inl (by rw [hc])
    · exact Or.inr ⟨d, hstarts, by rw [hc]⟩

theorem writeBuffer_of_starts {op : SocketOp} (h : op.starts t = some .write) :
    ∃ data length result, op = .write data length result ∧
      (t.perform X op).self.writeBuffer = { len := length, buf := data } := by
  cases op with
  | init | onWrite | registerCloseHandler | close | onRead => cases h
  | read result =>
      rw [SocketOp.starts] at h
      split_ifs at h
      cases h
  | write data length result =>
      rw [SocketOp.starts] at h
      split_ifs at h with hrefused
      obtain ⟨hvalid, hlength⟩ := not_or.mp hrefused
      refine ⟨data, length, result, rfl, ?_⟩
      rw [perform, write, if_neg hvalid, if_neg hlength]
      cases result with
      | done bytes => rfl
      | error lastError =>
          dsimp only
          split_ifs
          · exact close_writeBuffer X (t.sending data length _)
          · rfl

theorem writeBuffer_of_not_starts {op : SocketOp} (h : op.starts t ≠ some .write) :
    (t.perform X op).self.writeBuffer = t.writeBuffer := by
  cases op with
  | init | onWrite | registerCloseHandler => rfl
  | close => exact close_writeBuffer X t
  | onRead =>
      rcases onRead_cases X t with ⟨-, heq⟩ | ⟨-, heq⟩
      · rw [perform, heq]
        exact close_writeBuffer X t
      · rw [perform, heq]
  | read result =>
      rcases read_cases X result t with heq | heq | heq
      · rw [perform, heq]
      · rw [perform, heq]
        rfl
      · rw [perform, heq]
        exact close_writeBuffer X (t.receiving result)
  | write data length result =>
      have hrefused : t.valid = false ∨ length = 0 := by
        by_contra hnot
        rw [SocketOp.starts, if_neg hnot] at h
        exact h rfl
      rw [perform, write]
      by_cases hvalid : t.valid = false
      · rw [if_pos hvalid]
      · rw [if_neg hvalid, if_pos (hrefused.resolve_left hvalid)]

end TcpSocket

/-! ## What a history accounts for -/

variable {Obj : Type*}

namespace IocpEvent

def made : IocpEvent Obj → Option (Obj × List Call)
  | called o _ calls _ => some (o, calls)
  | polled _ _ _ _ _ (some (some o, _)) calls => some (o, calls)
  | _ => none

/-- The records with which the system was asked for an operation. -/
def attempts (e : IocpEvent Obj) : List (Obj × Dir) :=
  e.made.elim [] fun m => (m.2.filterMap Call.dir?).map fun d => (m.1, d)

def posts (e : IocpEvent Obj) : List (Obj × Dir) :=
  e.made.elim [] fun m => (m.2.filterMap Call.posted?).map fun d => (m.1, d)

def dequeued? : IocpEvent Obj → Option (Obj × Dir)
  | polled o d _ _ _ _ _ => some (o, d)
  | _ => none

/-- The data of a write of `o` that was started. -/
def accepted? [DecidableEq Obj] (o : Obj) : IocpEvent Obj → Option WsaBuf
  | called o' (.write data length _) calls _ =>
      if o' = o ∧ calls.filterMap Call.posted? ≠ [] then some { len := length, buf := data }
      else none
  | _ => none

end IocpEvent

section Counts

variable [DecidableEq Obj]

def postedCount (tr : List (IocpEvent Obj)) (p : Obj × Dir) : ℕ :=
  (tr.flatMap IocpEvent.posts).count p

def completedCount (tr : List (IocpEvent Obj)) (p : Obj × Dir) : ℕ :=
  (tr.filterMap IocpEvent.dequeued?).count p

/-- The data of the last write of `o` that was started. -/
def lastAccepted (tr : List (IocpEvent Obj)) (o : Obj) : Option WsaBuf :=
  (tr.filterMap (IocpEvent.accepted? o)).getLast?

/-- The caller asks for an operation only when none is outstanding with its record. -/
def Waits (s : Iocp Obj) (e : IocpEvent Obj) : Prop :=
  match e with
  | .called o op _ _ => ∀ d, op.starts (s.sockets o) = some d → (o, d) ∉ s.inflight
  | _ => True

variable {X : External} {s s' : Iocp Obj} {e : IocpEvent Obj} {tr : List (IocpEvent Obj)}
  {o : Obj}

theorem starts_handler (t : TcpSocket) (handler : Handler) : handler.op.starts t = none := by
  cases handler <;> rfl

theorem starts_write {t : TcpSocket} {data : Memory} {length : UInt32} {result : WsaResult}
    {d : Dir} (h : (SocketOp.write data length result).starts t = some d) : d = .write := by
  rw [SocketOp.starts] at h
  split_ifs at h
  exact (Option.some.inj h).symm

theorem accepted_of_not_starts {op : SocketOp}
    (h : op.starts (s.sockets o) ≠ some .write) (o' : Obj) (ret : Option Bool) :
    IocpEvent.accepted? o' (.called o op ((s.sockets o).perform X op).calls ret) = none := by
  cases op with
  | write data length result =>
      refine if_neg fun hand => hand.2 ?_
      rcases TcpSocket.perform_posted (X := X) (t := s.sockets o) (.write data length result) with
        hnil | ⟨d, hstarts, -⟩
      · exact hnil
      · rw [starts_write hstarts] at hstarts
        exact absurd hstarts h
  | _ => rfl

theorem accepted_of_ne {o' : Obj} (h : o ≠ o') {op : SocketOp} {calls : List Call}
    {ret : Option Bool} : IocpEvent.accepted? o' (.called o op calls ret) = none := by
  cases op with
  | write data length result => exact if_neg fun hand => h hand.1
  | _ => rfl

theorem sockets_perform (effect : Effect) (o' : Obj) :
    (s.perform o effect).sockets o' = if o' = o then effect.self else s.sockets o' :=
  Function.update_apply s.sockets o effect.self o'

/-- What a step does to the operations in flight and to the write buffers. -/
structure Moves (s : Iocp Obj) (e : IocpEvent Obj) (s' : Iocp Obj) : Prop where
  inflight : s'.inflight = e.dequeued?.elim s.inflight s.inflight.erase ++ e.posts
  dequeued : ∀ p, e.dequeued? = some p → p ∈ s.inflight ∧ e.posts = []
  attempts : ∀ p ∈ e.attempts, e.dequeued? = none ∧ (Waits s e → p ∉ s.inflight)
  posts : e.posts = [] ∨ ∃ p, e.posts = [p] ∧ (Waits s e → p ∉ s.inflight)
  buffer : Waits s e → ∀ o, (o, .write) ∈ s'.inflight →
    (e.accepted? o = some (s'.sockets o).writeBuffer) ∨
      (e.accepted? o = none ∧ (o, .write) ∈ s.inflight ∧
        (s'.sockets o).writeBuffer = (s.sockets o).writeBuffer)

theorem moves_called (op : SocketOp) (ret : Option Bool) :
    Moves s (.called o op ((s.sockets o).perform X op).calls ret)
      (s.perform o ((s.sockets o).perform X op)) := by
  have hposted := TcpSocket.perform_posted (X := X) (t := s.sockets o) op
  constructor
  case inflight => rfl
  case dequeued => nofun
  case attempts =>
      intro p hp
      refine ⟨rfl, fun hwaits => ?_⟩
      obtain ⟨d, hd, rfl⟩ := List.mem_map.mp hp
      change d ∈ List.filterMap _ _ at hd
      rw [TcpSocket.perform_dir, Option.mem_toList] at hd
      exact hwaits d hd
  case posts =>
      rcases hposted with hnil | ⟨d, hstarts, hone⟩
      · exact Or.inl (congrArg (List.map _) hnil)
      · exact Or.inr ⟨(o, d), congrArg (List.map _) hone, fun hwaits => hwaits d hstarts⟩
  case buffer =>
      intro hwaits o' hmem
      have hmem' : (o', Dir.write) ∈ s.inflight ∨ (o', Dir.write) ∈
          (((s.sockets o).perform X op).calls.filterMap Call.posted?).map fun d => (o, d) :=
        List.mem_append.mp hmem
      rcases eq_or_ne o' o with rfl | hne
      · by_cases hstarts : op.starts (s.sockets o') = some .write
        · have hnew := hmem'.resolve_left (hwaits .write hstarts)
          obtain ⟨data, length, result, rfl, hbuffer⟩ :=
            TcpSocket.writeBuffer_of_starts (X := X) hstarts
          refine Or.inl ?_
          rw [sockets_perform, if_pos rfl, hbuffer]
          refine if_pos ⟨rfl, fun hnil => ?_⟩
          rw [hnil] at hnew
          cases hnew
        · refine Or.inr ⟨accepted_of_not_starts hstarts o' ret, hmem'.resolve_right ?_, ?_⟩
          · intro hnew
            obtain ⟨d, hd, heq⟩ := List.mem_map.mp hnew
            obtain rfl : d = .write := (Prod.mk.inj heq).2
            rcases hposted with hnil | ⟨d', hstarts', hone⟩
            · rw [hnil] at hd
              cases hd
            · rw [hone, List.mem_singleton] at hd
              exact hstarts (hd ▸ hstarts')
          · rw [sockets_perform, if_pos rfl]
            exact TcpSocket.writeBuffer_of_not_starts hstarts
      · refine Or.inr ⟨accepted_of_ne hne.symm, hmem'.resolve_right ?_, ?_⟩
        · intro hnew
          obtain ⟨d, -, heq⟩ := List.mem_map.mp hnew
          exact hne (Prod.mk.inj heq).1.symm
        · rw [sockets_perform, if_neg hne]

theorem moves_still (hposts : e.posts = []) (hattempts : e.attempts = [])
    (hdequeued : e.dequeued? = none) (haccepted : ∀ o, e.accepted? o = none)
    (hinflight : s'.inflight = s.inflight) (hsockets : s'.sockets = s.sockets) : Moves s e s' where
  inflight := by rw [hdequeued, hposts, List.append_nil, hinflight]; rfl
  dequeued p hp := by rw [hdequeued] at hp; cases hp
  attempts p hp := by rw [hattempts] at hp; cases hp
  posts := Or.inl hposts
  buffer _ o hmem := Or.inr ⟨haccepted o, hinflight ▸ hmem, by rw [hsockets]⟩

theorem dispatched_spec (called : Option (Option Obj × Handler)) :
    (Iocp.dispatched X s called).1.inflight = s.inflight ∧
    (∀ o, ((Iocp.dispatched X s called).1.sockets o).writeBuffer = (s.sockets o).writeBuffer) ∧
    ∀ o d countBytes data key,
      (IocpEvent.polled o d countBytes data key called (Iocp.dispatched X s called).2).posts =
          [] ∧
        (IocpEvent.polled o d countBytes data key called
          (Iocp.dispatched X s called).2).attempts = [] := by
  match called with
  | none => exact ⟨rfl, fun _ => rfl, fun _ _ _ _ _ => ⟨rfl, rfl⟩⟩
  | some (none, _) => exact ⟨rfl, fun _ => rfl, fun _ _ _ _ _ => ⟨rfl, rfl⟩⟩
  | some (some o', handler) =>
      have hstarts := starts_handler (s.sockets o') handler
      have hdir : ((s.sockets o').perform X handler.op).calls.filterMap Call.dir? = [] := by
        rw [TcpSocket.perform_dir, hstarts]
        rfl
      have hposted : ((s.sockets o').perform X handler.op).calls.filterMap Call.posted? = [] := by
        rcases TcpSocket.perform_posted (X := X) (t := s.sockets o') handler.op with
          hnil | ⟨d, hd, -⟩
        · exact hnil
        · rw [hstarts] at hd
          cases hd
      refine ⟨?_, fun o => ?_, fun _ _ _ _ _ => ⟨?_, ?_⟩⟩
      · change s.inflight ++ List.map _ _ = s.inflight
        rw [hposted, List.map_nil, List.append_nil]
      · change ((s.perform o' _).sockets o).writeBuffer = _
        rw [sockets_perform]
        split_ifs with ho
        · rw [ho]
          exact TcpSocket.writeBuffer_of_not_starts (by rw [hstarts]; nofun)
        · rfl
      · exact congrArg (List.map _) hposted
      · exact congrArg (List.map _) hdir

theorem moves_of_step (h : (iocpSystem Obj X).step s e s') : Moves s e s' := by
  rcases Iocp.step_cases h with ⟨o, ok, rfl, rfl⟩ | ⟨o, key, rfl, rfl⟩ | ⟨o, op, rfl, rfl⟩ |
    ⟨rfl, rfl⟩ | ⟨o, d, n, data, s₁, hmem, hs₁, rfl, rfl⟩
  · exact moves_still rfl rfl rfl (fun _ => rfl) rfl rfl
  · exact moves_still rfl rfl rfl (fun _ => rfl) rfl rfl
  · exact moves_called op _
  · exact moves_still rfl rfl rfl (fun _ => rfl) rfl rfl
  · obtain ⟨hinflight, hbuffer, hlog⟩ := dispatched_spec (X := X)
      (s := { s₁ with pool := (s₁.dispatch o d).pool }) (s₁.dispatch o d).called
    obtain ⟨hposts, hattempts⟩ := hlog o d n data (s₁.dispatch o d).key
    constructor
    case inflight =>
        rw [hinflight, hposts, List.append_nil, hs₁]
        rfl
    case dequeued =>
        intro p hp
        obtain rfl : (o, d) = p := Option.some.inj hp
        exact ⟨hmem, hposts⟩
    case attempts =>
        intro p hp
        rw [hattempts] at hp
        cases hp
    case posts => exact Or.inl hposts
    case buffer =>
        intro _ o' hmem'
        rw [hinflight, hs₁] at hmem'
        refine Or.inr ⟨rfl, List.mem_of_mem_erase hmem', ?_⟩
        rw [hbuffer, hs₁]
        change ((Function.update s.sockets o _) o').writeBuffer = _
        rw [Function.update_apply]
        split_ifs with ho
        · rw [ho]
          cases d <;> rfl
        · rfl

/-- The operations in flight are those started and not yet completed, each record is in
flight at most once, and the write buffer holds what was last accepted until it is sent. -/
structure Exclusive (tr : List (IocpEvent Obj)) (s : Iocp Obj) : Prop where
  account : ∀ p, postedCount tr p = completedCount tr p + s.inflight.count p
  nodup : s.inflight.Nodup
  buffer : ∀ o, (o, .write) ∈ s.inflight → lastAccepted tr o = some (s.sockets o).writeBuffer

theorem postedCount_append (tr : List (IocpEvent Obj)) (e : IocpEvent Obj) (p : Obj × Dir) :
    postedCount (tr ++ [e]) p = postedCount tr p + e.posts.count p := by
  rw [postedCount, List.flatMap_append, List.count_append, List.flatMap_singleton]
  rfl

theorem completedCount_append (tr : List (IocpEvent Obj)) (e : IocpEvent Obj) (p : Obj × Dir) :
    completedCount (tr ++ [e]) p = completedCount tr p + e.dequeued?.toList.count p := by
  rw [completedCount, List.filterMap_append, List.count_append]
  cases h : e.dequeued? with
  | none => simp [completedCount, h]
  | some q => simp [completedCount, h]

theorem lastAccepted_append (tr : List (IocpEvent Obj)) (e : IocpEvent Obj) (o : Obj) :
    lastAccepted (tr ++ [e]) o = (e.accepted? o).or (lastAccepted tr o) := by
  rw [lastAccepted, List.filterMap_append]
  cases h : e.accepted? o with
  | none => simp [lastAccepted, h]
  | some b => simp [h]

theorem Exclusive.step (h : Exclusive tr s) (hmoves : Moves s e s') (hwaits : Waits s e) :
    Exclusive (tr ++ [e]) s' := by
  constructor
  case account =>
      intro p
      rw [postedCount_append, completedCount_append, h.account, hmoves.inflight, List.count_append]
      cases hq : e.dequeued? with
      | none =>
          rw [Option.elim_none, Option.toList_none, List.count_nil]
          omega
      | some q =>
          obtain ⟨hmem, -⟩ := hmoves.dequeued q hq
          rw [Option.elim_some, Option.toList_some]
          rcases eq_or_ne p q with rfl | hne
          · have hpos := List.count_pos_iff.mpr hmem
            rw [List.count_erase_self, List.count_singleton_self]
            omega
          · have hzero : [q].count p = 0 := List.count_eq_zero_of_not_mem (by simpa using hne)
            rw [List.count_erase_of_ne hne, hzero]
            omega
  case nodup =>
      rw [hmoves.inflight]
      cases hq : e.dequeued? with
      | some q =>
          rw [(hmoves.dequeued q hq).2, List.append_nil]
          exact h.nodup.erase q
      | none =>
          rcases hmoves.posts with hnil | ⟨p, hone, hfree⟩
          · rw [hnil, List.append_nil]
            exact h.nodup
          · rw [hone]
            exact h.nodup.append (List.nodup_singleton p) (by simpa using hfree hwaits)
  case buffer =>
      intro o hmem
      rw [lastAccepted_append]
      rcases hmoves.buffer hwaits o hmem with hnew | ⟨hnone, hold, hsame⟩
      · rw [hnew, Option.some_or]
      · rw [hnone, Option.none_or, h.buffer o hold, hsame]

theorem exclusive_of_run (h : ((iocpSystem Obj X).restrict fun s e _ => Waits s e).Run tr s) :
    Exclusive tr s := by
  refine System.Run.induction (P := fun tr s => Exclusive tr s) ?_ ?_ h
  · rintro s ⟨sockets, -, rfl⟩
    exact ⟨fun _ => rfl, List.nodup_nil, fun _ hmem => by cases hmem⟩
  · intro tr s e s' _ ih hstep
    exact ih.step (moves_of_step hstep.1) hstep.2

/-- Under a caller that waits, the system is never asked for an operation with a record
that is in flight; of the operations started with a record all but the last are
completed, and as long as a write is not, the write buffer holds its data. -/
theorem exclusive_of_waits
    (h : ((iocpSystem Obj X).restrict fun s e _ => Waits s e).Run tr s) :
    (∀ before e after, tr = before ++ e :: after → ∀ p ∈ e.attempts,
      postedCount before p = completedCount before p) ∧
    (∀ p, completedCount tr p ≤ postedCount tr p ∧
      postedCount tr p ≤ completedCount tr p + 1) ∧
    ∀ o, completedCount tr (o, .write) < postedCount tr (o, .write) →
      lastAccepted tr o = some (s.sockets o).writeBuffer := by
  have hexclusive := exclusive_of_run h
  refine ⟨?_, fun p => ?_, fun o hlt => ?_⟩
  · rintro before e after rfl p hp
    obtain ⟨s₁, s₂, hbefore, hstep, -⟩ := h.cut
    have hfree := ((moves_of_step hstep.1).attempts p hp).2 hstep.2
    rw [(exclusive_of_run hbefore).account, List.count_eq_zero_of_not_mem hfree, Nat.add_zero]
  · have haccount := hexclusive.account p
    have hone := List.nodup_iff_count_le_one.mp hexclusive.nodup p
    omega
  · apply hexclusive.buffer
    rw [hexclusive.account] at hlt
    exact List.count_pos_iff.mp (by omega)

end Counts

/-- A socket whose writes complete under the key that it was added with. -/
def sampleWriter : Iocp ℕ :=
  { sockets := fun _ => TcpSocket.new { rawMemory 5 with writeIoData := ⟨5, .handleAccept, 0⟩ } 5 }

/-- It writes, waits for the completion and writes again. -/
def sampleWrites : List (IocpEvent ℕ) :=
  [.added 0 5 true,
    .called 0 (.write (fun _ => 1) 2 (.error ioPending)) [.wsaSend 5 (.error ioPending)] none,
    .polled 0 .write 2 (fun _ => 0) (some 5) (some (some 0, .onWrite)) [],
    .called 0 (.write (fun _ => 2) 3 (.error ioPending)) [.wsaSend 5 (.error ioPending)] none]

theorem exclusive_of_waits_sample :
    postedCount sampleWrites (0, .write) = completedCount sampleWrites (0, .write) + 1 ∧
      ∃ s : Iocp ℕ, lastAccepted sampleWrites 0 = some (s.sockets 0).writeBuffer := by
  have hinit : ((iocpSystem ℕ External.plain).restrict fun s e _ => Waits s e).Run []
      sampleWriter := ⟨_, ⟨_, fun _ => TcpSocket.Constructed.new _ 5, rfl⟩, .refl _⟩
  have hadd := hinit.snoc ⟨⟨.add 0 true, rfl⟩, trivial⟩
  have hwrite := hadd.snoc ⟨⟨.call 0 (.write (fun _ => 1) 2 (.error ioPending)), rfl⟩,
    fun _ _ => List.not_mem_nil⟩
  have hpoll := hwrite.snoc ⟨⟨.poll (some (0, .write)) 2 (fun _ => 0), rfl⟩, trivial⟩
  have hagain : ((iocpSystem ℕ External.plain).restrict fun s e _ => Waits s e).Run
      sampleWrites _ :=
    hpoll.snoc ⟨⟨.call 0 (.write (fun _ => 2) 3 (.error ioPending)), rfl⟩,
      fun _ _ => List.not_mem_nil⟩
  obtain ⟨-, -, hbuffer⟩ := exclusive_of_waits hagain
  exact ⟨rfl, _, hbuffer 0 (by decide)⟩

/-- Nothing keeps a caller from posting a second read with the record of the first. -/
theorem not_exclusive :
    ¬ ∀ (X : External) {tr : List (IocpEvent ℕ)} {s : Iocp ℕ}, (iocpSystem ℕ X).Run tr s →
      ∀ before e after, tr = before ++ e :: after → ∀ p ∈ e.attempts,
        postedCount before p = completedCount before p := by
  intro h
  have hexec : System.exec (Iocp.next External.plain)
      [.add 0 true, .call 0 (.read (.error ioPending)), .call 0 (.read (.error ioPending))]
      (samplePort 5) = some (_, postedRead ++
        [.called 0 (.read (.error ioPending)) [.wsaRecv 5 (.error ioPending)] (some true)]) := rfl
  have hsecond := h External.plain (System.run_of_exec (samplePort_init 5) hexec) postedRead
    (.called 0 (.read (.error ioPending)) [.wsaRecv 5 (.error ioPending)] (some true)) [] rfl
    (0, .read) List.mem_cons_self
  cases hsecond

end Qing
