import Mathlib.Data.List.Basic
import Qing.Lib.Transition
import Qing.Net.Poller

/-!
# What becomes of the bytes a socket receives

A `Receiver` is an open socket whose reads are posted and completed: `poll` stores the
count of a completion in `_readIoData` and calls `onRead`. But `onRead` looks at the
count in `_ioData`, which no completion changes, and appends to `_writeQueue`. So the
received bytes never reach `_readQueue`, and the first completion closes the socket
whatever its count, or else queues bytes for writing (`received_in_order_iff`).
-/

namespace Qing

structure Receiver where
  socket : TcpSocket
  /-- The reads posted and not yet completed. -/
  outstanding : ℕ := 0

inductive ReceiveAct
  | read (result : WsaResult)
  | complete (countBytes : UInt32) (data : Memory)

inductive ReceiveEvent
  | posted
  | completed (countBytes : UInt32) (data : Memory)

/-- A read that is posted, or the completion of one with the `onRead` that follows. -/
def Receiver.next (X : External) : ReceiveAct → Receiver → Option (Receiver × ReceiveEvent)
  | .read result, s =>
      if result.posted then
        let effect := s.socket.read X result
        let posted := (effect.calls.filterMap Call.posted?).length
        some ({ socket := effect.self, outstanding := s.outstanding + posted }, .posted)
      else none
  | .complete countBytes data, s =>
      if s.outstanding = 0 then none
      else
        let effect := (s.socket.complete countBytes data .read).onRead X
        some ({ socket := effect.self, outstanding := s.outstanding - 1 },
          .completed countBytes data)

def receiveSystem (X : External) (t : TcpSocket) : System Receiver ReceiveEvent :=
  System.ofNext (fun s => s = { socket := t }) (Receiver.next X)

def ReceiveEvent.count? : ReceiveEvent → Option UInt32
  | completed countBytes _ => some countBytes
  | posted => none

def ReceiveEvent.bytes : ReceiveEvent → List UInt8
  | completed countBytes data => bytesAt data countBytes
  | posted => []

def counts (tr : List ReceiveEvent) : List UInt32 := tr.filterMap ReceiveEvent.count?

def received (tr : List ReceiveEvent) : List UInt8 := tr.flatMap ReceiveEvent.bytes

/-- Counts that are positive, but for a last one that may be 0. -/
def EndsAtZero (ns : List UInt32) : Prop :=
  ∃ ns', (∀ n ∈ ns', 0 < n) ∧ (ns = ns' ∨ ns = ns' ++ [0])

theorem TcpSocket.Constructed.readQueue {X : External} {t : TcpSocket}
    (h : TcpSocket.Constructed X t) : t.readQueue = [] := by
  induction h with
  | new | ofPoller => rfl
  | ofSocket raw socket =>
      rw [TcpSocket.ofSocket, X.setSocket_eq]
      rfl
  | setSocket _ socket ih =>
      rw [X.setSocket_eq]
      exact ih

theorem TcpSocket.read_posted {X : External} {result : WsaResult} {t : TcpSocket}
    (h : result.posted = true) :
    (t.read X result).self = t ∨ (t.read X result).self = t.receiving result := by
  rw [TcpSocket.read]
  split_ifs
  · exact Or.inl rfl
  · cases result with
    | done bytes => exact Or.inr rfl
    | error lastError =>
        have hpending : ¬(lastError ≠ errorSuccess ∧ lastError ≠ ioPending) :=
          fun hne => hne.2 (beq_iff_eq.mp h)
        exact Or.inr (congrArg Effect.self (if_neg hpending))

section Runs

variable {X : External} {t : TcpSocket} {s s' : Receiver} {e : ReceiveEvent}
  {tr : List ReceiveEvent}

namespace Receiver

theorem step_cases (h : (receiveSystem X t).step s e s') :
    (∃ result, e = .posted ∧
      (s'.socket = s.socket ∨ s'.socket = s.socket.receiving result)) ∨
    ∃ n data, e = .completed n data ∧
      s'.socket = ((s.socket.complete n data .read).onRead X).self := by
  obtain ⟨a, hnext⟩ := h
  cases a with
  | read result =>
      rw [next] at hnext
      split_ifs at hnext with hposted
      obtain ⟨rfl, rfl⟩ := Prod.mk.inj (Option.some.inj hnext)
      exact Or.inl ⟨result, rfl, TcpSocket.read_posted hposted⟩
  | complete n data =>
      rw [next] at hnext
      split_ifs at hnext
      obtain ⟨rfl, rfl⟩ := Prod.mk.inj (Option.some.inj hnext)
      exact Or.inr ⟨n, data, rfl, rfl⟩

theorem step_readQueue (h : (receiveSystem X t).step s e s') :
    s'.socket.readQueue = s.socket.readQueue := by
  rcases step_cases h with ⟨result, -, heq | heq⟩ | ⟨n, data, -, heq⟩
  · rw [heq]
  · rw [heq]
    rfl
  · rcases TcpSocket.onRead_cases X (s.socket.complete n data .read) with
      ⟨-, hread⟩ | ⟨-, hread⟩
    · rw [heq, hread, TcpSocket.close_readQueue]
      rfl
    · rw [heq, hread]
      rfl

end Receiver

theorem readQueue_of_run (h : (receiveSystem X t).Run tr s) :
    s.socket.readQueue = t.readQueue := by
  refine System.Run.induction (P := fun _ s => s.socket.readQueue = t.readQueue) ?_ ?_ h
  · rintro s rfl
    rfl
  · intro tr s e s' _ ih hstep
    rw [Receiver.step_readQueue hstep, ih]

/-- What the socket is after at most one completion. -/
structure FirstRead (t : TcpSocket) (tr : List ReceiveEvent) (t' : TcpSocket) : Prop where
  /-- Before it the socket is open and holds what it held. -/
  before : counts tr = [] → t'.valid = true ∧ t'.ioData = t.ioData ∧ t'.writeQueue = t.writeQueue
  /-- A 0 in `_ioData` closes the socket. -/
  closed : t.ioData.bytes = 0 → ∀ n, counts tr = [n] →
    t'.valid = false ∧ t'.writeQueue = t.writeQueue
  /-- Any other count there queues bytes for writing. -/
  queued : t.ioData.bytes ≠ 0 → ∀ n, counts tr = [n] → t'.writeQueue ≠ t.writeQueue

theorem counts_posted : counts (tr ++ [.posted]) = counts tr := by
  rw [counts, List.filterMap_append]
  exact List.append_nil _

theorem counts_completed {n : UInt32} {data : Memory} :
    counts (tr ++ [.completed n data]) = counts tr ++ [n] := by
  rw [counts, List.filterMap_append]
  rfl

theorem firstRead_of_run (hvalid : t.valid = true) (h : (receiveSystem X t).Run tr s) :
    FirstRead t tr s.socket := by
  refine System.Run.induction (P := fun tr s => FirstRead t tr s.socket) ?_ ?_ h
  · rintro s rfl
    exact ⟨fun _ => ⟨hvalid, rfl, rfl⟩, fun _ n hn => (by cases hn), fun _ n hn => (by cases hn)⟩
  · intro tr s e s' _ ih hstep
    rcases Receiver.step_cases hstep with ⟨result, rfl, heq⟩ | ⟨n, data, rfl, heq⟩
    · have hkept : s'.socket.valid = s.socket.valid ∧ s'.socket.ioData = s.socket.ioData ∧
          s'.socket.writeQueue = s.socket.writeQueue := by
        rcases heq with heq | heq
        · rw [heq]
          exact ⟨rfl, rfl, rfl⟩
        · rw [heq]
          exact ⟨rfl, rfl, rfl⟩
      obtain ⟨hv, hio, hq⟩ := hkept
      constructor
      · rw [counts_posted, hv, hio, hq]
        exact ih.before
      · rw [counts_posted, hv, hq]
        exact ih.closed
      · rw [counts_posted, hq]
        exact ih.queued
    · have hfirst : ∀ m, counts (tr ++ [.completed n data]) = [m] → counts tr = [] := by
        intro m hm
        rw [counts_completed] at hm
        have happend : counts tr ++ [n] = [] ++ [m] := hm
        exact (List.append_inj' happend rfl).1
      constructor
      · intro hnil
        rw [counts_completed] at hnil
        exact absurd hnil (List.append_ne_nil_of_right_ne_nil _ (List.cons_ne_nil n []))
      · intro hzero m hm
        obtain ⟨-, hio, hq⟩ := ih.before (hfirst m hm)
        rcases TcpSocket.onRead_cases X (s.socket.complete n data .read) with
          ⟨-, hread⟩ | ⟨hb, -⟩
        · rw [heq, hread]
          exact ⟨TcpSocket.close_valid X _, (TcpSocket.close_writeQueue X _).trans hq⟩
        · exact absurd ((congrArg IoData.bytes hio).trans hzero) hb
      · intro hne m hm
        obtain ⟨-, hio, hq⟩ := ih.before (hfirst m hm)
        rcases TcpSocket.onRead_cases X (s.socket.complete n data .read) with
          ⟨hb, -⟩ | ⟨-, hread⟩
        · exact absurd ((congrArg IoData.bytes hio).symm.trans hb) hne
        · rw [heq, hread]
          intro happend
          have hlength := congrArg List.length (happend.trans hq.symm)
          rw [List.length_append] at hlength
          exact absurd hlength (Nat.succ_ne_self _)

end Runs

/-! ## Delivery in order -/

/-- The received bytes are in the read queue, the write queue is as it was, and the
socket is closed just when a completion had the count 0. -/
structure InOrder (t : TcpSocket) (tr : List ReceiveEvent) (t' : TcpSocket) : Prop where
  read : t'.readQueue.flatten = received tr
  write : t'.writeQueue = t.writeQueue
  closed : t'.valid = false ↔ 0 ∈ counts tr

theorem received_eq_nil {tr : List ReceiveEvent} :
    received tr = [] ↔ ∀ n ∈ counts tr, n = 0 := by
  rw [received, List.flatMap_eq_nil_iff]
  constructor
  · intro h n hn
    obtain ⟨e, he, hcount⟩ := List.mem_filterMap.mp hn
    cases e with
    | posted => cases hcount
    | completed n' data =>
        obtain rfl : n' = n := Option.some.inj hcount
        exact bytesAt_eq_nil.mp (h (.completed n' data) he)
  · intro h e he
    cases e with
    | posted => rfl
    | completed n data =>
        exact bytesAt_eq_nil.mpr (h n (List.mem_filterMap.mpr ⟨_, he, rfl⟩))

/-- Received bytes are delivered in order exactly when there are none: no read has
completed, or one has, with the count 0, on a socket whose `_ioData` holds a 0. -/
theorem received_in_order_iff {X : External} {t : TcpSocket} {tr : List ReceiveEvent}
    {s : Receiver} (hnew : TcpSocket.Constructed X t) (hvalid : t.valid = true)
    (h : (receiveSystem X t).Run tr s) (hcounts : EndsAtZero (counts tr)) :
    InOrder t tr s.socket ↔
      counts tr = [] ∨ (counts tr = [0] ∧ t.ioData.bytes = 0) := by
  have hfirst := firstRead_of_run hvalid h
  have hqueue : s.socket.readQueue.flatten = [] := by
    rw [readQueue_of_run h, hnew.readQueue]
    rfl
  constructor
  · rintro ⟨hread, hwrite, -⟩
    have hzero : ∀ n ∈ counts tr, n = 0 := received_eq_nil.mp (hread.symm.trans hqueue)
    obtain ⟨ns, hpos, hns⟩ := hcounts
    have hnil : ns = [] := by
      refine List.eq_nil_iff_forall_not_mem.mpr fun n hn => ?_
      have hmem : n ∈ counts tr := by
        rcases hns with hns | hns
        · rwa [hns]
        · rw [hns]
          exact List.mem_append_left [0] hn
      exact absurd (hpos n hn) (by rw [hzero n hmem]; decide)
    rcases hns with hns | hns
    · exact Or.inl (hns.trans hnil)
    · rw [hnil] at hns
      refine Or.inr ⟨hns, ?_⟩
      by_contra hne
      exact hfirst.queued hne 0 hns hwrite
  · rintro (hnil | ⟨hone, hbytes⟩)
    · obtain ⟨hv, -, hq⟩ := hfirst.before hnil
      refine ⟨?_, hq, ?_⟩
      · rw [hqueue]
        exact (received_eq_nil.mpr (by simp [hnil])).symm
      · simp [hnil, hv]
    · obtain ⟨hv, hq⟩ := hfirst.closed hbytes 0 hone
      refine ⟨?_, hq, ?_⟩
      · rw [hqueue]
        exact (received_eq_nil.mpr (by simp [hone])).symm
      · simp [hone, hv]

section Sample

/-- A read that completes with `n` bytes of value 7. -/
def oneRead (n : UInt32) : List ReceiveEvent := [.posted, .completed n fun _ => 7]

/-- The receiver after it, built in zeroed memory with the handle 5. -/
def afterRead (n : UInt32) : Receiver :=
  { socket := ((((TcpSocket.new (rawMemory 0) 5).read External.plain
      (.error ioPending)).self.complete n (fun _ => 7) .read).onRead External.plain).self }

theorem run_oneRead (n : UInt32) :
    (receiveSystem External.plain (.new (rawMemory 0) 5)).Run (oneRead n) (afterRead n) := by
  have hexec : System.exec (Receiver.next External.plain)
      [.read (.error ioPending), .complete n fun _ => 7]
      { socket := .new (rawMemory 0) 5 } = some (afterRead n, oneRead n) := rfl
  exact System.run_of_exec rfl hexec

end Sample

/-- Three bytes are received, none is in the read queue, and the socket is closed. -/
theorem not_in_order :
    ¬ ∀ (X : External) (t : TcpSocket) {tr : List ReceiveEvent} {s : Receiver},
      TcpSocket.Constructed X t → t.valid = true → (receiveSystem X t).Run tr s →
        EndsAtZero (counts tr) → InOrder t tr s.socket := by
  intro h
  have hends : EndsAtZero (counts (oneRead 3)) := ⟨[3], by simp, Or.inl rfl⟩
  have hinorder := h External.plain (.new (rawMemory 0) 5) (.new _ 5) rfl (run_oneRead 3) hends
  exact absurd hinorder.read (by decide)

theorem received_in_order_iff_sample :
    InOrder (.new (rawMemory 0) 5) (oneRead 0) (afterRead 0).socket := by
  have hends : EndsAtZero (counts (oneRead 0)) := ⟨[], nofun, Or.inr rfl⟩
  exact (received_in_order_iff (.new _ 5) rfl (run_oneRead 0) hends).mpr (Or.inr ⟨rfl, rfl⟩)

/-! ## Receivers of a completion port -/

section Port

variable {Obj : Type*} [DecidableEq Obj] {X : External} {s s' : Iocp Obj} {e : IocpEvent Obj}
  {o : Obj}

/-- What an event of the port is to the receiver `o`. -/
def IocpEvent.receive? (o : Obj) : IocpEvent Obj → Option ReceiveEvent
  | called o' _ _ _ => if o' = o then some .posted else none
  | polled o' _ countBytes data _ _ _ =>
      if o' = o then some (.completed countBytes data) else none
  | added _ _ _ | removed _ _ | timedOut => none

/-- The event leaves `o` alone, posts a read of it, or completes one with `onRead`. -/
def IocpEvent.Receives (o : Obj) : IocpEvent Obj → Prop
  | called o' op _ _ => o' = o → ∃ result, op = .read result ∧ result.posted = true
  | polled o' d _ _ _ handled _ =>
      (o' = o → d = .read ∧ handled = some (some o, .onRead)) ∧
        (o' ≠ o → ∀ handler, handled ≠ some (some o, handler))
  | added _ _ _ | removed _ _ | timedOut => True

/-- `r` is what the port knows of `o`. -/
structure Tracks (o : Obj) (s : Iocp Obj) (r : Receiver) : Prop where
  socket : r.socket = s.sockets o
  outstanding : r.outstanding = s.inflight.count (o, .read)

namespace Tracks

variable {r : Receiver} {o' : Obj}

theorem perform_of_ne (h : Tracks o s r) (hne : o ≠ o') (effect : Effect) :
    Tracks o (s.perform o' effect) r := by
  refine ⟨?_, ?_⟩
  · simp only [Iocp.perform, Function.update_of_ne hne]
    exact h.socket
  · have hnot : (o, Dir.read) ∉
        (effect.calls.filterMap Call.posted?).map fun d => (o', d) := by
      simp [hne.symm]
    simp only [Iocp.perform, List.count_append, List.count_eq_zero.mpr hnot]
    exact h.outstanding

theorem dequeue_of_ne (h : Tracks o s r) (hne : o ≠ o') (d : Dir) (countBytes : UInt32)
    (data : Memory) : Tracks o (s.dequeue o' d countBytes data) r := by
  refine ⟨?_, ?_⟩
  · simp only [Iocp.dequeue, Function.update_of_ne hne]
    exact h.socket
  · have hpair : (o', d) ≠ (o, Dir.read) := fun heq => hne (Prod.mk.inj heq).1.symm
    simp only [Iocp.dequeue, List.count_erase_of_ne hpair.symm]
    exact h.outstanding

theorem withPool (h : Tracks o s r) (pool : SocketPool Obj) : Tracks o { s with pool := pool } r :=
  ⟨h.socket, h.outstanding⟩

theorem dispatched_of_ne (h : Tracks o s r) {called : Option (Option Obj × Handler)}
    (hne : ∀ handler, called ≠ some (some o, handler)) :
    Tracks o (Iocp.dispatched X s called).1 r := by
  match called with
  | none => exact h
  | some (none, _) => exact ⟨h.socket, h.outstanding⟩
  | some (some o', handler) =>
      have hobj : o ≠ o' := by
        rintro rfl
        exact hne handler rfl
      exact h.perform_of_ne hobj _

theorem read (h : Tracks o s r) (result : WsaResult) :
    Tracks o (s.perform o ((s.sockets o).perform X (.read result)))
      { socket := (r.socket.read X result).self
        outstanding := r.outstanding +
          ((r.socket.read X result).calls.filterMap Call.posted?).length } := by
  rw [h.socket, h.outstanding]
  refine ⟨?_, ?_⟩
  · simp only [Iocp.perform, Function.update_self]
    rfl
  · have hall : ∀ p ∈ (((s.sockets o).read X result).calls.filterMap Call.posted?).map
        (fun d => (o, d)), (o, Dir.read) = p := by
      intro p hp
      obtain ⟨d, hd, rfl⟩ := List.mem_map.mp hp
      rw [TcpSocket.read_dir hd]
    simp only [Iocp.perform, TcpSocket.perform, List.count_append]
    rw [List.count_eq_length.mpr hall, List.length_map]

theorem complete (h : Tracks o s r) (n : UInt32) (data : Memory) (pool : SocketPool Obj) :
    Tracks o (Iocp.dispatched X { s.dequeue o .read n data with pool := pool }
        (some (some o, .onRead))).1
      { socket := ((r.socket.complete n data .read).onRead X).self
        outstanding := r.outstanding - 1 } := by
  rw [h.socket, h.outstanding]
  refine ⟨?_, ?_⟩
  · simp only [Iocp.dispatched, Iocp.perform, Iocp.dequeue, Function.update_self]
    rfl
  · simp only [Iocp.dispatched, Iocp.perform, Iocp.dequeue, Function.update_self, Handler.op,
      TcpSocket.perform, TcpSocket.onRead_posted, List.map_nil, List.append_nil,
      List.count_erase_self]

theorem step {t : TcpSocket} (h : Tracks o s r) (hstep : (iocpSystem Obj X).step s e s')
    (hreceives : e.Receives o) :
    (e.receive? o = none ∧ Tracks o s' r) ∨
      ∃ ev r', e.receive? o = some ev ∧ (receiveSystem X t).step r ev r' ∧ Tracks o s' r' := by
  rcases Iocp.step_cases hstep with ⟨o', ok, rfl, rfl⟩ | ⟨o', key, rfl, rfl⟩ | ⟨o', op, rfl, rfl⟩ |
    ⟨rfl, rfl⟩ | ⟨o', d, n, data, s₁, hmem, rfl, rfl, rfl⟩
  · exact Or.inl ⟨rfl, h.socket, h.outstanding⟩
  · exact Or.inl ⟨rfl, h⟩
  · rcases eq_or_ne o' o with rfl | hne
    · obtain ⟨result, rfl, hposted⟩ := hreceives rfl
      exact Or.inr ⟨.posted, _, if_pos rfl, ⟨.read result, if_pos hposted⟩, h.read result⟩
    · exact Or.inl ⟨if_neg hne, h.perform_of_ne hne.symm _⟩
  · exact Or.inl ⟨rfl, h⟩
  · rcases eq_or_ne o' o with rfl | hne
    · obtain ⟨rfl, hcalled⟩ := hreceives.1 rfl
      have hpos : r.outstanding ≠ 0 := by
        rw [h.outstanding]
        exact Nat.pos_iff_ne_zero.mp (List.count_pos_iff.mpr hmem)
      refine Or.inr ⟨.completed n data, _, if_pos rfl, ⟨.complete n data, if_neg hpos⟩, ?_⟩
      rw [hcalled]
      exact h.complete n data _
    · refine Or.inl ⟨if_neg hne, ?_⟩
      exact ((h.dequeue_of_ne hne.symm d n data).withPool _).dispatched_of_ne (hreceives.2 hne)

end Tracks

/-- In a run of the port whose events all meet `Receives o`, the socket `o` goes through
a run of its receiver. -/
theorem receiver_of_port {s₀ : Iocp Obj} {tr : List (IocpEvent Obj)}
    (h₀ : (iocpSystem Obj X).init s₀) (hpath : (iocpSystem Obj X).Path s₀ tr s)
    (hreceives : ∀ e ∈ tr, e.Receives o) :
    ∃ r, (receiveSystem X (s₀.sockets o)).Run (tr.filterMap (IocpEvent.receive? o)) r ∧
      Tracks o s r := by
  induction hpath with
  | refl =>
      obtain ⟨sockets, -, rfl⟩ := h₀
      exact ⟨_, ⟨_, rfl, System.Path.refl _⟩, rfl, rfl⟩
  | tail hpath hstep ih =>
      obtain ⟨hbefore, hlast⟩ := List.forall_mem_append.mp hreceives
      obtain ⟨r, hrun, htracks⟩ := ih hbefore
      rw [List.filterMap_append]
      rcases htracks.step hstep (hlast _ List.mem_cons_self) with
        ⟨hnone, htracks'⟩ | ⟨ev, r', hev, hstep', htracks'⟩
      · rw [List.filterMap_cons_none hnone, List.filterMap_nil, List.append_nil]
        exact ⟨r, hrun, htracks'⟩
      · rw [List.filterMap_cons_some hev, List.filterMap_nil]
        exact ⟨r', hrun.snoc hstep', htracks'⟩

end Port

end Qing
