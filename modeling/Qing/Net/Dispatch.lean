import Mathlib.Data.List.Range
import Qing.Net.Readiness

/-!
# The loop of `poll` over epoll and over kqueue

`poll` in these versions, over what the wait call returns and over the array of the events.
The wait call returns -1 or a number of entries, and `poll` keeps that in a `uint32_t`. A
trace has the turns of the loop, that is the entries that are read with the calls of
handlers that each gives rise to. `Dispatches` says what they should be.
-/

namespace Qing

def maxEventSize : ℕ := 256

def eintr : Int32 := 4

/-- `_events`, an array of `MAX_EVENT_SIZE` entries. -/
structure EventArray (ε : Type*) where
  entries : List ε
  length_eq : entries.length = maxEventSize

/-- How a call of `epoll_wait` or `kevent` for `MAX_EVENT_SIZE` events ends. -/
inductive WaitResult
  | failed (errno : Int32)
  | returned (n : Fin (maxEventSize + 1))

namespace WaitResult

def value : WaitResult → Int32
  | failed _ => -1
  | returned n => Int32.ofNat n

def errno : WaitResult → Option Int32
  | failed errno => some errno
  | returned _ => none

def count : WaitResult → ℕ
  | failed _ => 0
  | returned n => n

theorem toNat_value_returned (n : Fin (maxEventSize + 1)) :
    (returned n).value.toUInt32.toNat = n := by
  have hn : (n : ℕ) < 257 := n.isLt
  rw [value, Int32.toUInt32_ofNat', UInt32.toNat_ofNat']
  omega

end WaitResult

/-- A turn of the loop of `poll`: the index of the entry that is read, and the calls. -/
structure Turn (Obj : Type*) where
  index : ℕ
  called : List (Obj × Handler)

/-- What `poll` does. No value is returned if an entry is read that is not in the array,
which is undefined. -/
structure PollTrace (Obj : Type*) where
  turns : List (Turn Obj)
  ret : Option Bool

variable {ε Obj : Type*}

/-! ## `poll` -/

/-- An event as `epoll_wait` returns it. -/
structure EpollEvent (Obj : Type*) where
  ptr : Option Obj
  events : UInt32

/-- A `struct kevent`. -/
structure KqueueEvent (Obj : Type*) where
  ident : Socket
  filter : Int16
  flags : UInt16
  udata : Option Obj

def evEof : UInt16 := 32768
def evError : UInt16 := 16384

def EpollEvent.has (e : EpollEvent Obj) (flag : UInt32) : Bool := e.events &&& flag != 0

def KqueueEvent.has (e : KqueueEvent Obj) (flag : UInt16) : Bool := e.flags &&& flag != 0

def EpollEvent.called (e : EpollEvent Obj) : List (Obj × Handler) :=
  match e.ptr with
  | none => []
  | some baseSocket => (Epoll.handlers e.events).map fun handler => (baseSocket, handler)

def KqueueEvent.kevent (e : KqueueEvent Obj) : Kevent :=
  ⟨e.ident, e.filter, e.has evEof || e.has evError⟩

def KqueueEvent.called (e : KqueueEvent Obj) : List (Obj × Handler) :=
  match e.udata with
  | none => []
  | some baseSocket => (Kqueue.handlers e.kevent).map fun handler => (baseSocket, handler)

namespace Poller

def loop (called : ε → List (Obj × Handler)) (events : EventArray ε) :
    (remaining i : ℕ) → PollTrace Obj
  | 0, _ => ⟨[], some true⟩
  | remaining + 1, i =>
      match events.entries[i]? with
      | none => ⟨[⟨i, []⟩], none⟩
      | some e =>
          let rest := loop called events remaining (i + 1)
          ⟨⟨i, called e⟩ :: rest.turns, rest.ret⟩

def epollPoll (wait : WaitResult) (events : EventArray (EpollEvent Obj)) : PollTrace Obj :=
  let result := wait.value.toUInt32
  -- `result` is unsigned
  if result < 0 then
    if wait.errno = some eintr then ⟨[], some true⟩ else ⟨[], some false⟩
  else if result = 0 then ⟨[], some true⟩
  else loop EpollEvent.called events result.toNat 0

def kqueuePoll (wait : WaitResult) (events : EventArray (KqueueEvent Obj)) : PollTrace Obj :=
  let result := wait.value.toUInt32
  -- -1 is converted to what `result` is
  if result = (-1 : Int32).toUInt32 then ⟨[], some false⟩
  else if result = 0 then ⟨[], some true⟩
  else loop KqueueEvent.called events result.toNat 0

/-! ## The turns -/

theorem loop_eq (called : ε → List (Obj × Handler)) (events : EventArray ε) (remaining i : ℕ)
    (h : i + remaining ≤ maxEventSize) :
    loop called events remaining i =
      ⟨(((events.entries.drop i).take remaining).zipIdx i).map fun r => ⟨r.2, called r.1⟩,
        some true⟩ := by
  induction remaining generalizing i with
  | zero => simp [loop]
  | succ remaining ih =>
      have hi : i < events.entries.length := by
        rw [events.length_eq]
        omega
      rw [loop, List.getElem?_eq_getElem hi, ih (i + 1) (by omega), List.drop_eq_getElem_cons hi,
        List.take_succ_cons, List.zipIdx_cons, List.map_cons]

theorem loop_beyond (called : ε → List (Obj × Handler)) (events : EventArray ε)
    (remaining i : ℕ) (hi : i ≤ maxEventSize) (h : maxEventSize < i + remaining) :
    loop called events remaining i =
      ⟨((events.entries.drop i).zipIdx i).map (fun r => ⟨r.2, called r.1⟩) ++
        [⟨maxEventSize, []⟩], none⟩ := by
  induction remaining generalizing i with
  | zero => exact absurd h (by omega)
  | succ remaining ih =>
      rcases hi.eq_or_lt with rfl | hlt
      · have hlen := le_of_eq events.length_eq
        rw [loop, List.getElem?_eq_none hlen, List.drop_of_length_le hlen]
        rfl
      · have hi' : i < events.entries.length := by rwa [events.length_eq]
        rw [loop, List.getElem?_eq_getElem hi', ih (i + 1) hlt (by omega),
          List.drop_eq_getElem_cons hi', List.zipIdx_cons, List.map_cons, List.cons_append]

/-- The trace in which the entries that were returned are served in order. -/
def served (called : ε → List (Obj × Handler)) (events : EventArray ε) (n : ℕ) : PollTrace Obj :=
  ⟨((events.entries.take n).zipIdx).map fun r => ⟨r.2, called r.1⟩, some true⟩

theorem served_of_value_eq_zero (called : ε → List (Obj × Handler)) (events : EventArray ε)
    {n : Fin (maxEventSize + 1)} (h : (WaitResult.returned n).value.toUInt32 = 0) :
    served called events n = ⟨[], some true⟩ := by
  have hn : (n : ℕ) = 0 := by
    rw [← WaitResult.toNat_value_returned, h]
    rfl
  rw [served, hn]
  rfl

theorem loop_returned (called : ε → List (Obj × Handler)) (events : EventArray ε)
    (n : Fin (maxEventSize + 1)) :
    loop called events (WaitResult.returned n).value.toUInt32.toNat 0 =
      served called events n := by
  rw [WaitResult.toNat_value_returned, loop_eq called events n 0 (by omega), served,
    List.drop_zero]

theorem epollPoll_returned (n : Fin (maxEventSize + 1)) (events : EventArray (EpollEvent Obj)) :
    epollPoll (.returned n) events = served EpollEvent.called events n := by
  have hnot : ¬(WaitResult.returned n).value.toUInt32 < 0 := UInt32.not_lt_zero
  rw [epollPoll, if_neg hnot]
  split_ifs with hzero
  · exact (served_of_value_eq_zero _ events hzero).symm
  · exact loop_returned _ events n

theorem kqueuePoll_returned (n : Fin (maxEventSize + 1)) (events : EventArray (KqueueEvent Obj)) :
    kqueuePoll (.returned n) events = served KqueueEvent.called events n := by
  have hnot : (WaitResult.returned n).value.toUInt32 ≠ (-1 : Int32).toUInt32 := by
    intro heq
    have hn := n.isLt
    rw [← WaitResult.toNat_value_returned, heq] at hn
    exact absurd hn (by decide)
  rw [kqueuePoll, if_neg hnot]
  split_ifs with hzero
  · exact (served_of_value_eq_zero _ events hzero).symm
  · exact loop_returned _ events n

/-- After a failed wait -1 is a number of entries over epoll: what the array holds is served,
and it is read beyond its end. -/
theorem epollPoll_failed (errno : Int32) (events : EventArray (EpollEvent Obj)) :
    epollPoll (.failed errno) events =
      ⟨events.entries.zipIdx.map (fun r => ⟨r.2, r.1.called⟩) ++ [⟨maxEventSize, []⟩], none⟩ := by
  have hnot : ¬(WaitResult.failed errno).value.toUInt32 < 0 := UInt32.not_lt_zero
  have hzero : (WaitResult.failed errno).value.toUInt32 ≠ 0 := by
    rw [WaitResult.value]
    decide
  have hmany : maxEventSize < 0 + (WaitResult.failed errno).value.toUInt32.toNat := by
    rw [WaitResult.value]
    decide
  rw [epollPoll, if_neg hnot, if_neg hzero, loop_beyond _ events _ 0 (Nat.zero_le _) hmany,
    List.drop_zero]

theorem kqueuePoll_failed (errno : Int32) (events : EventArray (KqueueEvent Obj)) :
    kqueuePoll (.failed errno) events = ⟨[], some false⟩ := rfl

end Poller

/-! ## The calls of a run -/

/-- The calls of handlers in a call of the poller, for each socket that was reported. -/
def PollerCall.turns : PollerCall → List (List (Socket × Handler))
  | .poll called => called.map fun c => c.2.map fun handler => (c.1, handler)
  | _ => []

theorem Poller.map_called_served (called : ε → List (Obj × Handler)) (events : EventArray ε)
    (n : ℕ) : (served called events n).turns.map Turn.called =
      (events.entries.take n).map called := by
  have hfst := List.zipIdx_map_fst 0 (events.entries.take n)
  rw [served, List.map_map]
  conv_rhs => rw [← hfst, List.map_map]
  rfl

/-- The loop makes the calls that a `poll` of the run makes, if the entries returned are the
events reported. -/
theorem Epoll.turns_poll (k : Epoll) (reported : List (Socket × UInt32))
    (events : EventArray (EpollEvent Socket)) (n : Fin (maxEventSize + 1))
    (h : events.entries.take n = reported.map fun r => ⟨some r.1, r.2⟩) :
    (Poller.epollPoll (.returned n) events).turns.map Turn.called = (k.poll reported).2.turns := by
  rw [Poller.epollPoll_returned, Poller.map_called_served, h, poll, PollerCall.turns,
    List.map_map, List.map_map]
  rfl

theorem Kqueue.turns_poll (k : Kqueue) (events : EventArray (KqueueEvent Socket))
    (n : Fin (maxEventSize + 1)) (h : ∀ e ∈ events.entries.take n, e.udata = some e.ident) :
    (Poller.kqueuePoll (.returned n) events).turns.map Turn.called =
      (k.poll ((events.entries.take n).map KqueueEvent.kevent)).2.turns := by
  rw [Poller.kqueuePoll_returned, Poller.map_called_served, poll, PollerCall.turns,
    List.map_map, List.map_map]
  refine List.map_congr_left fun e he => ?_
  rw [KqueueEvent.called, h e he]
  rfl

/-! ## What the turns should be -/

/-- The calls for an entry: none without an object; with one, `onRead` once if the entry is
readable and `onWrite` once if it is writable, on that object. -/
def Answers (object : Option Obj) (readable writable : Bool) (called : List (Obj × Handler)) :
    Prop :=
  match object with
  | none => called = []
  | some o =>
      (∀ call ∈ called, call.1 = o) ∧
        (called.map Prod.snd).count .onRead = readable.toNat ∧
        (called.map Prod.snd).count .onWrite = writable.toNat

/-- The entries that the wait call has filled in are read, each once and in order, and no
other is; each is answered. -/
structure Dispatches (answers : ε → List (Obj × Handler) → Prop) (events : EventArray ε)
    (wait : WaitResult) (trace : PollTrace Obj) : Prop where
  indices : trace.turns.map Turn.index = List.range wait.count
  answered : ∀ turn ∈ trace.turns, ∀ e, events.entries[turn.index]? = some e →
    answers e turn.called

/-- An end of file or an error is for the reader. -/
def EpollEvent.Answered (e : EpollEvent Obj) : List (Obj × Handler) → Prop :=
  Answers e.ptr (e.has epollIn || e.has epollErr || e.has epollHup) (e.has epollOut)

def KqueueEvent.Answered (e : KqueueEvent Obj) : List (Obj × Handler) → Prop :=
  Answers e.udata (e.filter == evfiltRead || e.has evEof || e.has evError)
    (e.filter == evfiltWrite)

theorem dispatches_served_iff (answers : ε → List (Obj × Handler) → Prop)
    (called : ε → List (Obj × Handler)) (events : EventArray ε) (n : Fin (maxEventSize + 1)) :
    Dispatches answers events (.returned n) (Poller.served called events n) ↔
      ∀ e ∈ events.entries.take n, answers e (called e) := by
  have hindices : (Poller.served called events n).turns.map Turn.index = List.range n := by
    have hlen : (events.entries.take n).length = n := by
      rw [List.length_take, events.length_eq]
      omega
    rw [Poller.served, List.map_map]
    change ((events.entries.take n).zipIdx).map Prod.snd = _
    rw [List.zipIdx_map_snd, hlen, List.range_eq_range']
  constructor
  · rintro ⟨-, h⟩ e he
    obtain ⟨i, hi, rfl⟩ := List.mem_iff_getElem.mp he
    have hmem : (⟨i, called (events.entries.take n)[i]⟩ : Turn Obj) ∈
        (Poller.served called events n).turns :=
      List.mem_map.mpr ⟨_, List.mk_mem_zipIdx_iff_getElem?.mpr (List.getElem?_eq_getElem hi), rfl⟩
    rw [List.length_take] at hi
    refine h _ hmem _ ?_
    rw [List.getElem_take, List.getElem?_eq_getElem]
  · refine fun h => ⟨hindices, fun turn hturn e he => ?_⟩
    obtain ⟨⟨e', i⟩, hmem, rfl⟩ := List.mem_map.mp hturn
    have hentry := List.mk_mem_zipIdx_iff_getElem?.mp hmem
    have hget := List.mem_of_getElem? hentry
    obtain rfl : e' = e := by
      rw [List.getElem?_take] at hentry
      split_ifs at hentry
      exact Option.some.inj (hentry.symm.trans he)
    exact h e' hget

theorem answers_map_iff (o : Obj) (handlers : List Handler) (readable writable : Bool) :
    Answers (some o) readable writable (handlers.map fun handler => (o, handler)) ↔
      handlers.count .onRead = readable.toNat ∧ handlers.count .onWrite = writable.toNat := by
  have hobject : ∀ call ∈ handlers.map fun handler => (o, handler), call.1 = o := by
    intro call hcall
    obtain ⟨handler, -, rfl⟩ := List.mem_map.mp hcall
    rfl
  have hsnd : (handlers.map fun handler => (o, handler)).map Prod.snd = handlers := by
    rw [List.map_map]
    exact List.map_id handlers
  rw [Answers, hsnd]
  exact and_iff_right hobject

theorem Epoll.count_handlers (events : UInt32) :
    (handlers events).count .onRead = (events &&& epollIn != 0).toNat ∧
      (handlers events).count .onWrite =
        (!(events &&& epollIn != 0) && (events &&& epollOut != 0)).toNat := by
  by_cases hin : events &&& epollIn = 0
  · by_cases hout : events &&& epollOut = 0
    · simp [handlers, hin, hout]
    · simp [handlers, hin, hout, bne_iff_ne.mpr hout]
  · simp [handlers, hin, bne_iff_ne.mpr hin]

theorem Kqueue.count_handlers (event : Kevent) :
    (handlers event).count .onRead =
        event.eofOrError.toNat + (event.filter == evfiltRead).toNat ∧
      (handlers event).count .onWrite = (event.filter == evfiltWrite).toNat := by
  have hfilters : (evfiltRead == evfiltWrite) = false := by decide
  have hfilters' : (evfiltWrite == evfiltRead) = false := by decide
  obtain ⟨ident, filter, eofOrError⟩ := event
  by_cases hread : filter = evfiltRead
  · subst hread
    cases eofOrError <;> simp [handlers, hfilters]
  · have hread' : (filter == evfiltRead) = false := beq_eq_false_iff_ne.mpr hread
    by_cases hwrite : filter = evfiltWrite
    · subst hwrite
      cases eofOrError <;> simp [handlers, hread, hfilters']
    · have hwrite' : (filter == evfiltWrite) = false := beq_eq_false_iff_ne.mpr hwrite
      cases eofOrError <;> simp [handlers, hread, hwrite, hread', hwrite']

theorem EpollEvent.answered_called_iff (e : EpollEvent Obj) :
    e.Answered e.called ↔
      (e.ptr ≠ none → (e.has epollIn = true → e.has epollOut = false) ∧
        (e.has epollIn = false → e.has epollErr = false ∧ e.has epollHup = false)) := by
  have hread : (Epoll.handlers e.events).count .onRead = (e.has epollIn).toNat :=
    (Epoll.count_handlers e.events).1
  have hwrite : (Epoll.handlers e.events).count .onWrite =
      (!e.has epollIn && e.has epollOut).toNat := (Epoll.count_handlers e.events).2
  rw [Answered, called]
  cases e.ptr with
  | none => exact iff_of_true rfl fun h => absurd rfl h
  | some o =>
      rw [answers_map_iff, hread, hwrite]
      cases e.has epollIn <;> cases e.has epollOut <;> cases e.has epollErr <;>
        cases e.has epollHup <;> simp

theorem KqueueEvent.answered_called_iff (e : KqueueEvent Obj) :
    e.Answered e.called ↔
      (e.udata ≠ none → e.filter = evfiltRead → e.has evEof = false ∧ e.has evError = false) := by
  obtain ⟨hread, hwrite⟩ := Kqueue.count_handlers e.kevent
  rw [Answered, called]
  cases e.udata with
  | none => exact iff_of_true rfl fun h => absurd rfl h
  | some o =>
      rw [answers_map_iff, hread, hwrite, kevent, ← beq_iff_eq (a := e.filter)]
      cases e.filter == evfiltRead <;> cases e.has evEof <;> cases e.has evError <;> simp

namespace Poller

/-- Over epoll the events are dispatched exactly if the wait does not fail and each entry
that it returns, with an object, is readable and not writable, or not readable and without
an error or a hangup. Over kqueue they are exactly if no entry, with an object, is readable
at the end of the file or with an error. -/
theorem dispatches_iff (wait : WaitResult) (epoll : EventArray (EpollEvent Obj))
    (kqueue : EventArray (KqueueEvent Obj)) :
    (Dispatches EpollEvent.Answered epoll wait (epollPoll wait epoll) ↔
      (∃ n, wait = .returned n) ∧ ∀ e ∈ epoll.entries.take wait.count, e.ptr ≠ none →
        (e.has epollIn = true → e.has epollOut = false) ∧
          (e.has epollIn = false → e.has epollErr = false ∧ e.has epollHup = false)) ∧
    (Dispatches KqueueEvent.Answered kqueue wait (kqueuePoll wait kqueue) ↔
      ∀ e ∈ kqueue.entries.take wait.count, e.udata ≠ none →
        e.filter = evfiltRead → e.has evEof = false ∧ e.has evError = false) := by
  cases wait with
  | failed errno =>
      constructor
      · rw [epollPoll_failed]
        refine iff_of_false (fun h => ?_) ?_
        · have hnil := List.map_eq_nil_iff.mp h.indices
          exact List.append_ne_nil_of_right_ne_nil _ (List.cons_ne_nil _ _) hnil
        · rintro ⟨⟨n, hn⟩, -⟩
          cases hn
      · rw [kqueuePoll_failed]
        refine iff_of_true ⟨rfl, fun turn hturn => ?_⟩ fun e he => ?_
        · cases hturn
        · cases he
  | returned n =>
      rw [epollPoll_returned, kqueuePoll_returned, dispatches_served_iff, dispatches_served_iff]
      constructor
      · rw [and_iff_right ⟨n, rfl⟩]
        exact forall₂_congr fun e _ => e.answered_called_iff
      · exact forall₂_congr fun e _ => e.answered_called_iff

/-- An entry for a socket of which reading and writing are both possible. -/
theorem not_dispatches :
    ¬ ∀ (Obj : Type) (wait : WaitResult) (epoll : EventArray (EpollEvent Obj))
        (kqueue : EventArray (KqueueEvent Obj)),
      Dispatches EpollEvent.Answered epoll wait (epollPoll wait epoll) ∧
        Dispatches KqueueEvent.Answered kqueue wait (kqueuePoll wait kqueue) := by
  intro hall
  let e : EpollEvent Unit := ⟨some (), 5⟩
  have hlen : (e :: List.replicate 255 ⟨none, 0⟩).length = maxEventSize := by
    rw [List.length_cons, List.length_replicate]
    rfl
  let epoll : EventArray (EpollEvent Unit) := ⟨_, hlen⟩
  let kqueue : EventArray (KqueueEvent Unit) :=
    ⟨List.replicate 256 ⟨0, 0, 0, none⟩, List.length_replicate⟩
  have hdispatches := (hall Unit (.returned 1) epoll kqueue).1
  rw [epollPoll_returned, dispatches_served_iff] at hdispatches
  have hcalled := e.answered_called_iff.mp (hdispatches e List.mem_cons_self)
  exact absurd ((hcalled (Option.some_ne_none _)).1 (by decide)) (by decide)

end Poller

end Qing
