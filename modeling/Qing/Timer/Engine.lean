import Mathlib.Logic.Function.Basic
import Mathlib.Order.Lattice
import Qing.Lib.OrderedMap
import Qing.Lib.RecursiveMutex
import Qing.Lib.Transition
import Qing.Timer.ETimer

/-!
# The timer engine as threads run it

`TimerThread` holds the two tables, their two recursive mutexes, the id counter
and the latest clock reading; a `State` adds where each thread stands in the code.
A step of a thread is one mutex operation, or the code between two of them:
`CallPc.next` for the code of `Register` and `UnRegister`, `UpdatePc.next` for
that of `Update`. A callback is any code that does not call `Update`, which the recursive
mutexes would let it do: while one runs, its thread may call `Register`,
`RegisterByMilSec` and `UnRegister`, or return from it.

What the outside decides is part of the action: which thread moves, what
`get_clock` reads (never less than before), and whether a `try_lock` takes the
mutex. A failing `try_lock` is allowed at any time, a successful one only when no
other thread owns the mutex. Incrementing `_cur_timer_id` past `INT_MAX` is
undefined in the source, so no step does it.
-/

namespace Qing

abbrev ThreadId := ℕ

/-- The two tables, `_timers1` and `_timers2`. -/
inductive Tab
  | timers1
  | timers2
  deriving DecidableEq, Repr

def Tab.other : Tab → Tab
  | timers1 => timers2
  | timers2 => timers1

abbrev TimerMap (Fp : Type*) := OrderedMap ℤ (ETimer Fp)

structure TimerThread (Fp : Type*) where
  timers : Tab → TimerMap Fp
  mutex : Tab → RecursiveMutex ThreadId
  curTimerId : ℤ
  clock : UInt64

/-- Where a thread stands in `Register` or `UnRegister`. -/
inductive CallPc (Fp : Type*)
  /-- The id is taken; the clock is read next and the timer opened. -/
  | opening (unit : IntervalUnit) (intervalTime : Int32) (timer : ETimer Fp)
  /-- In the `do` loop of `Register`, at the `try_lock` of one table. -/
  | tryLock (tab : Tab) (timer : ETimer Fp)
  | inserting (tab : Tab) (timer : ETimer Fp)
  | unlocking (tab : Tab) (timer : ETimer Fp)
  /-- At `return _cur_timer_id`, with the local `timer` still in scope. -/
  | returning (timer : ETimer Fp)
  /-- In `UnRegister`, at the lock of one table. -/
  | locking (tab : Tab) (timerId : ℤ)
  | finding (tab : Tab) (timerId : ℤ)
  /-- At the end of the scope of the lock; `found` says that `return` was reached. -/
  | leaving (tab : Tab) (timerId : ℤ) (found : Bool)

/-- Where a thread stands in `Update`; the iterator of a loop is the key it stands
on. -/
inductive UpdatePc
  | outside
  | locking (tab : Tab)
  | looping (tab : Tab) (it : Option ℤ)
  /-- The callback of the entry `timerId` is running. -/
  | callback (tab : Tab) (timerId : ℤ)
  /-- The callback has returned; the entry is reset next. -/
  | rearming (tab : Tab) (timerId : ℤ)

/-- Where a thread stands: in `Update` or not, and in a call made directly or by
the callback that `Update` is running. -/
structure Local (Fp : Type*) where
  update : UpdatePc := .outside
  call : Option (CallPc Fp) := none

structure State (Fp : Type*) where
  engine : TimerThread Fp
  loc : ThreadId → Local Fp

/-- What a step of a thread does that a reader of its history can see. -/
inductive Event (Fp : Type*)
  | internal
  /-- `++_cur_timer_id` gave `timerId` to the call of thread `t`. -/
  | took (t : ThreadId) (timerId : ℤ)
  /-- A timer of `us` microseconds was opened, its clock being read. -/
  | opened (t : ThreadId) (timer : ETimer Fp) (us : ℕ)
  | inserted (t : ThreadId) (tab : Tab) (timer : ETimer Fp)
  | registerReturned (t : ThreadId) (timer : ETimer Fp) (value : ℤ)
  | unRegisterCalled (t : ThreadId) (timerId : ℤ)
  | marked (t : ThreadId) (tab : Tab) (timerId : ℤ)
  | unRegisterReturned (t : ThreadId) (timerId : ℤ)
  | updateCalled (t : ThreadId)
  | updateReturned (t : ThreadId)
  /-- A turn of a loop of `Update` that found the entry marked. -/
  | erased (t : ThreadId) (tab : Tab) (timerId : ℤ)
  /-- A turn that found the entry not due. -/
  | skipped (t : ThreadId) (tab : Tab) (timerId : ℤ) (now : UInt64)
  /-- A turn that found the entry due: its callback is called. -/
  | fired (t : ThreadId) (tab : Tab) (timerId : ℤ) (now : UInt64)
  /-- The end of a turn whose callback was called, `now` being read after it. -/
  | rearmed (t : ThreadId) (tab : Tab) (timerId : ℤ) (now : UInt64) (expired : Bool)

/-- What a thread is made to do next. -/
inductive Act (Fp : Type*)
  | register (unit : IntervalUnit) (runOnce : Bool) (intervalTime : Int32) (fp : Fp)
  | unRegister (timerId : ℤ)
  | update
  /-- The running callback returns. -/
  | callbackReturn
  /-- The thread runs its code up to the next point, `now` being what `get_clock`
  reads and `acquired` what `try_lock` answers. -/
  | run (now : UInt64) (acquired : Bool)

def intMax : ℤ := 2147483647

variable {Fp : Type*}

namespace TimerThread

def init : TimerThread Fp where
  timers _ := OrderedMap.empty
  mutex _ := .free
  curTimerId := 0
  clock := 0

def setTimers (g : TimerThread Fp) (tab : Tab) (m : TimerMap Fp) : TimerThread Fp :=
  { g with timers := Function.update g.timers tab m }

def lock (t : ThreadId) (tab : Tab) (g : TimerThread Fp) : Option (TimerThread Fp) :=
  ((g.mutex tab).lock t).map fun m => { g with mutex := Function.update g.mutex tab m }

def unlock (t : ThreadId) (tab : Tab) (g : TimerThread Fp) : Option (TimerThread Fp) :=
  ((g.mutex tab).unlock t).map fun m => { g with mutex := Function.update g.mutex tab m }

def getClock (now : UInt64) (g : TimerThread Fp) : Option (TimerThread Fp) :=
  if g.clock ≤ now then some { g with clock := now } else none

def insert (tab : Tab) (timer : ETimer Fp) (g : TimerThread Fp) : TimerThread Fp :=
  g.setTimers tab ((g.timers tab).insert timer.timerId timer)

def mark (tab : Tab) (timerId : ℤ) (g : TimerThread Fp) : TimerThread Fp :=
  g.setTimers tab ((g.timers tab).modify timerId ETimer.mark)

def erase (tab : Tab) (timerId : ℤ) (g : TimerThread Fp) : TimerThread Fp :=
  g.setTimers tab ((g.timers tab).erase timerId)

def rearm (tab : Tab) (timerId : ℤ) (now : UInt64) (g : TimerThread Fp) : TimerThread Fp :=
  g.setTimers tab ((g.timers tab).modify timerId (ETimer.rearm now))

section Lookup

variable (g : TimerThread Fp) (tab tab' : Tab) (k j : ℤ)

theorem find?_setTimers (m : TimerMap Fp) :
    ((g.setTimers tab m).timers tab').find? j =
      if tab' = tab then m.find? j else (g.timers tab').find? j := by
  simp only [setTimers, Function.update_apply]
  split_ifs <;> rfl

theorem find?_insert (timer : ETimer Fp) :
    ((g.insert tab timer).timers tab').find? j =
      if tab' = tab ∧ j = timer.timerId then
        some (((g.timers tab).find? timer.timerId).getD timer)
      else (g.timers tab').find? j := by
  rw [insert, find?_setTimers, OrderedMap.find?_insert]
  by_cases htab : tab' = tab <;> simp [htab]

theorem find?_mark :
    ((g.mark tab k).timers tab').find? j =
      if tab' = tab ∧ j = k then ((g.timers tab).find? k).map ETimer.mark
      else (g.timers tab').find? j := by
  rw [mark, find?_setTimers, OrderedMap.find?_modify]
  by_cases htab : tab' = tab <;> by_cases hk : j = k <;> simp [htab, hk]

theorem find?_erase :
    ((g.erase tab k).timers tab').find? j =
      if tab' = tab ∧ j = k then none else (g.timers tab').find? j := by
  rw [erase, find?_setTimers, OrderedMap.find?_erase]
  by_cases htab : tab' = tab <;> simp [htab]

theorem find?_rearm (now : UInt64) :
    ((g.rearm tab k now).timers tab').find? j =
      if tab' = tab ∧ j = k then ((g.timers tab).find? k).map (ETimer.rearm now)
      else (g.timers tab').find? j := by
  rw [rearm, find?_setTimers, OrderedMap.find?_modify]
  by_cases htab : tab' = tab <;> by_cases hk : j = k <;> simp [htab, hk]

end Lookup

end TimerThread

/-- The code of `Register(ETimer&)`, of `Register` and `RegisterByMilSec` around
it, and of `UnRegister`. The call returns when no position is left. -/
def CallPc.next (t : ThreadId) (now : UInt64) (acquired : Bool) (g : TimerThread Fp) :
    CallPc Fp → Option (TimerThread Fp × Option (CallPc Fp) × Event Fp)
  | opening unit intervalTime timer =>
      (g.getClock now).map fun g' =>
        let timer' := timer.opened unit intervalTime timer.fp now
        (g', some (tryLock .timers2 timer'), .opened t timer' (intervalUs unit intervalTime))
  | tryLock tab timer =>
      if acquired then
        (g.lock t tab).map fun g' => (g', some (inserting tab timer), .internal)
      else some (g, some (tryLock tab.other timer), .internal)
  | inserting tab timer =>
      some (g.insert tab timer, some (unlocking tab timer), .inserted t tab timer)
  | unlocking tab timer =>
      (g.unlock t tab).map fun g' => (g', some (returning timer), .internal)
  | returning timer => some (g, none, .registerReturned t timer g.curTimerId)
  | locking tab timerId =>
      (g.lock t tab).map fun g' => (g', some (finding tab timerId), .internal)
  | finding tab timerId =>
      if ((g.timers tab).find? timerId).isSome then
        some (g.mark tab timerId, some (leaving tab timerId true), .marked t tab timerId)
      else some (g, some (leaving tab timerId false), .internal)
  | leaving tab timerId found =>
      (g.unlock t tab).map fun g' =>
        if found || tab = .timers1 then (g', none, .unRegisterReturned t timerId)
        else (g', some (locking .timers1 timerId), .internal)

/-- The code of `Update`. There is no step from `callback`: the callback is not
code of the engine. -/
def UpdatePc.next (countTick : UInt64) (t : ThreadId) (now : UInt64) (g : TimerThread Fp) :
    UpdatePc → Option (TimerThread Fp × UpdatePc × Event Fp)
  | outside => none
  | locking tab =>
      (g.lock t tab).map fun g' => (g', looping tab (g'.timers tab).first?, .internal)
  | looping tab none =>
      (g.unlock t tab).map fun g' =>
        match tab with
        | .timers1 => (g', locking .timers2, .internal)
        | .timers2 => (g', outside, .updateReturned t)
  | looping tab (some k) =>
      ((g.timers tab).find? k).bind fun timer =>
        let it := (g.timers tab).next? k
        if timer.needDelete then some (g.erase tab k, looping tab it, .erased t tab k)
        else (g.getClock now).map fun g' =>
          if timer.due countTick now then (g', callback tab k, .fired t tab k now)
          else (g', looping tab it, .skipped t tab k now)
  | callback _ _ => none
  | rearming tab k =>
      ((g.timers tab).find? k).bind fun timer =>
        (g.getClock now).map fun g' =>
          let it := (g'.timers tab).next? k
          let g'' := g'.rearm tab k now
          (if timer.runOnce then g''.erase tab k else g'', looping tab it,
            .rearmed t tab k now timer.runOnce)

namespace Local

/-- Whether the thread is running code of its own, or of a callback, that can call
`Register` and `UnRegister`. -/
def canCall (l : Local Fp) : Bool :=
  l.call.isNone && match l.update with
    | .outside => true
    | .callback _ _ => true
    | _ => false

/-- One step of thread `t`, which stands at `l`. -/
def next (countTick : UInt64) (t : ThreadId) (g : TimerThread Fp) (l : Local Fp) :
    Act Fp → Option (TimerThread Fp × Local Fp × Event Fp)
  | .register unit runOnce intervalTime fp =>
      if l.canCall ∧ g.curTimerId < intMax then
        let timer := ETimer.declare runOnce (g.curTimerId + 1) fp
        some ({ g with curTimerId := g.curTimerId + 1 },
          { l with call := some (.opening unit intervalTime timer) },
          .took t (g.curTimerId + 1))
      else none
  | .unRegister timerId =>
      if l.canCall then
        some (g, { l with call := some (.locking .timers2 timerId) },
          .unRegisterCalled t timerId)
      else none
  | .update =>
      match l.call, l.update with
      | none, .outside => some (g, { l with update := .locking .timers1 }, .updateCalled t)
      | _, _ => none
  | .callbackReturn =>
      match l.call, l.update with
      | none, .callback tab k => some (g, { l with update := .rearming tab k }, .internal)
      | _, _ => none
  | .run now acquired =>
      match l.call with
      | some c => (c.next t now acquired g).map fun r => (r.1, { l with call := r.2.1 }, r.2.2)
      | none =>
          (l.update.next countTick t now g).map fun r =>
            (r.1, { l with update := r.2.1 }, r.2.2)

end Local

namespace State

def init : State Fp := ⟨TimerThread.init, fun _ => {}⟩

def put (s : State Fp) (t : ThreadId) (g : TimerThread Fp) (l : Local Fp) : State Fp :=
  ⟨g, Function.update s.loc t l⟩

def next (countTick : UInt64) (a : ThreadId × Act Fp) (s : State Fp) :
    Option (State Fp × Event Fp) :=
  ((s.loc a.1).next countTick a.1 s.engine a.2).map fun r => (s.put a.1 r.1 r.2.1, r.2.2)

end State

/-- The engine under every schedule of its threads. -/
def engineSystem (Fp : Type*) (countTick : UInt64) : System (State Fp) (Event Fp) :=
  System.ofNext (fun s => s = State.init) (State.next countTick)

end Qing
