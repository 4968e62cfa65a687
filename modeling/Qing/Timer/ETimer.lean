import Mathlib.Data.Nat.Notation
import Mathlib.Data.Int.Notation
import Mathlib.Tactic.Common
import Mathlib.Tactic.Ring

/-!
# One timer

`ETimer` is the record the engine keeps for a timer, with the fields its code
reads. Its times are in microseconds, while `startclock` is in the ticks of
`getClock`; `getIntervalMacroSecs` converts a difference of ticks, in wrapping
64-bit arithmetic. The wrap can make a due timer look early but never the other
way round, which is `mul_le_of_due`.
-/

namespace Qing

/-- A timer of the engine. `fp` stands for the callback, which the engine only
ever stores and calls. -/
structure ETimer (Fp : Type*) where
  interval : UInt64
  leftsecs : UInt64
  startclock : UInt64
  timerId : ℤ
  runOnce : Bool
  needDelete : Bool := false
  fp : Fp

/-- The unit of an `interval_time`: `Register` counts seconds and
`RegisterByMilSec` milliseconds. -/
inductive IntervalUnit
  | sec
  | milsec
  deriving DecidableEq, Repr

def IntervalUnit.us : IntervalUnit → ℕ
  | sec => 1000000
  | milsec => 1000

/-- The interval asked for, in microseconds and in exact integers. The `int`
argument is read as the `uint32_t` it is passed as. -/
def intervalUs (unit : IntervalUnit) (intervalTime : Int32) : ℕ :=
  intervalTime.toUInt32.toNat * unit.us

namespace ETimer

variable {Fp : Type*}

/-- The local `timer` of `Register` before it is opened; the three times are not
read before `openWith` writes them. -/
def declare (runOnce : Bool) (timerId : ℤ) (fp : Fp) : ETimer Fp :=
  { interval := 0, leftsecs := 0, startclock := 0, timerId, runOnce, fp }

/-- The common body of `open_sec` and `open_milsec`. -/
def openWith (us : UInt64) (timer : ETimer Fp) (interval : UInt32) (fp : Fp)
    (nowClock : UInt64) : ETimer Fp :=
  { timer with
    interval := interval.toUInt64 * us
    leftsecs := interval.toUInt64 * us
    startclock := nowClock
    fp }

def openSec (timer : ETimer Fp) (intervalSec : UInt32) (fp : Fp) (nowClock : UInt64) :
    ETimer Fp :=
  timer.openWith 1000000 intervalSec fp nowClock

def openMilsec (timer : ETimer Fp) (intervalMilsec : UInt32) (fp : Fp) (nowClock : UInt64) :
    ETimer Fp :=
  timer.openWith 1000 intervalMilsec fp nowClock

/-- The timer as `Register` and `RegisterByMilSec` open it. -/
def opened (unit : IntervalUnit) (timer : ETimer Fp) (intervalTime : Int32) (fp : Fp)
    (nowClock : UInt64) : ETimer Fp :=
  match unit with
  | .sec => timer.openSec intervalTime.toUInt32 fp nowClock
  | .milsec => timer.openMilsec intervalTime.toUInt32 fp nowClock

def mark (timer : ETimer Fp) : ETimer Fp := { timer with needDelete := true }

/-- What `Update` writes into an entry after its callback returned. -/
def rearm (nowClock : UInt64) (timer : ETimer Fp) : ETimer Fp :=
  { timer with leftsecs := timer.interval, startclock := nowClock }

end ETimer

/-- Microseconds between two clock readings, the clock ticking `countTick` times a
second. -/
def getIntervalMacroSecs (countTick endClock startClock : UInt64) : UInt64 :=
  (endClock - startClock) * 1000000 / countTick

namespace ETimer

variable {Fp : Type*}

/-- The test `Update` makes before it calls the callback. -/
def due (countTick nowClock : UInt64) (timer : ETimer Fp) : Bool :=
  decide (timer.leftsecs ≤ getIntervalMacroSecs countTick nowClock timer.startclock)

theorem opened_eq_openWith (unit : IntervalUnit) (timer : ETimer Fp) (i : Int32) (fp : Fp)
    (c : UInt64) :
    ∃ us : UInt64, us.toNat = unit.us ∧
      timer.opened unit i fp c = timer.openWith us i.toUInt32 fp c := by
  cases unit with
  | sec => exact ⟨1000000, rfl, rfl⟩
  | milsec => exact ⟨1000, rfl, rfl⟩

section Opened

variable (unit : IntervalUnit) (timer : ETimer Fp) (i : Int32) (fp : Fp) (c : UInt64)

@[simp] theorem opened_timerId : (timer.opened unit i fp c).timerId = timer.timerId := by
  obtain ⟨us, -, h⟩ := opened_eq_openWith unit timer i fp c
  rw [h, openWith]

@[simp] theorem opened_runOnce : (timer.opened unit i fp c).runOnce = timer.runOnce := by
  obtain ⟨us, -, h⟩ := opened_eq_openWith unit timer i fp c
  rw [h, openWith]

@[simp] theorem opened_needDelete :
    (timer.opened unit i fp c).needDelete = timer.needDelete := by
  obtain ⟨us, -, h⟩ := opened_eq_openWith unit timer i fp c
  rw [h, openWith]

@[simp] theorem opened_startclock : (timer.opened unit i fp c).startclock = c := by
  obtain ⟨us, -, h⟩ := opened_eq_openWith unit timer i fp c
  rw [h, openWith]

@[simp] theorem opened_fp : (timer.opened unit i fp c).fp = fp := by
  obtain ⟨us, -, h⟩ := opened_eq_openWith unit timer i fp c
  rw [h, openWith]

@[simp] theorem opened_leftsecs :
    (timer.opened unit i fp c).leftsecs = (timer.opened unit i fp c).interval := by
  obtain ⟨us, -, h⟩ := opened_eq_openWith unit timer i fp c
  rw [h, openWith]

theorem toNat_mul_us {i : UInt32} {us : UInt64} (h : us.toNat ≤ 1000000) :
    (i.toUInt64 * us).toNat = i.toNat * us.toNat := by
  have hle : i.toNat * us.toNat ≤ (2 ^ 32 - 1) * 1000000 :=
    Nat.mul_le_mul (Nat.le_pred_of_lt i.toNat_lt) h
  rw [UInt64.toNat_mul, UInt32.toNat_toUInt64]
  exact Nat.mod_eq_of_lt (lt_of_le_of_lt hle (by decide))

theorem opened_interval :
    (timer.opened unit i fp c).interval.toNat = intervalUs unit i := by
  obtain ⟨us, hus, h⟩ := opened_eq_openWith unit timer i fp c
  have hle : us.toNat ≤ 1000000 := by
    rw [hus]
    cases unit <;> decide
  rw [h, openWith, intervalUs, ← hus]
  exact toNat_mul_us hle

end Opened

theorem toNat_getIntervalMacroSecs (countTick endClock startClock : UInt64) :
    (getIntervalMacroSecs countTick endClock startClock).toNat =
      (endClock - startClock).toNat * 1000000 % 2 ^ 64 / countTick.toNat := by
  rw [getIntervalMacroSecs, UInt64.toNat_div, UInt64.toNat_mul]
  rfl

/-- A timer that passes the test of `Update` is due in exact integers, whatever
wrapped on the way. -/
theorem mul_le_of_due {countTick nowClock : UInt64} {timer : ETimer Fp}
    (hclock : timer.startclock ≤ nowClock) (h : timer.due countTick nowClock = true) :
    timer.leftsecs.toNat * countTick.toNat ≤
      (nowClock.toNat - timer.startclock.toNat) * 1000000 := by
  have hle : timer.leftsecs.toNat ≤
      (nowClock - timer.startclock).toNat * 1000000 % 2 ^ 64 / countTick.toNat := by
    rw [← toNat_getIntervalMacroSecs]
    exact UInt64.le_iff_toNat_le.mp (of_decide_eq_true h)
  calc timer.leftsecs.toNat * countTick.toNat
      ≤ (nowClock - timer.startclock).toNat * 1000000 % 2 ^ 64 :=
        (Nat.mul_le_mul_right _ hle).trans (Nat.div_mul_le_self _ _)
    _ ≤ (nowClock - timer.startclock).toNat * 1000000 := Nat.mod_le _ _
    _ = (nowClock.toNat - timer.startclock.toNat) * 1000000 := by
        rw [UInt64.toNat_sub_of_le _ _ hclock]

end ETimer

end Qing
