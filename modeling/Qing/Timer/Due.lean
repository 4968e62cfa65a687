import Qing.Timer.ETimer

/-!
# Which due timers are seen

The test of `Update` is made on 64-bit words, and the product by 1000000 wraps before
the division by the tick frequency. `due_iff` says what the test compares. It agrees with
exact integers as long as the microticks that have passed fit in a word (`seen_of_fits`).
Past that it may still agree by chance, as what the wrap leaves grows with the clock again;
but a timer that is looked at at every tick is missed right after the first wrap, unless its
interval is less than the 448384 microticks that are left there. An interval that does not fit
in a word of microticks is never seen (`never_due`).
-/

namespace Qing

namespace ETimer

variable {Fp : Type*}

/-- A timer of `us` microseconds as `Update` finds it: opened, and marked or rearmed
any number of times. -/
inductive OpenedAs : ℕ → ETimer Fp → Prop
  | openSec (timer : ETimer Fp) (intervalSec : UInt32) (fp : Fp) (nowClock : UInt64) :
      OpenedAs (intervalSec.toNat * 1000000) (timer.openSec intervalSec fp nowClock)
  | openMilsec (timer : ETimer Fp) (intervalMilsec : UInt32) (fp : Fp) (nowClock : UInt64) :
      OpenedAs (intervalMilsec.toNat * 1000) (timer.openMilsec intervalMilsec fp nowClock)
  | mark {us : ℕ} {timer : ETimer Fp} : OpenedAs us timer → OpenedAs us timer.mark
  | rearm {us : ℕ} {timer : ETimer Fp} (nowClock : UInt64) :
      OpenedAs us timer → OpenedAs us (timer.rearm nowClock)

/-- `us` microseconds have passed between two readings of the clock, in exact
integers. -/
def Elapsed (countTick : UInt64) (us : ℕ) (startClock endClock : UInt64) : Prop :=
  us * countTick.toNat ≤ (endClock.toNat - startClock.toNat) * 1000000

/-- The product of `get_interval_macro_secs` does not wrap. -/
def Fits (startClock endClock : UInt64) : Prop :=
  (endClock.toNat - startClock.toNat) * 1000000 < 2 ^ 64

/-- At every reading up to `last` the test says of the timer that it is due exactly when it
is. -/
def SeenUpTo (countTick : UInt64) (us : ℕ) (timer : ETimer Fp) (last : UInt64) : Prop :=
  ∀ now, timer.startclock ≤ now → now ≤ last →
    (timer.due countTick now = true ↔ Elapsed countTick us timer.startclock now)

section Due

variable {countTick nowClock : UInt64} {us : ℕ} {timer : ETimer Fp}

theorem OpenedAs.times (h : OpenedAs us timer) :
    timer.leftsecs.toNat = us ∧ timer.interval.toNat = us := by
  induction h with
  | openSec timer intervalSec fp nowClock =>
      have hus : (intervalSec.toUInt64 * 1000000).toNat = intervalSec.toNat * 1000000 :=
        toNat_mul_us (Nat.le_refl 1000000)
      exact ⟨hus, hus⟩
  | openMilsec timer intervalMilsec fp nowClock =>
      have hus : (intervalMilsec.toUInt64 * 1000).toNat = intervalMilsec.toNat * 1000 :=
        toNat_mul_us (show UInt64.toNat 1000 ≤ 1000000 by decide)
      exact ⟨hus, hus⟩
  | mark _ ih => exact ih
  | rearm nowClock _ ih => exact ⟨ih.2, ih.2⟩

/-- What the test compares: the interval with the microticks that have passed, less
what the wrap took of them. -/
theorem due_iff (htick : 0 < countTick) (h : OpenedAs us timer)
    (hclock : timer.startclock ≤ nowClock) :
    timer.due countTick nowClock = true ↔
      us * countTick.toNat ≤
        (nowClock.toNat - timer.startclock.toNat) * 1000000 % 2 ^ 64 := by
  have hpos : 0 < countTick.toNat := UInt64.lt_iff_toNat_lt.mp htick
  rw [due, decide_eq_true_iff, UInt64.le_iff_toNat_le, toNat_getIntervalMacroSecs, h.times.1,
    UInt64.toNat_sub_of_le _ _ hclock]
  exact Nat.le_div_iff_mul_le hpos

/-- An interval of `2 ^ 64` microticks or more never passes the test. -/
theorem never_due (htick : 0 < countTick) (h : OpenedAs us timer)
    (hclock : timer.startclock ≤ nowClock) (hlarge : 2 ^ 64 ≤ us * countTick.toNat) :
    timer.due countTick nowClock = false := by
  have hlt := Nat.mod_lt ((nowClock.toNat - timer.startclock.toNat) * 1000000)
    (Nat.two_pow_pos 64)
  apply Bool.eq_false_iff.mpr
  rw [Ne, due_iff htick h hclock]
  omega

theorem Elapsed.mono {startClock later : UInt64} (h : Elapsed countTick us startClock nowClock)
    (hlater : nowClock ≤ later) : Elapsed countTick us startClock later :=
  h.trans (Nat.mul_le_mul_right _
    (Nat.sub_le_sub_right (UInt64.le_iff_toNat_le.mp hlater) _))

theorem Fits.mono {startClock later : UInt64} (h : Fits startClock later)
    (hlater : nowClock ≤ later) : Fits startClock nowClock :=
  lt_of_le_of_lt (Nat.mul_le_mul_right _
    (Nat.sub_le_sub_right (UInt64.le_iff_toNat_le.mp hlater) _)) h

theorem due_iff_elapsed (htick : 0 < countTick) (h : OpenedAs us timer)
    (hclock : timer.startclock ≤ nowClock) (hfits : Fits timer.startclock nowClock) :
    timer.due countTick nowClock = true ↔ Elapsed countTick us timer.startclock nowClock := by
  rw [due_iff htick h hclock, Nat.mod_eq_of_lt hfits]
  exact Iff.rfl

/-- The 18446744073710th tick is the first at which the product wraps, to 448384. -/
theorem exists_missed (htick : 0 < countTick) (h : OpenedAs us timer)
    (hclock : timer.startclock ≤ nowClock) (hlarge : 448384 < us * countTick.toNat)
    (helapsed : Elapsed countTick us timer.startclock nowClock)
    (hwraps : ¬Fits timer.startclock nowClock) :
    ∃ now, timer.startclock ≤ now ∧ now ≤ nowClock ∧ timer.due countTick now = false ∧
      Elapsed countTick us timer.startclock now := by
  by_cases hword : 2 ^ 64 ≤ us * countTick.toNat
  · exact ⟨nowClock, hclock, UInt64.le_refl _, never_due htick h hclock hword, helapsed⟩
  have hnow : nowClock.toNat < 2 ^ 64 := nowClock.toNat_lt
  rw [Fits, not_lt] at hwraps
  let first : UInt64 := .ofNat (timer.startclock.toNat + 18446744073710)
  have hfirst : first.toNat = timer.startclock.toNat + 18446744073710 := by
    rw [UInt64.toNat_ofNat']
    exact Nat.mod_eq_of_lt (by omega)
  have hstart : timer.startclock ≤ first := UInt64.le_iff_toNat_le.mpr (by omega)
  have hmicro : (first.toNat - timer.startclock.toNat) * 1000000 = 2 ^ 64 + 448384 := by
    rw [hfirst, Nat.add_sub_cancel_left]
    norm_num
  refine ⟨first, hstart, UInt64.le_iff_toNat_le.mpr (by omega), ?_, ?_⟩
  · apply Bool.eq_false_iff.mpr
    rw [Ne, due_iff htick h hstart, hmicro]
    omega
  · rw [Elapsed, hmicro]
    omega

/-- As long as the product does not wrap the test says of a timer that it is due exactly when
it is, and a timer once due stays so. Where the interval has passed, and is of more than
448384 microticks, the test has been right at every reading so far exactly if the product has
not wrapped. -/
theorem seen_of_fits (htick : 0 < countTick) (h : OpenedAs us timer)
    (hclock : timer.startclock ≤ nowClock) :
    (Fits timer.startclock nowClock →
      (timer.due countTick nowClock = true ↔
        Elapsed countTick us timer.startclock nowClock)) ∧
    (∀ later, nowClock ≤ later → Fits timer.startclock later →
      timer.due countTick nowClock = true → timer.due countTick later = true) ∧
    (448384 < us * countTick.toNat → Elapsed countTick us timer.startclock nowClock →
      (SeenUpTo countTick us timer nowClock ↔ Fits timer.startclock nowClock)) := by
  refine ⟨due_iff_elapsed htick h hclock, fun later hlater hfits hdue => ?_,
    fun hlarge helapsed => ⟨fun hseen => ?_, fun hfits now hnow hle => ?_⟩⟩
  · have helapsed := (due_iff_elapsed htick h hclock (hfits.mono hlater)).mp hdue
    exact (due_iff_elapsed htick h (UInt64.le_trans hclock hlater) hfits).mpr
      (helapsed.mono hlater)
  · by_contra hwraps
    obtain ⟨now, hnow, hle, hdue, hpassed⟩ :=
      exists_missed htick h hclock hlarge helapsed hwraps
    exact Bool.noConfusion (hdue.symm.trans ((hseen now hnow hle).mpr hpassed))
  · exact due_iff_elapsed htick h hnow (hfits.mono hle)

end Due

def secondTimer : ETimer Unit := (declare false 1 ()).openSec 1 () 0

/-- The timer under a clock of 10 MHz: it is due after two seconds and stays so until the
product wraps, and then is missed. -/
theorem seen_of_fits_sample :
    secondTimer.due 10000000 20000000 = true ∧
      secondTimer.due 10000000 18446744073709 = true ∧
        ¬SeenUpTo 10000000 1000000 secondTimer 18446744073710 := by
  have hopened : secondTimer.OpenedAs 1000000 := OpenedAs.openSec _ 1 () 0
  have htick : (0 : UInt64) < 10000000 := by decide
  have hstart : ∀ now, secondTimer.startclock ≤ now := fun _ => UInt64.zero_le
  obtain ⟨hright, hstays, -⟩ := seen_of_fits htick hopened (hstart 20000000)
  obtain ⟨-, -, hexact⟩ := seen_of_fits htick hopened (hstart 18446744073710)
  have hfits : Fits secondTimer.startclock 20000000 := by
    rw [Fits]
    decide
  have hlater : Fits secondTimer.startclock 18446744073709 := by
    rw [Fits]
    decide
  have hdue := (hright hfits).mpr (by rw [Elapsed]; decide)
  refine ⟨hdue, hstays 18446744073709 (by decide) hlater hdue, ?_⟩
  rw [hexact (by decide) (by rw [Elapsed]; decide), Fits]
  decide

def longTimer : ETimer Unit := (declare false 1 ()).openSec 4294967295 () 0

/-- The long timer under a clock of 10 MHz, one tick after its interval. -/
theorem not_seen :
    ¬ ∀ (countTick : UInt64) (us : ℕ) (timer : ETimer Unit) (nowClock : UInt64),
      0 < countTick → OpenedAs us timer → timer.startclock ≤ nowClock →
        (timer.due countTick nowClock = true ↔
          Elapsed countTick us timer.startclock nowClock) := by
  intro h
  have hiff := h 10000000 4294967295000000 longTimer 42949672950000001 (by decide)
    (OpenedAs.openSec _ 4294967295 () 0) (by decide)
  have hdue : longTimer.due 10000000 42949672950000001 = true := by
    apply hiff.mpr
    rw [Elapsed]
    decide
  cases hdue

end ETimer

end Qing
