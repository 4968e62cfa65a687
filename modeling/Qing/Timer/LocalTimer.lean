import Qing.Lib.Polling
import Mathlib.Data.Int.Notation
import Mathlib.Algebra.Order.Group.Int
import Mathlib.Tactic.Ring

/-!
# The local timer

`IfTriggerLocalTimer` says whether a moment that comes once in a period of local
time has passed since it last said so. `ifTriggerLocalTimer` is the function with
the widths its operands are promoted to: the time is a `uint64_t`, the stored offset
of the time zone and the last trigger time meet in a `uint32_t`, and the difference
of the two period numbers is unsigned.

For an offset that does not encode a negative zone it computes the period numbers
exactly (`ifTriggerLocalTimer_iff`), so a caller that polls it is told true once a
period (`once_per_period`).
-/

namespace Qing

def timeMillisec (systimeClock : UInt64) : UInt64 := systimeClock / 1000

def timeSec (systimeClock : UInt64) : UInt64 := timeMillisec systimeClock / 1000

def ifTriggerLocalTimer (systimeClock : UInt64) (timeZoneSec : UInt32)
    (lastTriggerTime timerPeriod timerTriggerAt : Int32) : Bool :=
  let localSec := timeSec systimeClock + timeZoneSec.toUInt64
  -- `timer_period` is an `int`: sign-extended on the left, read as `uint32_t` on the right
  let diffCount := localSec / timerPeriod.toInt64.toUInt64 -
    ((lastTriggerTime.toUInt32 + timeZoneSec) / timerPeriod.toUInt32).toUInt64
  if diffCount ≤ 0 then false
  else if diffCount = 1 then
    decide (timerTriggerAt.toInt64.toUInt64 ≤ localSec % timerPeriod.toInt64.toUInt64)
  else true

/-- The number of the period of local time that `t` falls in. -/
def localPeriod (timeZoneSec timerPeriod t : ℤ) : ℤ := (t + timeZoneSec) / timerPeriod

section Widths

variable {x : Int32}

theorem toNat_toUInt32 (h : 0 ≤ x.toInt) : x.toUInt32.toNat = x.toInt.toNat :=
  Int32.toNat_toUInt32_of_le (Int32.le_iff_toInt_le.mpr h)

theorem toNat_signExtend (h : 0 ≤ x.toInt) : x.toInt64.toUInt64.toNat = x.toInt.toNat := by
  have hle : 0 ≤ x.toInt64 := by
    rw [Int64.le_iff_toInt_le, Int32.toInt_toInt64]
    exact h
  rw [Int64.toNat_toUInt64_of_le hle, ← Int32.toInt_toInt64]
  rfl

end Widths

section Exact

variable {c : UInt64} {z : UInt32} {last p a : Int32}

theorem toNat_localSec (hz : z.toNat ≤ 15 * 3600) (hnow : (timeSec c).toNat < 2 ^ 31) :
    (timeSec c + z.toUInt64).toNat = (timeSec c).toNat + z.toNat := by
  rw [UInt64.toNat_add, UInt32.toNat_toUInt64]
  exact Nat.mod_eq_of_lt (by omega)

theorem toNat_lastSec {L : ℕ} (hz : z.toNat ≤ 15 * 3600) (hlast : 0 ≤ last.toInt)
    (hL : last.toInt = L) : (last.toUInt32 + z).toNat = L + z.toNat := by
  have hbound := last.toInt_lt
  rw [UInt32.toNat_add, toNat_toUInt32 hlast, hL, Int.toNat_natCast]
  exact Nat.mod_eq_of_lt (by omega)

theorem compare_iff {diff : UInt64} {ready : Prop} [Decidable ready] :
    ((if diff ≤ 0 then false else if diff = 1 then decide ready else true) = true) ↔
      diff.toNat = 1 ∧ ready ∨ 2 ≤ diff.toNat := by
  have hzero : diff ≤ 0 ↔ diff.toNat = 0 := by
    rw [UInt64.le_iff_toNat_le]
    exact Nat.le_zero
  have hone : diff = 1 ↔ diff.toNat = 1 := by
    rw [← UInt64.toNat_inj]
    rfl
  split_ifs with h₀ h₁
  · simp [hzero.mp h₀]
  · simp [hone.mp h₁]
  · rw [hzero] at h₀
    rw [hone] at h₁
    have htwo : 2 ≤ diff.toNat := by omega
    simp [htwo]

/-- The trigger as its operands are, `N` being the local time and `L` the local time of the
last trigger as they were computed: a period number that went back counts as a large step
ahead. -/
theorem trigger_iff_of_toNat {N L P A : ℕ} (hN : (timeSec c + z.toUInt64).toNat = N)
    (hL : (last.toUInt32 + z).toNat = L) (hP : p.toInt = P) (hA : a.toInt = A) :
    ifTriggerLocalTimer c z last p a = true ↔
      N / P < L / P ∨ N / P = L / P + 1 ∧ A ≤ N % P ∨ L / P + 2 ≤ N / P := by
  have hper : p.toInt64.toUInt64.toNat = P := by rw [toNat_signExtend (by omega), hP]; rfl
  have hat : a.toInt64.toUInt64.toNat = A := by rw [toNat_signExtend (by omega), hA]; rfl
  have hper' : p.toUInt32.toNat = P := by rw [toNat_toUInt32 (by omega), hP]; rfl
  have hbound : L / P < 2 ^ 32 := by
    rw [← hL]
    exact lt_of_le_of_lt (Nat.div_le_self _ _) (last.toUInt32 + z).toNat_lt
  have hbound' : N / P < 2 ^ 64 := by
    rw [← hN]
    exact lt_of_le_of_lt (Nat.div_le_self _ _) (timeSec c + z.toUInt64).toNat_lt
  have hdiff : ((timeSec c + z.toUInt64) / p.toInt64.toUInt64 -
      ((last.toUInt32 + z) / p.toUInt32).toUInt64).toNat =
        (2 ^ 64 - L / P + N / P) % 2 ^ 64 := by
    rw [UInt64.toNat_sub, UInt64.toNat_div, UInt32.toNat_toUInt64, UInt32.toNat_div, hN, hL, hper,
      hper']
  have hready : (a.toInt64.toUInt64 ≤ (timeSec c + z.toUInt64) % p.toInt64.toUInt64) ↔
      A ≤ N % P := by
    rw [UInt64.le_iff_toNat_le, UInt64.toNat_mod, hN, hper, hat]
  rw [ifTriggerLocalTimer, compare_iff, hdiff, hready]
  generalize N / P = n at hbound' ⊢
  generalize L / P = l at hbound ⊢
  omega

/-- On times that follow the last one the trigger compares the numbers of two
periods of local time. -/
theorem ifTriggerLocalTimer_iff (hz : z.toNat ≤ 15 * 3600) (hp : 0 < p.toInt)
    (ha : 0 ≤ a.toInt) (hlast : 0 ≤ last.toInt) (hle : last.toInt ≤ (timeSec c).toNat)
    (hnow : (timeSec c).toNat < 2 ^ 31) :
    ifTriggerLocalTimer c z last p a = true ↔
      localPeriod z.toNat p.toInt (timeSec c).toNat =
          localPeriod z.toNat p.toInt last.toInt + 1 ∧
        a.toInt ≤ ((timeSec c).toNat + z.toNat) % p.toInt ∨
      localPeriod z.toNat p.toInt last.toInt + 2 ≤
        localPeriod z.toNat p.toInt (timeSec c).toNat := by
  obtain ⟨P, hP⟩ := Int.eq_ofNat_of_zero_le hp.le
  obtain ⟨L, hL⟩ := Int.eq_ofNat_of_zero_le hlast
  obtain ⟨A, hA⟩ := Int.eq_ofNat_of_zero_le ha
  have hperiods : (L + z.toNat) / P ≤ ((timeSec c).toNat + z.toNat) / P :=
    Nat.div_le_div_right (by omega)
  rw [trigger_iff_of_toNat (toNat_localSec hz hnow) (toNat_lastSec hz hlast hL) hP hA, localPeriod,
    localPeriod, hP, hL, hA]
  norm_cast
  omega

end Exact

/-- The polls told true, by a caller that sets `last_trigger_time` to the time of
each. -/
def triggered (z : UInt32) (p a : Int32) : Int32 → List UInt64 → List UInt64 :=
  Polling.fired (fun last c => ifTriggerLocalTimer c z last p a)
    fun c => (timeSec c).toUInt32.toInt32

section Polls

variable {z : UInt32} {p a last : Int32} {c : UInt64} {cs : List UInt64}

/-- A poll that follows the last trigger time, both in the range of an `int`. -/
def Follows (last : Int32) (c : UInt64) : Prop :=
  0 ≤ last.toInt ∧ last.toInt ≤ (timeSec c).toNat ∧ (timeSec c).toNat < 2 ^ 31

theorem toInt_store (h : (timeSec c).toNat < 2 ^ 31) :
    ((timeSec c).toUInt32.toInt32.toInt : ℤ) = (timeSec c).toNat := by
  have hnat : (timeSec c).toUInt32.toNat = (timeSec c).toNat := by
    rw [UInt64.toNat_toUInt32]
    exact Nat.mod_eq_of_lt (by omega)
  rw [← hnat, Int32.toInt, UInt32.toBitVec_toInt32,
    BitVec.toInt_eq_toNat_of_lt (by rw [UInt32.toNat_toBitVec]; omega)]
  rfl

theorem period_lt_of_trigger (hz : z.toNat ≤ 15 * 3600) (hp : 0 < p.toInt) (ha : 0 ≤ a.toInt)
    (h : Follows last c) (ht : ifTriggerLocalTimer c z last p a = true) :
    localPeriod z.toNat p.toInt last.toInt < localPeriod z.toNat p.toInt (timeSec c).toNat := by
  rcases (ifTriggerLocalTimer_iff hz hp ha h.1 h.2.1 h.2.2).mp ht with ⟨hone, -⟩ | htwo
  · omega
  · omega

theorem trigger_of_ready (hz : z.toNat ≤ 15 * 3600) (hp : 0 < p.toInt) (ha : 0 ≤ a.toInt)
    (h : Follows last c)
    (hlt : localPeriod z.toNat p.toInt last.toInt <
      localPeriod z.toNat p.toInt (timeSec c).toNat)
    (hready : a.toInt ≤ ((timeSec c).toNat + z.toNat) % p.toInt) :
    ifTriggerLocalTimer c z last p a = true := by
  rw [ifTriggerLocalTimer_iff hz hp ha h.1 h.2.1 h.2.2]
  rcases (Int.add_one_le_of_lt hlt).eq_or_lt with heq | hlt'
  · exact Or.inl ⟨heq.symm, hready⟩
  · exact Or.inr (by omega)

/-- A caller that polls in order is told true at most once in each period of local
time, and exactly once in each one after that of the initial `last_trigger_time`
that has a poll at or after the trigger time. -/
theorem once_per_period (hz : z.toNat ≤ 15 * 3600) (hp : 0 < p.toInt) (ha : 0 ≤ a.toInt)
    (hlast : 0 ≤ last.toInt) (hsorted : cs.Pairwise fun c c' => timeSec c ≤ timeSec c')
    (hpolls : ∀ c ∈ cs, last.toInt ≤ (timeSec c).toNat ∧ (timeSec c).toNat < 2 ^ 31) :
    (∀ q, (triggered z p a last cs).countP
        (fun c => decide (localPeriod z.toNat p.toInt (timeSec c).toNat = q)) ≤ 1) ∧
    ∀ c ∈ cs, localPeriod z.toNat p.toInt last.toInt <
        localPeriod z.toNat p.toInt (timeSec c).toNat →
      a.toInt ≤ ((timeSec c).toNat + z.toNat) % p.toInt →
      (triggered z p a last cs).countP (fun d => decide
        (localPeriod z.toNat p.toInt (timeSec d).toNat =
          localPeriod z.toNat p.toInt (timeSec c).toNat)) = 1 := by
  have hstore : ∀ last c, Follows last c →
      localPeriod z.toNat p.toInt (timeSec c).toUInt32.toInt32.toInt =
        localPeriod z.toNat p.toInt (timeSec c).toNat :=
    fun last c h => by rw [toInt_store h.2.2]
  have hlate : ∀ last c, Follows last c → ifTriggerLocalTimer c z last p a = true →
      localPeriod z.toNat p.toInt last.toInt < localPeriod z.toNat p.toInt (timeSec c).toNat :=
    fun last c => period_lt_of_trigger hz hp ha
  have hfollows : ∀ c ∈ cs, Follows last c := fun c hc => ⟨hlast, hpolls c hc⟩
  have hpairs : cs.Pairwise fun c c' => Follows (timeSec c).toUInt32.toInt32 c' := by
    refine hsorted.imp_of_mem fun hc hc' hle => ?_
    rw [Follows, toInt_store (hpolls _ hc).2]
    exact ⟨Int.natCast_nonneg _, Int.ofNat_le.mpr (UInt64.le_iff_toNat_le.mp hle),
      (hpolls _ hc').2⟩
  refine ⟨Polling.countP_fired_le_one hstore hlate hpairs hfollows, fun c hc hlt hready => ?_⟩
  have hmono : ∀ last c, Follows last c → localPeriod z.toNat p.toInt last.toInt ≤
      localPeriod z.toNat p.toInt (timeSec c).toNat :=
    fun last c h => Int.ediv_le_ediv hp (Int.add_le_add_right h.2.1 _)
  exact Polling.countP_fired_eq_one hstore hlate (fun last c h => trigger_of_ready hz hp ha h)
    hmono hpairs hfollows hc hlt hready

/-- Three polls of a daily timer at UTC+8, in microseconds, the first two on one day. -/
def dailyPolls : List UInt64 := [100000000000, 100001000000, 200000000000]

theorem once_per_period_daily :
    (triggered 28800 86400 0 0 dailyPolls).countP
      (fun d => decide (localPeriod 28800 86400 (timeSec d).toNat = 1)) = 1 := by
  have hsorted : dailyPolls.Pairwise fun c c' => timeSec c ≤ timeSec c' := by decide
  have hpolls : ∀ c ∈ dailyPolls,
      (0 : Int32).toInt ≤ (timeSec c).toNat ∧ (timeSec c).toNat < 2 ^ 31 := by
    simp only [dailyPolls, List.forall_mem_cons, List.not_mem_nil, false_implies, implies_true]
    decide
  have hall := once_per_period (z := 28800) (p := 86400) (a := 0) (by decide) (by decide)
    (by decide) (by decide) hsorted hpolls
  exact hall.2 100000000000 List.mem_cons_self (by decide) (by decide)

end Polls

end Qing
