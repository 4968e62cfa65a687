import Qing.Lib.Periods
import Qing.Timer.LocalTimer

/-!
# The schedule of the local timer

What `IfTriggerLocalTimer` says of a schedule that has one moment in each period of local
time. `Init` stores the offset of the zone in a `uint32_t`; west of UTC it is negative and
is stored as it wraps, which only the 32-bit side of the comparison undoes. `meant` is the
comparison in exact integers, and `trigger_eq_meant_iff` says where the code makes it.

On an offset that is not negative and times that go ahead, the code looks for a moment of
a period after that of the last trigger: it finds no others, and passes over the moment of
that period itself (`trigger_iff_later`). `LocalDayDiff` counts days of UTC, so the two
agree on a local day only where its offset moves both times across midnight or neither
(`localDayDiff_iff`).
-/

namespace Qing

/-! ## The zones of `Init` -/

def storedZone (timeZone : Int32) : UInt32 := (timeZone * 3600).toUInt32

/-- What `Init` stores in `time_zone_sec_`, from the two results of `mktime`. -/
def initTimeZoneSec (tsL tsG : Int64) : UInt32 :=
  let timeZone := ((tsL - tsG) / 3600).toUInt64.toUInt32.toInt32
  if ¬(timeZone > 15 ∨ timeZone < -12) then storedZone timeZone
  else 8 * 3600

theorem initTimeZoneSec_eq (tsL tsG : Int64) :
    ∃ h : Int32, -12 ≤ h.toInt ∧ h.toInt ≤ 15 ∧ initTimeZoneSec tsL tsG = storedZone h := by
  rw [initTimeZoneSec]
  split_ifs with h
  · exact ⟨8, by decide, by decide, by decide⟩
  · rw [not_or, gt_iff_lt, Int32.not_lt, Int32.not_lt, Int32.le_iff_toInt_le,
      Int32.le_iff_toInt_le] at h
    exact ⟨_, h.2, h.1, rfl⟩

theorem exists_initTimeZoneSec {h : Int32} (hlow : -12 ≤ h.toInt) (hhigh : h.toInt ≤ 15) :
    ∃ tsL tsG, initTimeZoneSec tsL tsG = storedZone h := by
  have hall : ∀ k : Fin 28, initTimeZoneSec (3600 * Int64.ofInt (k - 12)) 0 =
      storedZone (Int32.ofInt (k - 12)) := by decide
  have hk := hall ⟨(h.toInt + 12).toNat, by omega⟩
  refine ⟨_, _, hk.trans ?_⟩
  rw [Int.toNat_of_nonneg (by omega), add_sub_cancel_right, Int32.ofInt_toInt]

theorem toNat_toUInt32_emod (x : Int32) : (x.toUInt32.toNat : ℤ) = x.toInt % 2 ^ 32 := by
  have hlt := x.toUInt32.toNat_lt
  have hint : x.toInt = Int.bmod x.toUInt32.toNat (2 ^ 32) := x.toBitVec.toInt_eq_toNat_bmod
  have hmod : x.toInt % (2 ^ 32 : ℕ) = x.toUInt32.toNat % (2 ^ 32 : ℕ) := by
    rw [hint, Int.bmod_emod]
  omega

theorem toNat_storedZone {h : Int32} (hlow : -12 ≤ h.toInt) (hhigh : h.toInt ≤ 15) :
    ((storedZone h).toNat : ℤ) = 3600 * h.toInt % 2 ^ 32 := by
  have hmul : (h * 3600).toInt = h.toInt * 3600 := by
    rw [Int32.toInt_mul]
    exact Int.bmod_eq_of_le_mul_two (by push_cast; omega) (by push_cast; omega)
  rw [storedZone, toNat_toUInt32_emod, hmul, mul_comm]

/-! ## What the comparison means -/

/-- What `IfTriggerLocalTimer` says, in exact integers. -/
def meant (z p a last now : ℤ) : Bool :=
  let d := localPeriod z p now - localPeriod z p last
  if d ≤ 0 then false
  else if d = 1 then decide (a ≤ (now + z) % p)
  else true

theorem meant_iff {z p a last now : ℤ} (ha : 0 ≤ a) (hap : a < p) :
    meant z p a last now = true ↔ Periods.PassedLater p a (last + z) (now + z) := by
  rw [Periods.passedLater_iff ha hap, meant, localPeriod, localPeriod]
  split_ifs with h₀ h₁
  · exact iff_of_false not_false (by omega)
  · rw [decide_eq_true_iff]
    omega
  · exact iff_of_true rfl (by omega)

section Trigger

variable {c : UInt64} {z : UInt32} {last p a h : Int32}

theorem trigger_iff_passedLater {l n : ℤ} (hl : ((last.toUInt32 + z).toNat : ℤ) = l)
    (hn : ((timeSec c + z.toUInt64).toNat : ℤ) = n) (ha : 0 ≤ a.toInt)
    (hap : a.toInt < p.toInt) :
    ifTriggerLocalTimer c z last p a = true ↔
      n / p.toInt < l / p.toInt ∨ Periods.PassedLater p.toInt a.toInt l n := by
  obtain ⟨P, hP⟩ := Int.eq_ofNat_of_zero_le (ha.trans hap.le)
  obtain ⟨A, hA⟩ := Int.eq_ofNat_of_zero_le ha
  rw [trigger_iff_of_toNat rfl rfl hP hA, Periods.passedLater_iff ha hap, hP, hA, ← hl, ← hn]
  norm_cast

/-- West of UTC the two local times are `2 ^ 32` seconds apart; only a period that is too
long for that can keep the code from finding a moment. -/
theorem passedLater_iff_of_apart {p a l n : ℤ} (ha : 0 ≤ a) (hap : a < p) (hp : p < 2 ^ 31)
    (hl : 0 ≤ l) (hln : 2 * l ≤ n) (hn : 2 ^ 32 - 2 ≤ n) :
    Periods.PassedLater p a l n ↔ ¬(p ≤ l ∧ n < 2 * p + a) := by
  have hpos : 0 < p := lt_of_le_of_lt ha hap
  have hdiv : l / p * p ≤ l := Int.ediv_mul_le l hpos.ne'
  rw [Periods.passedLater_iff_moment_le ha hap, Periods.moment, add_mul, one_mul]
  rcases lt_or_ge l p with hlt | hge
  · rw [Int.ediv_eq_zero_of_lt hl hlt, zero_mul]
    omega
  · have hone : 1 ≤ l / p := (Int.le_ediv_iff_mul_le hpos).mpr (by omega)
    rcases eq_or_lt_of_le hone with heq | htwo
    · rw [← heq, one_mul]
      omega
    · have hle : 2 * p ≤ l / p * p := mul_le_mul_of_nonneg_right htwo hpos.le
      omega

/-- Where the two local times are as they are meant, only a period number that went back is
taken for a moment. -/
theorem found_iff_passedLater {p a l n : ℤ} (ha : 0 ≤ a) (hap : a < p) :
    ((n / p < l / p ∨ Periods.PassedLater p a l n) ↔ Periods.PassedLater p a l n) ↔
      l / p ≤ n / p := by
  constructor
  · intro hiff
    by_contra hback
    have hlater := hiff.mp (Or.inl (not_le.mp hback))
    rw [Periods.passedLater_iff ha hap] at hlater
    omega
  · exact fun hle => or_iff_right hle.not_gt

theorem found_iff_passedLater_of_apart {p a l n : ℤ} (ha : 0 ≤ a) (hap : a < p)
    (hp : p < 2 ^ 31) (hl : 0 ≤ l) (hl' : l < 2 ^ 31) (hn : 0 ≤ n) :
    (((n + 2 ^ 32) / p < l / p ∨ Periods.PassedLater p a l (n + 2 ^ 32)) ↔
        Periods.PassedLater p a l n) ↔
      Periods.PassedLater p a l n ∨ p ≤ l ∧ n + 2 ^ 32 < 2 * p + a := by
  have hpos : 0 < p := lt_of_le_of_lt ha hap
  have hback : ¬(n + 2 ^ 32) / p < l / p := (Int.ediv_le_ediv hpos (by omega)).not_gt
  have hapart := passedLater_iff_of_apart ha hap hp (l := l) (n := n + 2 ^ 32) hl (by omega)
    (by omega)
  have hlater : Periods.PassedLater p a l n → Periods.PassedLater p a l (n + 2 ^ 32) := by
    rintro ⟨k, hk, hle⟩
    exact ⟨k, hk, hle.trans (by omega)⟩
  rw [or_iff_right hback]
  constructor
  · intro hiff
    by_cases hlong : p ≤ l ∧ n + 2 ^ 32 < 2 * p + a
    · exact Or.inr hlong
    · exact Or.inl (hiff.mp (hapart.mpr hlong))
  · rintro (hcome | hlong)
    · exact iff_of_true (hlater hcome) hcome
    · have hmissed := fun hfound => hapart.mp hfound hlong
      exact iff_of_false hmissed (mt hlater hmissed)

theorem toNat_zoned_last (hlow : -12 ≤ h.toInt) (hhigh : h.toInt ≤ 15)
    (hlast : 2 ^ 20 ≤ last.toInt) :
    ((last.toUInt32 + storedZone h).toNat : ℤ) = last.toInt + 3600 * h.toInt := by
  have hz := toNat_storedZone hlow hhigh
  have hlt := last.toInt_lt
  have hnat : (last.toUInt32.toNat : ℤ) = last.toInt := by
    rw [toNat_toUInt32_emod]
    omega
  rw [UInt32.toNat_add]
  omega

theorem toNat_zoned_now (hlow : -12 ≤ h.toInt) (hhigh : h.toInt ≤ 15)
    (hnow : (timeSec c).toNat < 2 ^ 31) :
    ((timeSec c + (storedZone h).toUInt64).toNat : ℤ) =
      (timeSec c).toNat + 3600 * h.toInt % 2 ^ 32 := by
  have hz := toNat_storedZone hlow hhigh
  rw [UInt64.toNat_add, UInt32.toNat_toUInt64]
  omega

/-- The code says what its arithmetic means, in a zone that is not west of UTC unless the
number of the period went back, and west of it where a moment has come or the period is
too long. -/
theorem trigger_eq_meant_iff (hlow : -12 ≤ h.toInt) (hhigh : h.toInt ≤ 15) (ha : 0 ≤ a.toInt)
    (hap : a.toInt < p.toInt) (hlast : 2 ^ 20 ≤ last.toInt) (hnow : 2 ^ 20 ≤ (timeSec c).toNat)
    (hnow' : (timeSec c).toNat < 2 ^ 31) :
    ifTriggerLocalTimer c (storedZone h) last p a =
        meant (3600 * h.toInt) p.toInt a.toInt last.toInt (timeSec c).toNat ↔
      0 ≤ h.toInt ∧ localPeriod (3600 * h.toInt) p.toInt last.toInt ≤
          localPeriod (3600 * h.toInt) p.toInt (timeSec c).toNat ∨
        h.toInt < 0 ∧
          (Periods.PassedLater p.toInt a.toInt (last.toInt + 3600 * h.toInt)
              ((timeSec c).toNat + 3600 * h.toInt) ∨
            p.toInt ≤ last.toInt + 3600 * h.toInt ∧
              (timeSec c).toNat + 3600 * h.toInt + 2 ^ 32 < 2 * p.toInt + a.toInt) := by
  have hl := toNat_zoned_last hlow hhigh hlast
  have hn := toNat_zoned_now hlow hhigh hnow'
  have hp := p.toInt_lt
  have hlt := last.toInt_lt
  rw [Bool.eq_iff_iff, trigger_iff_passedLater hl hn ha hap, meant_iff ha hap, localPeriod,
    localPeriod]
  rcases le_or_gt 0 h.toInt with heast | hwest
  · have hzone : 3600 * h.toInt % 2 ^ 32 = 3600 * h.toInt := by omega
    rw [hzone, or_iff_left (not_and_of_not_left _ heast.not_gt), and_iff_right heast]
    exact found_iff_passedLater ha hap
  · have hzone : 3600 * h.toInt % 2 ^ 32 = 3600 * h.toInt + 2 ^ 32 := by omega
    rw [hzone, ← add_assoc, or_iff_right (not_and_of_not_left _ hwest.not_ge),
      and_iff_right hwest]
    exact found_iff_passedLater_of_apart ha hap hp (by omega) (by omega) (by omega)

/-- A clock at UTC+8, and a last trigger time a day before. -/
theorem trigger_eq_meant_iff_beijing :
    ifTriggerLocalTimer 1500086400000000 (storedZone 8) 1500000000 86400 0 =
      meant 28800 86400 0 1500000000 1500086400 :=
  (trigger_eq_meant_iff (c := 1500086400000000) (p := 86400) (a := 0) (h := 8) (by decide)
    (by decide) (by decide) (by decide) (by decide) (by decide) (by decide)).mpr
    (Or.inl ⟨by decide, by decide⟩)

/-- At UTC-5, a timer that has just been triggered. -/
theorem not_trigger_eq_meant :
    ¬ ∀ (c : UInt64) (last p a h : Int32), -12 ≤ h.toInt → h.toInt ≤ 15 → 0 ≤ a.toInt →
      a.toInt < p.toInt → 2 ^ 20 ≤ last.toInt → 2 ^ 20 ≤ (timeSec c).toNat →
      (timeSec c).toNat < 2 ^ 31 →
        ifTriggerLocalTimer c (storedZone h) last p a =
          meant (3600 * h.toInt) p.toInt a.toInt last.toInt (timeSec c).toNat := by
  intro hall
  have heq := hall 1500000000000000 1500000000 86400 0 (-5) (by decide) (by decide) (by decide)
    (by decide) (by decide) (by decide) (by decide)
  have htrue : ifTriggerLocalTimer 1500000000000000 (storedZone (-5)) 1500000000 86400 0 = true :=
    by decide
  have hfalse : meant (3600 * (-5 : Int32).toInt) (86400 : Int32).toInt (0 : Int32).toInt
      (1500000000 : Int32).toInt (timeSec 1500000000000000).toNat = false := by decide
  rw [htrue, hfalse] at heq
  cases heq

/-! ## The moments that are found -/

/-- On times that go ahead the code finds a moment exactly if one of a later local period has
come. It invents none, and passes over one exactly if no moment has come but that of the
period of the last trigger. -/
theorem trigger_iff_later (hz : z.toNat ≤ 15 * 3600) (ha : 0 ≤ a.toInt)
    (hap : a.toInt < p.toInt) (hlast : 0 ≤ last.toInt) (hle : last.toInt ≤ (timeSec c).toNat)
    (hnow : (timeSec c).toNat < 2 ^ 31) :
    (ifTriggerLocalTimer c z last p a = true ↔
        Periods.PassedLater p.toInt a.toInt (last.toInt + z.toNat)
          ((timeSec c).toNat + z.toNat)) ∧
      (ifTriggerLocalTimer c z last p a = true →
        Periods.Passed p.toInt a.toInt (last.toInt + z.toNat) ((timeSec c).toNat + z.toNat)) ∧
      ((ifTriggerLocalTimer c z last p a = true ↔
          Periods.Passed p.toInt a.toInt (last.toInt + z.toNat)
            ((timeSec c).toNat + z.toNat)) ↔
        let own := (last.toInt + z.toNat) / p.toInt
        ¬(last.toInt + z.toNat < Periods.moment p.toInt a.toInt own ∧
          Periods.moment p.toInt a.toInt own ≤ (timeSec c).toNat + z.toNat ∧
          (timeSec c).toNat + z.toNat < Periods.moment p.toInt a.toInt (own + 1))) := by
  have hp : 0 < p.toInt := lt_of_le_of_lt ha hap
  have hlater : ifTriggerLocalTimer c z last p a = true ↔
      Periods.PassedLater p.toInt a.toInt (last.toInt + z.toNat)
        ((timeSec c).toNat + z.toNat) := by
    rw [ifTriggerLocalTimer_iff hz hp ha hlast hle hnow, Periods.passedLater_iff ha hap,
      localPeriod, localPeriod]
  refine ⟨hlater, fun ht => (hlater.mp ht).passed ha hap, ?_⟩
  rw [hlater]
  exact Periods.later_iff_passed_iff ha hap

/-- A daily moment at noon, the last trigger at ten, and one o'clock the next day. -/
theorem trigger_iff_later_noon : ifTriggerLocalTimer 133200000000 0 36000 86400 43200 = true :=
  (trigger_iff_later (c := 133200000000) (z := 0) (p := 86400) (a := 43200)
    (by decide) (by decide) (by decide) (by decide) (by decide) (by decide)).1.mpr
    ⟨1, by decide, by decide⟩

/-- At one o'clock of the same day the moment at noon is passed over. -/
theorem not_trigger_iff_passed :
    ¬ ∀ (c : UInt64) (z : UInt32) (last p a : Int32), z.toNat ≤ 15 * 3600 → 0 ≤ a.toInt →
      a.toInt < p.toInt → 0 ≤ last.toInt → last.toInt ≤ (timeSec c).toNat →
      (timeSec c).toNat < 2 ^ 31 →
        (ifTriggerLocalTimer c z last p a = true ↔
          Periods.Passed p.toInt a.toInt (last.toInt + z.toNat)
            ((timeSec c).toNat + z.toNat)) := by
  intro hall
  have hiff := hall 46800000000 0 36000 86400 43200 (by decide) (by decide) (by decide)
    (by decide) (by decide) (by decide)
  have hfalse : ifTriggerLocalTimer 46800000000 0 36000 86400 43200 = false := by decide
  have hpassed := hiff.mpr ⟨0, by decide, by decide⟩
  rw [hfalse] at hpassed
  cases hpassed

end Trigger

/-! ## Local days -/

def localDayDiff (ts1 ts2 : Int32) : Int32 := ts1 / (24 * 60 * 60) - ts2 / (24 * 60 * 60)

section Day

variable {c : UInt64} {z : UInt32} {now ts : Int32}

theorem toInt_localDayDiff (hnow : 0 ≤ now.toInt) (hts : 0 ≤ ts.toInt) :
    (localDayDiff now ts).toInt = now.toInt / 86400 - ts.toInt / 86400 := by
  have hdiv : ∀ x : Int32, 0 ≤ x.toInt → (x / (24 * 60 * 60)).toInt = x.toInt / 86400 := by
    intro x hx
    rw [Int32.toInt_div_of_ne_right _ _ (by decide)]
    exact Int.tdiv_eq_ediv_of_nonneg hx
  have hnow' := now.toInt_lt
  have hts' := ts.toInt_lt
  rw [localDayDiff, Int32.toInt_sub, hdiv now hnow, hdiv ts hts]
  exact Int.bmod_eq_of_le_mul_two (by push_cast; omega) (by push_cast; omega)

/-- The two notions of a local day agree exactly if local midnight lies after both times in
their days of UTC, or after neither. -/
theorem localDayDiff_iff (hz : z.toNat ≤ 15 * 3600) (hts : 0 ≤ ts.toInt)
    (hle : ts.toInt ≤ now.toInt) (hnow : ((timeSec c).toNat : ℤ) = now.toInt) :
    (((localDayDiff now ts).toInt =
          localPeriod z.toNat 86400 now.toInt - localPeriod z.toNat 86400 ts.toInt) ∧
        (1 ≤ (localDayDiff now ts).toInt ↔ ifTriggerLocalTimer c z ts 86400 0 = true)) ↔
      (86400 ≤ now.toInt % 86400 + z.toNat ↔ 86400 ≤ ts.toInt % 86400 + z.toNat) := by
  have hbound := now.toInt_lt
  have htrigger := ifTriggerLocalTimer_iff (c := c) (z := z) (p := 86400) (a := 0) hz (by decide)
    (by decide) hts (by omega) (by omega)
  have hday : (86400 : Int32).toInt = 86400 := by decide
  have hzero : (0 : Int32).toInt = 0 := by decide
  have hpos : 0 ≤ (now.toInt + z.toNat) % 86400 := by omega
  rw [hnow, hday, hzero] at htrigger
  rw [htrigger, toInt_localDayDiff (hts.trans hle) hts, localPeriod, localPeriod]
  constructor
  · rintro ⟨hdiff, -⟩
    omega
  · intro hsame
    have hdiff : now.toInt / 86400 - ts.toInt / 86400 =
        (now.toInt + z.toNat) / 86400 - (ts.toInt + z.toNat) / 86400 := by omega
    refine ⟨hdiff, ?_⟩
    rw [hdiff]
    omega

/-- Two mornings of UTC, at UTC+8. -/
theorem localDayDiff_iff_mornings :
    1 ≤ (localDayDiff 1500100000 1500000000).toInt ↔
      ifTriggerLocalTimer 1500100000000000 28800 1500000000 86400 0 = true :=
  And.right <| (localDayDiff_iff (c := 1500100000000000) (z := 28800) (by decide) (by decide)
    (by decide) (by decide)).mpr (by decide)

/-- Two times of one day of UTC, between which it is midnight at UTC+8. -/
theorem not_localDayDiff :
    ¬ ∀ (h : Int32) (c : UInt64) (now ts : Int32), 0 ≤ h.toInt → h.toInt ≤ 15 → 0 ≤ ts.toInt →
      ts.toInt ≤ now.toInt → ((timeSec c).toNat : ℤ) = now.toInt →
        (localDayDiff now ts).toInt =
            localPeriod (storedZone h).toNat 86400 now.toInt -
              localPeriod (storedZone h).toNat 86400 ts.toInt ∧
          (1 ≤ (localDayDiff now ts).toInt ↔
            ifTriggerLocalTimer c (storedZone h) ts 86400 0 = true) := by
  intro hall
  obtain ⟨heq, -⟩ := hall 8 1500050400000000 1500050400 1500040400 (by decide) (by decide)
    (by decide) (by decide) (by decide)
  revert heq
  decide

end Day

end Qing
