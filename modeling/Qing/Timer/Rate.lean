import Qing.Timer.Cancel

/-!
# How often callbacks are called

`Update` sets `_startclock` to the clock read after a callback and not forward by the
interval, so an engine that was held up does not catch up on the calls it missed: in any
stretch of a run a timer is fired at most once more than its interval fits into the time
that passed, and from its registration on at most as often as it fits (`fires_paced`).
-/

namespace Qing

/-! ## Paced counts -/

/-- Counting from `base`, where the first `free` beats cost nothing and each later one
takes `period`, `n` beats are possible by the time `now`. -/
def Paced (period free base n now : ℕ) : Prop :=
  (free ≤ n → base ≤ now) ∧ (n - free) * period ≤ now - base

namespace Paced

variable {period free base n now later : ℕ}

theorem of_lt (h : n < free) : Paced period free base n now := by
  refine ⟨fun hle => absurd hle (by omega), ?_⟩
  rw [Nat.sub_eq_zero_of_le h.le, Nat.zero_mul]
  exact Nat.zero_le (now - base)

theorem zero (h : base ≤ now) : Paced period free base 0 now := by
  refine ⟨fun _ => h, ?_⟩
  rw [Nat.zero_sub, Nat.zero_mul]
  exact Nat.zero_le (now - base)

theorem wait (h : Paced period free base n now) (hle : now ≤ later) :
    Paced period free base n later :=
  ⟨fun hn => (h.1 hn).trans hle, h.2.trans (Nat.sub_le_sub_right hle base)⟩

theorem beat (h : Paced period free base n now) (hbase : base ≤ later)
    (hle : now + period ≤ later) : Paced period free base (n + 1) later := by
  refine ⟨fun _ => hbase, ?_⟩
  rcases Nat.lt_or_ge n free with hlt | hge
  · rw [Nat.sub_eq_zero_of_le hlt, Nat.zero_mul]
    exact Nat.zero_le (later - base)
  · have hsum : (n + 1 - free) * period = (n - free) * period + period := by
      rw [Nat.sub_add_comm hge, Nat.add_one_mul]
    have hnow := h.1 hge
    have hcount := h.2
    omega

end Paced

/-! ## The fires of one timer -/

variable {Fp : Type*} {countTick : UInt64}

def microticks (clock : UInt64) : ℕ := clock.toNat * 1000000

theorem microticks_le {c c' : UInt64} (h : c ≤ c') : microticks c ≤ microticks c' :=
  Nat.mul_le_mul_right 1000000 (UInt64.le_iff_toNat_le.mp h)

/-- The pace of a timer of `us` microseconds that has been fired `n` times: while it waits,
up to the reading its time runs from, and while its callback runs or when it is gone, up to
the latest reading. -/
def Phase.Paces (countTick : UInt64) (us free base n : ℕ) (clock : UInt64) : Phase Fp → Prop
  | .absent => False
  | .draft timer | .live timer =>
      timer.leftsecs.toNat = us ∧ timer.interval.toNat = us ∧ timer.startclock ≤ clock ∧
        Paced (us * countTick.toNat) free base n (microticks timer.startclock)
  | .firing timer =>
      timer.interval.toNat = us ∧ Paced (us * countTick.toNat) free base n (microticks clock)
  | .gone => Paced (us * countTick.toNat) free base n (microticks clock)

section Paces

variable {us free base n : ℕ} {clock clock' : UInt64} {id : ℤ} {p p' : Phase Fp} {e : Event Fp}

theorem Phase.Paces.wait (h : p.Paces countTick us free base n clock) (hle : clock ≤ clock') :
    p.Paces countTick us free base n clock' := by
  cases p with
  | absent => exact h
  | draft timer | live timer => exact ⟨h.1, h.2.1, UInt64.le_trans h.2.2.1 hle, h.2.2.2⟩
  | firing timer => exact ⟨h.1, h.2.wait (microticks_le hle)⟩
  | gone => exact Paced.wait h (microticks_le hle)

theorem Phase.Paces.paced (h : p.Paces countTick us free base n clock) :
    Paced (us * countTick.toNat) free base n (microticks clock) := by
  cases p with
  | absent => exact h.elim
  | draft timer | live timer => exact h.2.2.2.wait (microticks_le h.2.2.1)
  | firing timer => exact h.2
  | gone => exact h

/-- The reading that a fire, or the end of its turn, makes. -/
def Event.reading? : Event Fp → Option UInt64
  | fired _ _ _ now | rearmed _ _ _ now _ => some now
  | _ => none

/-- A step of the timer, taken while the clock goes from `clock` to `clock'`, keeps the
pace; it may count as a fire. -/
theorem LifeStep.paces (hst : LifeStep countTick id p e p')
    (h : p.Paces countTick us free base n clock) (hle : clock ≤ clock')
    (hread : ∀ now, e.reading? = some now → clock' = now) (hbase : base ≤ microticks clock') :
    p'.Paces countTick us free base (n + [e].countP Event.isFired) clock' := by
  have hwait := h.wait hle
  cases hst with
  | opened => exact h.elim
  | inserted | markedLive | skipped => exact hwait
  | markedFiring => exact hwait
  | erased => exact hwait.paced
  | expired => exact hwait.2
  | fired t tab timer now hmark hclock hdue =>
      obtain rfl : clock' = now := hread now rfl
      obtain ⟨hleft, hinterval, -, hpaced⟩ := h
      have hlate : us * countTick.toNat ≤
          microticks clock' - microticks timer.startclock := by
        have hmul := ETimer.mul_le_of_due hclock hdue
        rwa [hleft, Nat.sub_mul] at hmul
      have hstart := microticks_le hclock
      exact ⟨hinterval, hpaced.beat hbase (by omega)⟩
  | rearmed t tab timer now honce =>
      obtain rfl : clock' = now := hread now rfl
      exact ⟨hwait.1, hwait.1, UInt64.le_refl clock', hwait.2⟩

end Paces

/-! ## The clock of a run -/

section Clock

variable {t : ThreadId} {g g' : TimerThread Fp} {l l' : Local Fp} {e : Event Fp}

theorem Step.clock_le (h : Step countTick t g l g' l' e) : g.clock ≤ g'.clock := by
  cases h with
  | take | tryLockFails | insert | returnId | callUnRegister | find | miss | callUpdate | erase
  | callbackReturn => exact UInt64.le_refl g.clock
  | openTimer _ _ _ _ _ hclock | fire _ _ _ _ _ _ _ _ hclock | skip _ _ _ _ _ _ _ _ hclock =>
      exact hclock
  | tryLockTakes _ _ _ _ hlock | lockUnRegister _ _ _ _ hlock | lockUpdate _ _ _ _ hlock =>
      rw [(TimerThread.lock_fields hlock).2.2]
      exact UInt64.le_refl g.clock
  | unlockInserted _ _ _ _ hlock | leaveReturn _ _ _ _ _ hlock | leaveMissed _ _ _ hlock
  | endFirst _ _ _ hlock | endSecond _ _ _ hlock =>
      rw [(TimerThread.unlock_fields hlock).2.2]
      exact UInt64.le_refl g.clock
  | rearm _ _ timer _ _ _ _ hclock =>
      cases timer.runOnce with
      | true => exact hclock
      | false => exact hclock

theorem Step.clock_of_reading? (h : Step countTick t g l g' l' e) {now : UInt64}
    (he : e.reading? = some now) : g'.clock = now := by
  cases h with
  | fire => exact Option.some.inj he
  | rearm _ _ timer =>
      obtain rfl := Option.some.inj he
      cases timer.runOnce with
      | true => rfl
      | false => rfl
  | take | openTimer | tryLockTakes | tryLockFails | insert | unlockInserted | returnId
  | callUnRegister | lockUnRegister | find | miss | leaveReturn | leaveMissed | callUpdate
  | lockUpdate | endFirst | endSecond | erase | skip | callbackReturn => cases he

end Clock

section Run

variable {us free base n : ℕ} {id : ℤ} {q q' : State Fp × (ℤ → Phase Fp)} {tr : List (Event Fp)}

theorem Phase.Paces.path (hpath : (engineLedger Fp countTick).Path q tr q')
    (hbase : base ≤ microticks q.1.engine.clock)
    (h : (q.2 id).Paces countTick us free base n q.1.engine.clock) :
    base ≤ microticks q'.1.engine.clock ∧
      (q'.2 id).Paces countTick us free base (n + (history tr id).countP Event.isFired)
        q'.1.engine.clock := by
  induction hpath with
  | refl => exact ⟨hbase, h⟩
  | @tail q₁ q₂ tr e _ hst ih =>
      obtain ⟨hbase₁, h₁⟩ := ih
      obtain ⟨hengine, hledger, -⟩ := hst
      obtain ⟨t, g', l', hstep, hput⟩ := step_of_system hengine
      have hle : q₁.1.engine.clock ≤ q₂.1.engine.clock := by
        rw [hput]
        exact hstep.clock_le
      have hbase₂ := hbase₁.trans (microticks_le hle)
      refine ⟨hbase₂, ?_⟩
      rw [history_append, List.countP_append, ← Nat.add_assoc]
      rcases System.product_step hledger id with ⟨hne, heq⟩ | ⟨hself, hlife⟩
      · have hnone : history [e] id = [] := by simp [history, System.about, hne]
        rw [hnone, heq]
        exact h₁.wait hle
      · rw [history_cons_self hself]
        refine hlife.paces h₁ hle ?_ hbase₂
        intro now hnow
        rw [hput]
        exact hstep.clock_of_reading? hnow

end Run

theorem paces_of_facts {h : List (Event Fp)} {p : Phase Fp} {clock : UInt64} {us base : ℕ}
    (hfacts : LifeFacts h p) (hus : intervalOf h = some us)
    (hstarted : ∀ timer, p.timer? = some timer → timer.startclock ≤ clock) :
    p.Paces countTick us 1 base 0 clock := by
  have hfree : ∀ now, Paced (us * countTick.toNat) 1 base 0 now :=
    fun now => Paced.of_lt Nat.one_pos
  cases p with
  | absent =>
      obtain rfl : h = [] := hfacts
      cases hus
  | draft timer | live timer =>
      obtain rfl : timer.interval.toNat = us :=
        Option.some.inj (hfacts.1.interval.symm.trans hus)
      exact ⟨congrArg UInt64.toNat hfacts.1.left, rfl, hstarted timer rfl, hfree _⟩
  | firing timer =>
      exact ⟨Option.some.inj (hfacts.1.interval.symm.trans hus), hfree _⟩
  | gone => exact hfree _

theorem draft_of_opened {tr : List (Event Fp)} {t : ThreadId} {timer : ETimer Fp} {us : ℕ}
    {q : State Fp × (ℤ → Phase Fp)}
    (h : (engineLedger Fp countTick).Run (tr ++ [.opened t timer us]) q) :
    q.2 timer.timerId = .draft timer ∧ timer.leftsecs.toNat = us ∧
      timer.interval.toNat = us := by
  obtain ⟨q₁, q₂, -, ⟨-, hledger, -⟩, hnil⟩ := h.cut
  rw [hnil.eq_of_nil]
  rcases System.product_step hledger timer.timerId with ⟨hne, -⟩ | ⟨-, hlife⟩
  · exact absurd rfl hne
  · generalize hp : q₁.2 timer.timerId = p at hlife
    generalize hp' : q₂.2 timer.timerId = p' at hlife
    cases hlife with
    | opened _ _ _ _ _ hleft hus => exact ⟨rfl, by rw [hleft, hus], hus⟩

/-- However often, by however many threads and however late `Update` is called: in any
stretch of a run a timer is fired at most once more than its interval fits into the time
that passes, and in one that begins with its registration at most as often as it fits into
the time since the reading it was opened with. -/
theorem fires_paced {pre mid : List (Event Fp)} {s₁ s : State Fp}
    (hpre : (engineSystem Fp countTick).Run pre s₁)
    (hmid : (engineSystem Fp countTick).Path s₁ mid s) (id : ℤ) :
    (∀ us, intervalOf (history pre id) = some us →
      ((history mid id).countP Event.isFired - 1) * (us * countTick.toNat) ≤
        microticks s.engine.clock - microticks s₁.engine.clock) ∧
    ∀ pre' t timer us, pre = pre' ++ [.opened t timer us] → timer.timerId = id →
      (history mid id).countP Event.isFired * (us * countTick.toNat) ≤
        microticks s.engine.clock - microticks timer.startclock := by
  obtain ⟨a₁, hrun, hR⟩ := hpre.paired ledger_simulation
  obtain ⟨a, hpath, -⟩ := hmid.paired ledger_simulation hR
  constructor
  · intro us hus
    have hstart : (a₁ id).Paces countTick us 1 (microticks s₁.engine.clock) 0
        s₁.engine.clock :=
      paces_of_facts (lifeFacts_of_run (hrun.snd.component id)) hus (hR.2.started id)
    have hend := (hstart.path hpath (Nat.le_refl (microticks s₁.engine.clock))).2.paced.2
    rwa [Nat.zero_add] at hend
  · rintro pre' t timer us rfl rfl
    obtain ⟨hdraft, hleft, hinterval⟩ := draft_of_opened hrun
    replace hdraft : a₁ timer.timerId = .draft timer := hdraft
    have hclock : timer.startclock ≤ s₁.engine.clock :=
      hR.2.started timer.timerId timer (by rw [hdraft]; rfl)
    have hstart : (a₁ timer.timerId).Paces countTick us 0 (microticks timer.startclock) 0
        s₁.engine.clock := by
      rw [hdraft]
      exact ⟨hleft, hinterval, hclock, Paced.zero (Nat.le_refl (microticks timer.startclock))⟩
    have hend := (hstart.path hpath (microticks_le hclock)).2.paced.2
    rwa [Nat.zero_add, Nat.sub_zero] at hend

/-- The timer of one millisecond of `sampleActs` fires at most once in its thousand ticks
of a microsecond. -/
theorem fires_paced_sample :
    (history (sampleTrace.drop 2) 1).countP Event.isFired * (1000 * (1000000 : UInt64).toNat) ≤
      microticks sampleState.engine.clock - microticks 5 := by
  obtain ⟨s₁, hpre, hmid⟩ := System.Run.split
    (show (engineSystem Unit 1000000).Run (sampleTrace.take 2 ++ sampleTrace.drop 2) sampleState
      from run_sampleTrace)
  exact (fires_paced hpre hmid 1).2 [.took 0 1] 0 sampleOnce 1000 rfl rfl

end Qing
