import Qing.Timer.Engine

/-!
# The life of a timer

What the engine is for, one timer at a time: an id is opened, inserted, visited by
`Update` until it is gone, and between two visits its callback may run. The
`ledger` is all these lives side by side. It knows of no table, no mutex and no
thread; that the engine follows it is shown in `Qing.Timer.Refine`.

The facts of this file are about one life: a timer never fires early
(`never_early`), a timer that runs once fires at most once (`fired_le_one`), and
it is kept exactly until it has fired as a `run_once` one or was found marked
(`kept_iff`).
-/

namespace Qing

variable {Fp : Type*}

/-- Where an id stands in its life. -/
inductive Phase (Fp : Type*)
  | absent
  | draft (timer : ETimer Fp)
  | live (timer : ETimer Fp)
  | firing (timer : ETimer Fp)
  | gone

def Phase.stored? : Phase Fp → Option (ETimer Fp)
  | live timer | firing timer => some timer
  | _ => none

namespace Event

/-- The id whose life an event belongs to. -/
def subject? : Event Fp → Option ℤ
  | opened _ timer _ | inserted _ _ timer => some timer.timerId
  | marked _ _ k | erased _ _ k | skipped _ _ k _ | fired _ _ k _ | rearmed _ _ k _ _ => some k
  | _ => none

/-- The interval an event opens a timer with, in microseconds. -/
def us? : Event Fp → Option ℕ
  | opened _ _ us => some us
  | _ => none

/-- The clock reading from which the time of a timer runs after an event. -/
def start? : Event Fp → Option UInt64
  | opened _ timer _ => some timer.startclock
  | rearmed _ _ _ now _ => some now
  | _ => none

def isFired : Event Fp → Bool
  | fired _ _ _ _ => true
  | _ => false

def isInserted : Event Fp → Bool
  | inserted _ _ _ => true
  | _ => false

def isMarked : Event Fp → Bool
  | marked _ _ _ => true
  | _ => false

def isVisit : Event Fp → Bool
  | erased _ _ _ | skipped _ _ _ _ | fired _ _ _ _ => true
  | _ => false

end Event

/-- The events of a history that are about the timer `id`. -/
def history (tr : List (Event Fp)) (id : ℤ) : List (Event Fp) :=
  System.about Event.subject? id tr

/-- The interval the timer of a history was opened with. -/
def intervalOf (h : List (Event Fp)) : Option ℕ := h.findSome? Event.us?

/-- The clock reading from which the time of the timer of a history runs: the one
of its registration, or the one after its latest callback. -/
def startOf (h : List (Event Fp)) : Option UInt64 := h.reverse.findSome? Event.start?

/-- The timer of a history was registered to run once. -/
def RunOnce (h : List (Event Fp)) : Prop :=
  ∃ t timer us, Event.opened t timer us ∈ h ∧ timer.runOnce = true

/-- The timer of a history was marked and then visited by `Update`. -/
def MarkedThenVisited (h : List (Event Fp)) : Prop :=
  ∃ pre post e, h = pre ++ e :: post ∧ e.isVisit = true ∧ ∃ m ∈ pre, m.isMarked = true

/-- What may happen to the timer `id`. -/
inductive LifeStep (countTick : UInt64) (id : ℤ) : Phase Fp → Event Fp → Phase Fp → Prop
  | opened (t : ThreadId) (timer : ETimer Fp) (us : ℕ) (hid : timer.timerId = id)
      (hmark : timer.needDelete = false) (hleft : timer.leftsecs = timer.interval)
      (hus : timer.interval.toNat = us) :
      LifeStep countTick id .absent (.opened t timer us) (.draft timer)
  | inserted (t : ThreadId) (tab : Tab) (timer : ETimer Fp) (hid : timer.timerId = id) :
      LifeStep countTick id (.draft timer) (.inserted t tab timer) (.live timer)
  | markedLive (t : ThreadId) (tab : Tab) (timer : ETimer Fp) :
      LifeStep countTick id (.live timer) (.marked t tab id) (.live timer.mark)
  | markedFiring (t : ThreadId) (tab : Tab) (timer : ETimer Fp) :
      LifeStep countTick id (.firing timer) (.marked t tab id) (.firing timer.mark)
  | erased (t : ThreadId) (tab : Tab) (timer : ETimer Fp) (hmark : timer.needDelete = true) :
      LifeStep countTick id (.live timer) (.erased t tab id) .gone
  | skipped (t : ThreadId) (tab : Tab) (timer : ETimer Fp) (now : UInt64)
      (hmark : timer.needDelete = false) :
      LifeStep countTick id (.live timer) (.skipped t tab id now) (.live timer)
  | fired (t : ThreadId) (tab : Tab) (timer : ETimer Fp) (now : UInt64)
      (hmark : timer.needDelete = false) (hclock : timer.startclock ≤ now)
      (hdue : timer.due countTick now = true) :
      LifeStep countTick id (.live timer) (.fired t tab id now) (.firing timer)
  | expired (t : ThreadId) (tab : Tab) (timer : ETimer Fp) (now : UInt64)
      (honce : timer.runOnce = true) :
      LifeStep countTick id (.firing timer) (.rearmed t tab id now true) .gone
  | rearmed (t : ThreadId) (tab : Tab) (timer : ETimer Fp) (now : UInt64)
      (honce : timer.runOnce = false) :
      LifeStep countTick id (.firing timer) (.rearmed t tab id now false)
        (.live (timer.rearm now))

/-- The life of one timer. -/
def lifeSystem (Fp : Type*) (countTick : UInt64) (id : ℤ) : System (Phase Fp) (Event Fp) where
  init p := p = .absent
  step := LifeStep countTick id

/-- The lives of all timers side by side. -/
def ledger (Fp : Type*) (countTick : UInt64) : System (ℤ → Phase Fp) (Event Fp) :=
  System.product Event.subject? (lifeSystem Fp countTick)

/-! ## Histories one event longer -/

theorem startOf_append (h : List (Event Fp)) (e : Event Fp) :
    startOf (h ++ [e]) = e.start?.or (startOf h) := by
  rw [startOf, List.reverse_append, List.reverse_singleton, List.singleton_append,
    List.findSome?_cons, startOf]
  cases e.start? <;> rfl

theorem intervalOf_append (h : List (Event Fp)) (e : Event Fp) :
    intervalOf (h ++ [e]) = (intervalOf h).or e.us? := by
  rw [intervalOf, List.findSome?_append, intervalOf]
  cases he : e.us? <;> simp [he]

theorem runOnce_append (h : List (Event Fp)) (e : Event Fp) :
    RunOnce (h ++ [e]) ↔
      RunOnce h ∨ ∃ t timer us, e = .opened t timer us ∧ timer.runOnce = true := by
  simp only [RunOnce, List.mem_append, List.mem_singleton, or_and_right, exists_or, eq_comm]

theorem markedThenVisited_append (h : List (Event Fp)) (e : Event Fp) :
    MarkedThenVisited (h ++ [e]) ↔
      MarkedThenVisited h ∨ (e.isVisit = true ∧ ∃ m ∈ h, m.isMarked = true) := by
  constructor
  · rintro ⟨pre, post, v, heq, hv, hm⟩
    induction post using List.reverseRecOn with
    | nil =>
        obtain ⟨rfl, he⟩ := List.append_inj' heq rfl
        obtain rfl : e = v := by simpa using he
        exact Or.inr ⟨hv, hm⟩
    | append_singleton post w _ =>
        have heq' : h ++ [e] = (pre ++ v :: post) ++ [w] := by simpa using heq
        obtain ⟨rfl, -⟩ := List.append_inj' heq' rfl
        exact Or.inl ⟨pre, post, v, rfl, hv, hm⟩
  · rintro (⟨pre, post, v, rfl, hv, hm⟩ | ⟨hv, hm⟩)
    · exact ⟨pre, post ++ [e], v, by simp, hv, hm⟩
    · exact ⟨h, [], e, rfl, hv, hm⟩

/-! ## What a life records -/

/-- An entry agrees with the history of its timer. -/
structure Recorded (h : List (Event Fp)) (timer : ETimer Fp) : Prop where
  start : startOf h = some timer.startclock
  interval : intervalOf h = some timer.interval.toNat
  left : timer.leftsecs = timer.interval
  marked : timer.needDelete = true ↔ ∃ m ∈ h, m.isMarked = true
  once : RunOnce h ↔ timer.runOnce = true
  unvisited : ¬ MarkedThenVisited h

/-- What the history of a timer says in each phase of its life. -/
def LifeFacts (h : List (Event Fp)) : Phase Fp → Prop
  | .absent => h = []
  | .draft timer =>
      Recorded h timer ∧ h.countP Event.isFired = 0 ∧ ∀ e ∈ h, e.isInserted = false
  | .live timer =>
      Recorded h timer ∧ (timer.runOnce = true → h.countP Event.isFired = 0) ∧
        ∃ e ∈ h, e.isInserted = true
  | .firing timer =>
      Recorded h timer ∧ (timer.runOnce = true → h.countP Event.isFired = 1) ∧
        ∃ e ∈ h, e.isInserted = true
  | .gone =>
      (RunOnce h → h.countP Event.isFired ≤ 1) ∧ (∃ e ∈ h, e.isInserted = true) ∧
        ((RunOnce h ∧ ∃ e ∈ h, e.isFired = true) ∨ MarkedThenVisited h)

theorem Recorded.append {h : List (Event Fp)} {timer timer' : ETimer Fp} {e : Event Fp}
    (hr : Recorded h timer) (hstart : e.start?.or (some timer.startclock) = some timer'.startclock)
    (hinterval : timer'.interval = timer.interval) (hleft : timer'.leftsecs = timer'.interval)
    (hopen : e.us? = none) (hmark : timer'.needDelete = (timer.needDelete || e.isMarked))
    (honce : timer'.runOnce = timer.runOnce)
    (hvisit : e.isVisit = true → timer.needDelete = false) : Recorded (h ++ [e]) timer' where
  start := by rw [startOf_append, hr.start, hstart]
  interval := by rw [intervalOf_append, hr.interval, hinterval]; rfl
  left := hleft
  marked := by
    simp only [List.mem_append, List.mem_singleton, or_and_right, exists_or, exists_eq_left,
      ← hr.marked, hmark, Bool.or_eq_true]
  once := by
    have hnot : ¬ ∃ t d us, e = .opened t d us ∧ d.runOnce = true := by
      rintro ⟨t, d, us, rfl, -⟩
      cases hopen
    rw [runOnce_append, or_iff_left hnot, hr.once, honce]
  unvisited := by
    rw [markedThenVisited_append, ← hr.marked]
    rintro (hv | ⟨hv, hm⟩)
    · exact hr.unvisited hv
    · rw [hvisit hv] at hm
      cases hm

variable {countTick : UInt64} {id : ℤ}

theorem LifeFacts.step {h : List (Event Fp)} {p p' : Phase Fp} {e : Event Fp}
    (hf : LifeFacts h p) (hst : LifeStep countTick id p e p') : LifeFacts (h ++ [e]) p' := by
  cases hst with
  | opened t timer us hid hmark hleft hus =>
      obtain rfl : h = [] := hf
      refine ⟨⟨rfl, by simp [intervalOf, Event.us?, hus], hleft, ?_, ?_, ?_⟩, ?_, ?_⟩
      · simp [hmark, Event.isMarked]
      · simp [RunOnce]
      · rw [markedThenVisited_append]
        rintro (⟨pre, post, v, heq, -⟩ | ⟨hv, -⟩)
        · simp at heq
        · cases hv
      · simp [Event.isFired]
      · simp [Event.isInserted]
  | inserted t tab timer hid =>
      obtain ⟨hr, hfired, -⟩ := hf
      refine ⟨hr.append rfl rfl hr.left rfl ?_ rfl nofun, ?_, ?_⟩
      · simp [Event.isMarked]
      · intro _
        simp [hfired, Event.isFired]
      · exact ⟨.inserted t tab timer, by simp, rfl⟩
  | markedLive t tab timer | markedFiring t tab timer =>
      obtain ⟨hr, hfired, e, he, hins⟩ := hf
      refine ⟨hr.append rfl rfl hr.left rfl ?_ rfl nofun, ?_, e, by simp [he], hins⟩
      · simp [ETimer.mark, Event.isMarked]
      · intro honce
        simp [hfired honce, Event.isFired]
  | erased t tab timer hmark =>
      obtain ⟨hr, hfired, e, he, hins⟩ := hf
      refine ⟨?_, ⟨e, by simp [he], hins⟩, Or.inr ?_⟩
      · rw [runOnce_append]
        rintro (honce | ⟨_, _, _, heq, -⟩)
        · simp [hfired (hr.once.mp honce), Event.isFired]
        · cases heq
      · rw [markedThenVisited_append]
        exact Or.inr ⟨rfl, hr.marked.mp hmark⟩
  | skipped t tab timer now hmark =>
      obtain ⟨hr, hfired, e, he, hins⟩ := hf
      refine ⟨hr.append rfl rfl hr.left rfl ?_ rfl fun _ => hmark, ?_, e, by simp [he], hins⟩
      · simp [Event.isMarked]
      · intro honce
        simp [hfired honce, Event.isFired]
  | fired t tab timer now hmark hclock hdue =>
      obtain ⟨hr, hfired, e, he, hins⟩ := hf
      refine ⟨hr.append rfl rfl hr.left rfl ?_ rfl fun _ => hmark, ?_, e, by simp [he], hins⟩
      · simp [Event.isMarked]
      · intro honce
        simp [hfired honce, Event.isFired]
  | expired t tab timer now honce =>
      obtain ⟨hr, hfired, e, he, hins⟩ := hf
      have hone := hfired honce
      refine ⟨fun _ => by simp [hone, Event.isFired], ⟨e, by simp [he], hins⟩, Or.inl ⟨?_, ?_⟩⟩
      · rw [runOnce_append]
        exact Or.inl (hr.once.mpr honce)
      · obtain ⟨v, hv, hvf⟩ := List.countP_pos_iff.mp (by rw [hone]; exact Nat.one_pos)
        exact ⟨v, by simp [hv], hvf⟩
  | rearmed t tab timer now honce =>
      obtain ⟨hr, -, e, he, hins⟩ := hf
      refine ⟨hr.append rfl rfl rfl rfl ?_ rfl nofun, ?_, e, by simp [he], hins⟩
      · simp [ETimer.rearm, Event.isMarked]
      · intro honce'
        rw [show (timer.rearm now).runOnce = timer.runOnce from rfl, honce] at honce'
        cases honce'

theorem lifeFacts_of_run {h : List (Event Fp)} {p : Phase Fp}
    (hrun : (lifeSystem Fp countTick id).Run h p) : LifeFacts h p := by
  refine System.Run.induction (P := fun h p => LifeFacts h p) ?_ ?_ hrun
  · rintro p rfl
    rfl
  · exact fun h p e p' _ ih hst => ih.step hst

/-- A timer that runs once fires at most once in its life. -/
theorem fired_le_one {h : List (Event Fp)} {p : Phase Fp}
    (hrun : (lifeSystem Fp countTick id).Run h p) (honce : RunOnce h) :
    h.countP Event.isFired ≤ 1 := by
  have hf := lifeFacts_of_run hrun
  cases p with
  | absent =>
      obtain rfl : h = [] := hf
      exact Nat.zero_le 1
  | draft timer => exact hf.2.1.le.trans (Nat.zero_le 1)
  | live timer => exact (hf.2.1 (hf.1.once.mp honce)).le.trans (Nat.zero_le 1)
  | firing timer => exact (hf.2.1 (hf.1.once.mp honce)).le
  | gone => exact hf.1 honce

/-- A timer fires no earlier than its interval after the reading its time runs
from. -/
theorem never_early {h : List (Event Fp)} {p p' : Phase Fp} {t : ThreadId} {tab : Tab}
    {k : ℤ} {now : UInt64} (hrun : (lifeSystem Fp countTick id).Run h p)
    (hst : LifeStep countTick id p (.fired t tab k now) p') :
    ∃ us start, intervalOf h = some us ∧ startOf h = some start ∧ start ≤ now ∧
      us * countTick.toNat ≤ (now.toNat - start.toNat) * 1000000 := by
  cases hst with
  | fired _ _ timer _ _ hclock hdue =>
      have hr : Recorded h timer := (lifeFacts_of_run hrun).1
      refine ⟨_, _, hr.interval, hr.start, hclock, ?_⟩
      rw [← hr.left]
      exact ETimer.mul_le_of_due hclock hdue

/-- A timer that is not being fired is kept exactly when it was inserted, has not
fired as a `run_once` one, and was not visited after it was marked. -/
theorem kept_iff {h : List (Event Fp)} {p : Phase Fp}
    (hrun : (lifeSystem Fp countTick id).Run h p) (hidle : ∀ timer, p ≠ .firing timer) :
    p.stored?.isSome ↔ (∃ e ∈ h, e.isInserted = true) ∧
      ¬ (RunOnce h ∧ ∃ e ∈ h, e.isFired = true) ∧ ¬ MarkedThenVisited h := by
  have hf := lifeFacts_of_run hrun
  cases p with
  | absent =>
      obtain rfl : h = [] := hf
      simp [Phase.stored?]
  | draft timer =>
      refine ⟨nofun, ?_⟩
      rintro ⟨⟨e, he, hins⟩, -⟩
      rw [hf.2.2 e he] at hins
      cases hins
  | live timer =>
      refine ⟨fun _ => ⟨hf.2.2, ?_, hf.1.unvisited⟩, fun _ => rfl⟩
      rintro ⟨honce, e, he, hfired⟩
      have hpos := List.countP_pos_iff.mpr ⟨e, he, hfired⟩
      rw [hf.2.1 (hf.1.once.mp honce)] at hpos
      exact lt_irrefl 0 hpos
  | firing timer => exact absurd rfl (hidle timer)
  | gone =>
      refine ⟨nofun, ?_⟩
      rintro ⟨-, hfired, hvisited⟩
      exact absurd hf.2.2 (not_or.mpr ⟨hfired, hvisited⟩)

/-! ## Cancelled timers -/

/-- The timer has been inserted. -/
def Phase.Settled : Phase Fp → Prop
  | .absent | .draft _ => False
  | _ => True

/-- The timer has been inserted, and is marked if it is still kept. -/
def Phase.Cancelled (p : Phase Fp) : Prop :=
  p.Settled ∧ ∀ timer, p.stored? = some timer → timer.needDelete = true

variable {p p' : Phase Fp} {e : Event Fp} {h : List (Event Fp)}

theorem settled_of_inserted (hrun : (lifeSystem Fp countTick id).Run h p)
    (hins : ∃ e ∈ h, e.isInserted = true) : p.Settled := by
  obtain ⟨e, he, hins⟩ := hins
  have hf := lifeFacts_of_run hrun
  cases p with
  | absent =>
      obtain rfl : h = [] := hf
      cases he
  | draft timer =>
      rw [hf.2.2 e he] at hins
      cases hins
  | live | firing | gone => trivial

theorem LifeStep.settled (hst : LifeStep countTick id p e p') (hp : p.Settled) : p'.Settled := by
  cases hst with
  | opened | inserted => exact hp.elim
  | markedLive | markedFiring | erased | skipped | fired | expired | rearmed => trivial

theorem LifeStep.cancelled_of_marked (hst : LifeStep countTick id p e p')
    (he : e.isMarked = true) : p'.Cancelled := by
  cases hst with
  | markedLive | markedFiring =>
      refine ⟨trivial, fun d hd => ?_⟩
      obtain rfl := Option.some.inj hd
      rfl
  | opened | inserted | erased | skipped | fired | expired | rearmed => cases he

/-- A cancelled timer stays cancelled, and what happens to it is never that it
fires. -/
theorem LifeStep.cancelled (hst : LifeStep countTick id p e p') (hp : p.Cancelled) :
    p'.Cancelled ∧ e.isFired = false := by
  cases hst with
  | opened | inserted => exact hp.1.elim
  | markedLive t tab timer | markedFiring t tab timer =>
      refine ⟨⟨trivial, fun d hd => ?_⟩, rfl⟩
      obtain rfl := Option.some.inj hd
      rfl
  | erased | expired => exact ⟨⟨trivial, nofun⟩, rfl⟩
  | skipped t tab timer now hmark | fired t tab timer now hmark =>
      rw [hp.2 timer rfl] at hmark
      cases hmark
  | rearmed t tab timer now =>
      refine ⟨⟨trivial, fun d hd => ?_⟩, rfl⟩
      obtain rfl := Option.some.inj hd
      exact hp.2 timer rfl

theorem not_fired_of_cancelled (hpath : (lifeSystem Fp countTick id).Path p h p')
    (hp : p.Cancelled) : p'.Cancelled ∧ ∀ e ∈ h, e.isFired = false := by
  induction hpath with
  | refl => exact ⟨hp, nofun⟩
  | @tail p₁ p₂ h e _ hst ih =>
      obtain ⟨hp₁, hold⟩ := ih
      obtain ⟨hp₂, he⟩ := hst.cancelled hp₁
      refine ⟨hp₂, fun v hv => ?_⟩
      rcases List.mem_append.mp hv with hv | hv
      · exact hold v hv
      · rw [List.mem_singleton.mp hv]
        exact he

end Qing
