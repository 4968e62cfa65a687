import Mathlib.Order.WellFounded
import Qing.Timer.Spawn

/-!
# Passes that do not end

For callbacks that only register, and do the same at each call, the condition of `Spawn.lean`
is exact (`update_returns`): if one of them starts a chain without end, there is a clock under
which a pass that meets it does not return. The clock is found as the pass goes on. It stands
still until the loop stands on the next timer of a chain, and then reads what makes that one
due (`Pending.turn`). What a turn does depends only on the readings that are made by its end
(`turn_congr`), so what is found turn by turn is one clock (`exists_clock`).
-/

namespace Qing

variable {Fp : Type*}

def CallbackOp.Registers : CallbackOp Fp → Prop
  | register _ _ _ _ => True
  | unRegister _ => False

/-- The relation between the callback of a timer and the one that registers it, for callbacks
that do the same at each call. -/
def SpawnedBy (body : Fp → List (CallbackOp Fp)) (fp' fp : Fp) : Prop :=
  ∃ unit runOnce i, .register unit runOnce i fp' ∈ body fp

/-- Timers go to the table that `Register` tries first, and the clock ticks once a second. -/
def Outside.ofBody (body : Fp → List (CallbackOp Fp)) (clock : ℕ → UInt64) : Outside Fp where
  countTick := 1
  clock := clock
  place _ := .timers2
  calls _ := body

/-! ## What a turn depends on -/

section Congr

variable {body : Fp → List (CallbackOp Fp)} {c c' : ℕ → UInt64} {p p' : Pass Fp} {tab : Tab}
  {k : ℤ} {timer : ETimer Fp}

theorem getClock_congr (h : c' p.readings = c p.readings) :
    p.getClock (.ofBody body c') = p.getClock (.ofBody body c) := by
  simp only [Pass.getClock, Outside.ofBody, h]

theorem rearm_congr (h : c' p.readings = c p.readings) :
    p.rearm (.ofBody body c') tab k = p.rearm (.ofBody body c) tab k := by
  rw [Pass.rearm, Pass.rearm, getClock_congr h]

theorem apply_congr (op : CallbackOp Fp)
    (h : ∀ i < (p.apply (.ofBody body c) op).readings, c' i = c i) :
    p.apply (.ofBody body c') op = p.apply (.ofBody body c) op := by
  cases op with
  | unRegister timerId => rfl
  | register unit runOnce i fp =>
      let timerId := p.engine.curTimerId + 1
      let q : Pass Fp := { p with engine := { p.engine with curTimerId := timerId } }
      have hread : q.getClock (.ofBody body c') = q.getClock (.ofBody body c) :=
        getClock_congr (h _ (Nat.lt_succ_self _))
      have hregister : ∀ clock, p.apply (.ofBody body clock) (.register unit runOnce i fp) =
          { (q.getClock (.ofBody body clock)).2 with
            engine := (q.getClock (.ofBody body clock)).2.engine.insert .timers2
              ((ETimer.declare runOnce timerId fp).opened unit i fp
                (q.getClock (.ofBody body clock)).1) } := fun _ => rfl
      rw [hregister, hregister, hread]

theorem foldl_congr (ops : List (CallbackOp Fp))
    (h : ∀ i < (ops.foldl (Pass.apply (.ofBody body c)) p).readings, c' i = c i) :
    ops.foldl (Pass.apply (.ofBody body c')) p = ops.foldl (Pass.apply (.ofBody body c)) p := by
  induction ops generalizing p with
  | nil => rfl
  | cons op ops ih =>
      obtain ⟨-, hle, -⟩ :=
        Pass.foldl_apply (o := .ofBody body c) ops (p.apply (.ofBody body c) op)
      rw [List.foldl_cons, List.foldl_cons, apply_congr op fun i hi => h i (hi.trans_le hle)]
      exact ih h

theorem fired_congr
    (h : ∀ i < (p.fired (.ofBody body c) tab k timer).readings, c' i = c i) :
    p.fired (.ofBody body c') tab k timer = p.fired (.ofBody body c) tab k timer := by
  obtain ⟨hfirst, hlast, -⟩ := Pass.log_fired (.ofBody body c) tab k timer p
  have hread : c' p.readings = c p.readings := h _ (by omega)
  have hran : p.ran (.ofBody body c') tab k timer = p.ran (.ofBody body c) tab k timer := by
    have hvisit : (p.visit tab k timer).getClock (.ofBody body c') =
        (p.visit tab k timer).getClock (.ofBody body c) := getClock_congr hread
    rw [Pass.ran, Pass.ran, hvisit]
    exact foldl_congr _ fun i hi => h i (by rw [hlast]; exact Nat.lt_succ_of_lt hi)
  have hreturn : c' (p.ran (.ofBody body c) tab k timer).readings =
      c (p.ran (.ofBody body c) tab k timer).readings := h _ (by omega)
  have hfired : ∀ clock, p.fired (.ofBody body clock) tab k timer =
      { p.ran (.ofBody body clock) tab k timer with
        called := (p.ran (.ofBody body clock) tab k timer).called ++
          [⟨tab, k, timer.fp, (p.ran (.ofBody body clock) tab k timer).readings⟩] :
        Pass Fp }.rearm (.ofBody body clock) tab k := fun _ => rfl
  rw [hfired, hfired, hran]
  exact rearm_congr hreturn

/-- A turn does the same under clocks that agree up to the last reading it makes. -/
theorem turn_congr {it' : Option ℤ} (h : p.turn (.ofBody body c) tab k = some (p', it'))
    (hagree : ∀ i < p'.readings, c' i = c i) :
    p.turn (.ofBody body c') tab k = some (p', it') := by
  cases hfind : (p.engine.timers tab).find? k with
  | none =>
      rw [Pass.turn, hfind] at h
      cases h
  | some timer =>
      cases hmark : timer.needDelete with
      | true =>
          rw [Pass.turn_of_marked hfind hmark] at h ⊢
          exact h
      | false =>
          cases hdue : timer.due (Outside.ofBody body c).countTick (c p.readings) with
          | false =>
              rw [Pass.turn_of_early hfind hmark hdue] at h
              obtain ⟨rfl, rfl⟩ := Prod.mk.inj (Option.some.inj h)
              have hread : c' p.readings = c p.readings :=
                hagree p.readings (Nat.lt_succ_self p.readings)
              have hvisit : (p.visit tab k timer).getClock (.ofBody body c') =
                  (p.visit tab k timer).getClock (.ofBody body c) := getClock_congr hread
              rw [← hread] at hdue
              rw [Pass.turn_of_early (o := .ofBody body c') hfind hmark hdue, hvisit]
          | true =>
              rw [Pass.turn_of_due hfind hmark hdue] at h
              obtain ⟨rfl, rfl⟩ := Prod.mk.inj (Option.some.inj h)
              obtain ⟨hfirst, hlast, -⟩ := Pass.log_fired (.ofBody body c) tab k timer p
              have hreadings : (if timer.runOnce = true then
                  (p.fired (.ofBody body c) tab k timer).erase tab k
                  else p.fired (.ofBody body c) tab k timer).readings =
                    (p.fired (.ofBody body c) tab k timer).readings := by
                split_ifs <;> rfl
              rw [hreadings] at hagree
              have hread : c' p.readings = c p.readings := hagree _ (by omega)
              rw [← hread] at hdue
              rw [Pass.turn_of_due (o := .ofBody body c') hfind hmark hdue, fired_congr hagree]

end Congr

/-! ## Chains without end -/

/-- The engine with one timer, of interval 0. -/
def TimerThread.single (fp : Fp) : TimerThread Fp :=
  { TimerThread.init.insert .timers2 ((ETimer.declare true 1 fp).openSec 0 fp 0) with
    curTimerId := 1 }

/-- A timer that is due at some reading, and whose callback starts a chain without end. -/
structure Endless (body : Fp → List (CallbackOp Fp)) (timer : ETimer Fp) : Prop where
  due : ∃ now, timer.due 1 now = true
  chain : ¬Acc (SpawnedBy body) timer.fp

/-- No id above the counter is taken, and no timer is marked. -/
def Orderly (p : Pass Fp) : Prop :=
  ∀ k timer, (p.engine.timers .timers2).find? k = some timer →
    k ≤ p.engine.curTimerId ∧ timer.needDelete = false

/-- The loop over `_timers2` stands on an entry, and has an endless one ahead. -/
structure Pending (body : Fp → List (CallbackOp Fp)) (p : Pass Fp) (it : Option ℤ) : Prop where
  orderly : Orderly p
  ahead : ∃ j k timer, it = some j ∧ ((p.engine.timers .timers2).find? j).isSome ∧ j ≤ k ∧
    (p.engine.timers .timers2).find? k = some timer ∧ Endless body timer

theorem ETimer.exists_due_opened (unit : IntervalUnit) (timer : ETimer Fp) (i : Int32) (fp : Fp)
    (start : UInt64) : ∃ now, (timer.opened unit i fp start).due 1 now = true := by
  have hi : i.toUInt32.toNat < 2 ^ 32 := i.toUInt32.toNat_lt
  have hunit : unit.us ≤ 1000000 := by cases unit <;> decide
  refine ⟨i.toUInt32.toUInt64 + start, decide_eq_true (UInt64.le_iff_toNat_le.mpr ?_)⟩
  rw [opened_leftsecs, opened_interval, opened_startclock, toNat_getIntervalMacroSecs,
    UInt64.add_sub_cancel, UInt32.toNat_toUInt64, Nat.mod_eq_of_lt (by omega)]
  calc intervalUs unit i ≤ i.toUInt32.toNat * 1000000 := Nat.mul_le_mul_left _ hunit
    _ = i.toUInt32.toNat * 1000000 / UInt64.toNat 1 := (Nat.div_one _).symm

section Endless

variable {body : Fp → List (CallbackOp Fp)} {c : ℕ → UInt64} {p p' : Pass Fp} {j k : ℤ}
  {timer : ETimer Fp}

variable (body c) in
theorem find?_register_of_orderly (h : Orderly p) (unit : IntervalUnit) (runOnce : Bool)
    (i : Int32) (fp : Fp) (k : ℤ) :
    ((p.register (.ofBody body c) unit runOnce i fp).engine.timers .timers2).find? k =
      if k = p.engine.curTimerId + 1 then
        some ((ETimer.declare runOnce (p.engine.curTimerId + 1) fp).opened unit i fp
          (c p.readings))
      else (p.engine.timers .timers2).find? k := by
  have hfree : (p.engine.timers .timers2).find? (p.engine.curTimerId + 1) = none := by
    cases hfind : (p.engine.timers .timers2).find? (p.engine.curTimerId + 1) with
    | none => rfl
    | some timer =>
        have hle := (h _ _ hfind).1
        omega
  have htimers :=
    Pass.timers_register (o := .ofBody body c) unit runOnce i fp p .timers2
  rw [htimers, if_pos (show Tab.timers2 = (Outside.ofBody body c).place _ from rfl),
    OrderedMap.find?_insert, hfree, Option.getD_none]
  rfl

variable (body c) in
theorem grows_foldl {ops : List (CallbackOp Fp)} (hops : ∀ op ∈ ops, op.Registers)
    (h : Orderly p) :
    Orderly (ops.foldl (Pass.apply (.ofBody body c)) p) ∧
      p.engine.curTimerId ≤ (ops.foldl (Pass.apply (.ofBody body c)) p).engine.curTimerId ∧
      ∀ k timer, (p.engine.timers .timers2).find? k = some timer →
        ((ops.foldl (Pass.apply (.ofBody body c)) p).engine.timers .timers2).find? k =
          some timer := by
  induction ops generalizing p with
  | nil => exact ⟨h, le_rfl, fun _ _ hk => hk⟩
  | cons op ops ih =>
      cases op with
      | unRegister timerId => exact absurd (hops _ List.mem_cons_self) id
      | register unit runOnce i fp =>
          have hfind := find?_register_of_orderly body c h unit runOnce i fp
          have hcur : (p.register (.ofBody body c) unit runOnce i fp).engine.curTimerId =
              p.engine.curTimerId + 1 := rfl
          have horderly : Orderly (p.register (.ofBody body c) unit runOnce i fp) := by
            intro j timer hj
            rw [hfind] at hj
            split_ifs at hj with hid
            · rw [← Option.some.inj hj, ETimer.opened_needDelete]
              exact ⟨(hcur.trans hid.symm).ge, rfl⟩
            · obtain ⟨hle, hmark⟩ := h j timer hj
              exact ⟨by omega, hmark⟩
          obtain ⟨horderly', hcur', hkept⟩ :=
            ih (fun op' hop' => hops op' (List.mem_cons_of_mem _ hop')) horderly
          refine ⟨horderly', by rw [hcur] at hcur'; exact (Int.le_add_one le_rfl).trans hcur',
            fun k timer hk => hkept k timer ?_⟩
          rw [hfind, if_neg, hk]
          rintro rfl
          have hle := (h _ _ hk).1
          omega

variable (c) in
theorem exists_endless (hbody : ∀ fp, ∀ op ∈ body fp, op.Registers) {fp : Fp}
    (hchain : ¬Acc (SpawnedBy body) fp) (h : Orderly p) :
    ∃ k timer, p.engine.curTimerId < k ∧
      (((body fp).foldl (Pass.apply (.ofBody body c)) p).engine.timers .timers2).find? k =
        some timer ∧ Endless body timer := by
  obtain ⟨fp', hchain', unit, runOnce, i, hmem⟩ := exists_not_acc_lt_of_not_acc hchain
  obtain ⟨before, after, hsplit⟩ := List.append_of_mem hmem
  have hregisters := hbody fp
  rw [hsplit] at hregisters
  rw [hsplit, List.foldl_append, List.foldl_cons]
  obtain ⟨horderly, hcur, -⟩ := grows_foldl body c
    (fun op hop => hregisters op (List.mem_append_left _ hop)) h
  generalize before.foldl (Pass.apply (.ofBody body c)) p = q at horderly hcur
  have hnew := find?_register_of_orderly body c horderly unit runOnce i fp'
    (q.engine.curTimerId + 1)
  rw [if_pos rfl] at hnew
  have horderly' := (grows_foldl body c
    (fun op hop => hregisters op (List.mem_append_right _ (by
      rw [List.mem_singleton.mp hop]; exact List.mem_cons_self))) horderly).1
  obtain ⟨-, -, hkept⟩ := grows_foldl body c
    (fun op hop => hregisters op (List.mem_append_right _ (List.mem_cons_of_mem _ hop)))
    horderly'
  refine ⟨q.engine.curTimerId + 1, _, by omega, hkept _ _ hnew,
    ETimer.exists_due_opened _ _ _ _ _, ?_⟩
  rwa [ETimer.opened_fp]

theorem pending_of_next {m : TimerMap Fp} (hk : m.find? k = some timer) (hjk : j < k)
    (htimer : Endless body timer) (horderly : Orderly p')
    (hfinal : ∀ i ≠ j, (p'.engine.timers .timers2).find? i = m.find? i) :
    Pending body p' (m.next? j) := by
  obtain ⟨i, hi, hik⟩ := OrderedMap.next?_le hjk (Option.isSome_of_eq_some hk)
  have hji := OrderedMap.lt_of_next? hi
  refine ⟨horderly, i, k, timer, hi, ?_, hik, ?_, htimer⟩
  · rw [hfinal i hji.ne']
    exact OrderedMap.next?_isSome_find? hi
  · rw [hfinal k hjk.ne', hk]

theorem find?_erase_pass (p : Pass Fp) (i j : ℤ) :
    ((p.erase .timers2 j).engine.timers .timers2).find? i =
      if i = j then none else (p.engine.timers .timers2).find? i := by
  rw [Pass.erase, TimerThread.find?_erase]
  simp

theorem Orderly.erase (h : Orderly p) (j : ℤ) : Orderly (p.erase .timers2 j) := by
  intro i timer hi
  rw [find?_erase_pass] at hi
  split_ifs at hi
  exact h i timer hi

theorem orderly_fired (horderly : Orderly (p.ran (.ofBody body c) .timers2 j timer)) :
    Orderly (p.fired (.ofBody body c) .timers2 j timer) := by
  intro i timer' hi
  rw [Pass.timers_fired, if_pos rfl, OrderedMap.find?_modify] at hi
  split_ifs at hi with hij
  · obtain ⟨timer₀, hfind, rfl⟩ := Option.map_eq_some_iff.mp hi
    exact horderly i timer₀ hfind
  · exact horderly i timer' hi

/-- A turn of the loop keeps an endless timer ahead, the one there was, or one that its
callback has registered, if the clock then reads what makes the timer met due. -/
theorem Pending.turn (hbody : ∀ fp, ∀ op ∈ body fp, op.Registers) {it : Option ℤ}
    (h : Pending body p it) :
    ∃ j now, it = some j ∧ ∀ c : ℕ → UInt64, c p.readings = now →
      ∃ p' it', p.turn (.ofBody body c) .timers2 j = some (p', it') ∧
        p.readings < p'.readings ∧ Pending body p' it' := by
  obtain ⟨horderly, j, k, timer, rfl, hj, hjk, hk, htimer⟩ := h
  obtain ⟨met, hmet⟩ := Option.isSome_iff_exists.mp hj
  obtain ⟨hjcur, hmark⟩ := horderly j met hmet
  -- the entry met is the endless one, or that one lies beyond
  have hcase : j = k ∧ Endless body met ∨ j < k := by
    rcases eq_or_lt_of_le hjk with rfl | hlt
    · rw [Option.some.inj (hmet.symm.trans hk)]
      exact Or.inl ⟨rfl, htimer⟩
    · exact Or.inr hlt
  obtain ⟨now, hnow⟩ : ∃ now, Endless body met → met.due 1 now = true := by
    by_cases hendless : Endless body met
    · obtain ⟨now, hdue⟩ := hendless.due
      exact ⟨now, fun _ => hdue⟩
    · exact ⟨0, fun h => absurd h hendless⟩
  refine ⟨j, now, rfl, fun c hread => ?_⟩
  cases hdue : met.due (Outside.ofBody body c).countTick (c p.readings) with
  | false =>
      have hlt : j < k := by
        rcases hcase with ⟨-, hendless⟩ | hlt
        · have hdue' := hnow hendless
          rw [← hread] at hdue'
          exact absurd (hdue'.symm.trans hdue) Bool.noConfusion
        · exact hlt
      exact ⟨_, _, Pass.turn_of_early hmet hmark hdue, Nat.lt_succ_self _,
        pending_of_next hk hlt htimer horderly fun _ _ => rfl⟩
  | true =>
      let o : Outside Fp := .ofBody body c
      have hvisited : Orderly ((p.visit .timers2 j met).getClock o).2 := horderly
      obtain ⟨hran, hcur, hkept⟩ := grows_foldl body c (hbody met.fp) hvisited
      obtain ⟨hfirst, hlast, -⟩ := Pass.log_fired o .timers2 j met p
      -- an endless timer beyond the entry met, once its callback has returned
      have hbeyond : ∃ k timer, j < k ∧
          ((p.ran o .timers2 j met).engine.timers .timers2).find? k = some timer ∧
            Endless body timer := by
        rcases hcase with ⟨-, hendless⟩ | hlt
        · obtain ⟨k', timer', hk', hfind, hendless'⟩ :=
            exists_endless c hbody hendless.chain hvisited
          exact ⟨k', timer', lt_of_le_of_lt hjcur hk', hfind, hendless'⟩
        · exact ⟨k, timer, hlt, hkept k timer hk, htimer⟩
      obtain ⟨k', timer', hjk', hk', htimer'⟩ := hbeyond
      have hfind : ∀ i ≠ j, ((p.fired o .timers2 j met).engine.timers .timers2).find? i =
          ((p.ran o .timers2 j met).engine.timers .timers2).find? i := by
        intro i hi
        rw [Pass.timers_fired, if_pos rfl, OrderedMap.find?_modify, if_neg hi]
      have hfired : Orderly (p.fired o .timers2 j met) := orderly_fired hran
      rw [← hfind k' hjk'.ne'] at hk'
      refine ⟨_, _, Pass.turn_of_due hmet hmark hdue, ?_,
        pending_of_next hk' hjk' htimer' ?_ ?_⟩
      · split_ifs
        · exact show p.readings < (p.fired o .timers2 j met).readings by omega
        · exact show p.readings < (p.fired o .timers2 j met).readings by omega
      · split_ifs
        · exact hfired.erase j
        · exact hfired
      · intro i hi
        split_ifs
        · rw [find?_erase_pass, if_neg hi]
        · rfl

/-- A pass in the loop over `_timers2`, with the clock that was found so far. -/
structure Course (body : Fp → List (CallbackOp Fp)) where
  clock : ℕ → UInt64
  pass : Pass Fp
  it : Option ℤ
  pending : Pending body pass it

/-- One turn more, under a clock found for it that keeps the readings there were. -/
def Course.Next (y x : Course body) : Prop :=
  (∀ i < x.pass.readings, y.clock i = x.clock i) ∧ x.pass.readings < y.pass.readings ∧
    ∃ j, x.it = some j ∧
      x.pass.turn (.ofBody body y.clock) .timers2 j = some (y.pass, y.it)

theorem Course.exists_next (hbody : ∀ fp, ∀ op ∈ body fp, op.Registers) (x : Course body) :
    ∃ y, Course.Next y x := by
  obtain ⟨c, p, it, hpending⟩ := x
  obtain ⟨j, now, rfl, hturn⟩ := hpending.turn hbody
  let c' : ℕ → UInt64 := fun i => if i < p.readings then c i else now
  obtain ⟨p', it', hturn', hlt, hpending'⟩ := hturn c' (if_neg (lt_irrefl _))
  exact ⟨⟨c', p', it', hpending'⟩, fun i hi => if_pos hi, hlt, j, rfl, hturn'⟩

theorem exists_limit {α : Type*} {f : ℕ → ℕ → α} {r : ℕ → ℕ} (hr : StrictMono r)
    (h : ∀ n, ∀ i < r n, f (n + 1) i = f n i) :
    ∃ g : ℕ → α, ∀ n, ∀ i < r n, g i = f n i := by
  have hkeeps : ∀ m n, m ≤ n → ∀ i < r m, f n i = f m i := by
    intro m n hmn i hi
    induction n, hmn using Nat.le_induction with
    | base => rfl
    | succ n hmn ih => exact (h n i (hi.trans_le (hr.monotone hmn))).trans ih
  refine ⟨fun i => f (i + 1) i, fun n i hi => ?_⟩
  rcases le_total n (i + 1) with hle | hle
  · exact hkeeps n (i + 1) hle i hi
  · exact (hkeeps (i + 1) n hle i (hr.le_apply (x := i + 1))).symm

/-- There is a clock under which a loop with an endless timer ahead goes on for ever: what
it reads up to a turn is what was found by then. -/
theorem exists_clock (hbody : ∀ fp, ∀ op ∈ body fp, op.Registers) {it : Option ℤ}
    (h : Pending body p it) :
    ∃ c : ℕ → UInt64, ∀ n, Pass.loop (.ofBody body c) .timers2 n it p = none := by
  have hnever : ∀ x : Course body, ¬Acc Course.Next x := by
    intro x hacc
    induction hacc with
    | intro x _ ih =>
        obtain ⟨y, hy⟩ := x.exists_next hbody
        exact ih y hy
  obtain ⟨s, hstart, hs⟩ :=
    not_acc_iff_exists_descending_chain.mp (hnever ⟨fun _ => 0, p, it, h⟩)
  obtain ⟨c, hc⟩ := exists_limit (f := fun n => (s n).clock) (r := fun n => (s n).pass.readings)
    (strictMono_nat_of_lt_succ fun n => (hs n).2.1) fun n => (hs n).1
  refine ⟨c, fun fuel => ?_⟩
  suffices hall : ∀ n, Pass.loop (.ofBody body c) .timers2 fuel (s n).it (s n).pass = none by
    have hfirst := hall 0
    rwa [hstart] at hfirst
  induction fuel with
  | zero =>
      intro n
      obtain ⟨-, -, j, hj, -⟩ := hs n
      rw [hj, Pass.loop]
  | succ fuel ih =>
      intro n
      obtain ⟨-, -, j, hj, hturn⟩ := hs n
      rw [hj, Pass.loop, turn_congr hturn (hc (n + 1))]
      exact ih (n + 1)

end Endless

/-- A pass that meets a timer whose callback starts a chain without end does not return,
whatever number of turns it is given, under some clock. -/
theorem never_returns {body : Fp → List (CallbackOp Fp)}
    (hbody : ∀ fp, ∀ op ∈ body fp, op.Registers) {fp : Fp}
    (hchain : ¬Acc (SpawnedBy body) fp) :
    ∃ c, ¬(Outside.ofBody body c).Returns (TimerThread.single fp) := by
  have hfind : ∀ k, ((TimerThread.single fp).timers .timers2).find? k =
      if k = 1 then some ((ETimer.declare true 1 fp).openSec 0 fp 0) else none := by
    intro k
    exact (OrderedMap.find?_insert OrderedMap.empty 1 k _).trans rfl
  have hfirst : ((TimerThread.single fp).timers .timers2).first? = some 1 := rfl
  have hpending : Pending body { engine := TimerThread.single fp } (some 1) := by
    refine ⟨fun k timer hk => ?_, 1, 1, _, rfl, ?_, le_rfl, (hfind 1).trans (if_pos rfl), ?_⟩
    · change ((TimerThread.single fp).timers .timers2).find? k = some timer at hk
      rw [hfind] at hk
      split_ifs at hk with h
      exact ⟨h.le, by rw [← Option.some.inj hk]; rfl⟩
    · exact Option.isSome_of_eq_some ((hfind 1).trans (if_pos rfl))
    · exact ⟨⟨0, rfl⟩, hchain⟩
  obtain ⟨c, hloop⟩ := exists_clock hbody hpending
  refine ⟨c, ?_⟩
  rintro ⟨n, p, hupdate⟩
  have hloop₁ : Pass.loop (.ofBody body c) .timers1 n
      ((TimerThread.single fp).timers .timers1).first? { engine := TimerThread.single fp } =
        some { engine := TimerThread.single fp } := by
    rw [show ((TimerThread.single fp).timers .timers1).first? = none from rfl, Pass.loop]
  rw [Pass.update, hloop₁, Option.bind_some, hfirst, hloop n] at hupdate
  cases hupdate

theorem wellFounded_spawns {body : Fp → List (CallbackOp Fp)}
    (h : WellFounded (SpawnedBy body)) : WellFounded (Spawns fun _ => body) := by
  have hsub : Subrelation (Spawns fun _ => body) (InvImage (SpawnedBy body) Prod.snd) := by
    intro x y h
    obtain ⟨n, -, -, hspawned⟩ := h
    exact hspawned
  exact hsub.wf (InvImage.wf Prod.snd h)

/-- Every call of `Update` returns, whatever the clock reads, if no callbacks spawn one another
without end; and for callbacks that register and do the same at each call, only then. -/
theorem update_returns :
    (∀ o : Outside Fp, WellFounded (Spawns o.calls) → ∀ g, o.Returns g) ∧
      ∀ body : Fp → List (CallbackOp Fp), (∀ fp, ∀ op ∈ body fp, op.Registers) →
        ((∀ o : Outside Fp, o.calls = (fun _ => body) → ∀ g, o.Returns g) ↔
          WellFounded (SpawnedBy body)) := by
  refine ⟨fun o h g => returns_of_wellFounded h g, fun body hbody => ⟨fun h => ?_, ?_⟩⟩
  · refine ⟨fun fp => by_contra fun hchain => ?_⟩
    obtain ⟨c, hnever⟩ := never_returns hbody hchain
    exact hnever (h (.ofBody body c) rfl (.single fp))
  · intro h o ho g
    apply returns_of_wellFounded
    rw [ho]
    exact wellFounded_spawns h

/-- A callback that hands over, in a millisecond, to one that does nothing. -/
def relay : Bool → List (CallbackOp Bool)
  | true => [.register .milsec true 1 false]
  | false => []

theorem update_returns_relay :
    (Outside.ofBody relay fun n => .ofNat n).Returns (TimerThread.single true) := by
  have hregisters : ∀ fp, ∀ op ∈ relay fp, op.Registers := by
    intro fp op hop
    cases fp with
    | false => cases hop
    | true =>
        obtain rfl := List.mem_singleton.mp hop
        exact trivial
  have hfalse : Acc (SpawnedBy relay) false := by
    refine Acc.intro false fun fp h => ?_
    obtain ⟨unit, runOnce, i, hmem⟩ := h
    cases hmem
  have hwf : WellFounded (SpawnedBy relay) := by
    refine ⟨fun fp => ?_⟩
    cases fp with
    | false => exact hfalse
    | true =>
        refine Acc.intro true fun fp h => ?_
        obtain ⟨unit, runOnce, i, hmem⟩ := h
        cases List.mem_singleton.mp hmem
        exact hfalse
  exact (update_returns.2 relay hregisters).mpr hwf (.ofBody relay _) rfl (.single true)

/-- A callback that registers itself again at once. -/
def again : Unit → List (CallbackOp Unit) := fun _ => [.register .sec true 0 ()]

theorem not_returns : ¬ ∀ (o : Outside Unit) (g : TimerThread Unit), o.Returns g := by
  intro h
  have hregisters : ∀ fp, ∀ op ∈ again fp, op.Registers := by
    intro fp op hop
    obtain rfl := List.mem_singleton.mp hop
    exact trivial
  have hchain : ∀ fp, ¬Acc (SpawnedBy again) fp := by
    intro fp hacc
    induction hacc with
    | intro fp _ ih => exact ih fp ⟨.sec, true, 0, List.mem_cons_self⟩
  obtain ⟨c, hnever⟩ := never_returns hregisters (hchain ())
  exact hnever (h (.ofBody again c) (.single ()))

end Qing
