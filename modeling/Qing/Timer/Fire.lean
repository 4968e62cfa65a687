import Qing.Timer.Ledger

/-!
# When callbacks are called

Over every run of the engine, a timer that runs once is fired at most once, and no
timer is fired early. Both are facts of one life (`fired_le_one`, `never_early`)
brought back to the engine by `life_of_run`.
-/

namespace Qing

variable {Fp : Type*} {countTick : UInt64}

theorem history_append (tr tr' : List (Event Fp)) (id : ℤ) :
    history (tr ++ tr') id = history tr id ++ history tr' id :=
  List.filter_append tr tr'

theorem history_cons_self {e : Event Fp} {id : ℤ} (h : e.subject? = some id)
    (tr : List (Event Fp)) : history (e :: tr) id = e :: history tr id := by
  rw [history, System.about, List.filter_cons_of_pos (by simp [h])]
  rfl

/-- Thread 0 registers a timer of one millisecond that runs once, then one of a
second, and calls `Update` when the first is due, whose callback cancels the other.
The clock ticks a million times a second. -/
def sampleActs : List (ThreadId × Act Unit) :=
  [(0, .register .milsec true 1 ()), (0, .run 5 true), (0, .run 5 true), (0, .run 5 true),
    (0, .run 5 true), (0, .run 5 true),
    (0, .register .sec false 1 ()), (0, .run 6 true), (0, .run 6 true), (0, .run 6 true),
    (0, .run 6 true), (0, .run 6 true),
    (0, .update), (0, .run 7 true), (0, .run 7 true), (0, .run 7 true), (0, .run 1005 true),
    (0, .unRegister 2), (0, .run 1005 true), (0, .run 1005 true), (0, .run 1005 true),
    (0, .callbackReturn), (0, .run 1006 true), (0, .run 1006 true), (0, .run 1006 true)]

def sampleOnce : ETimer Unit :=
  { interval := 1000, leftsecs := 1000, startclock := 5, timerId := 1, runOnce := true, fp := () }

def sampleTimer : ETimer Unit :=
  { interval := 1000000, leftsecs := 1000000, startclock := 6, timerId := 2, runOnce := false,
    fp := () }

/-- The events of `sampleActs` up to the call of `Update`. -/
def sampleRegistered : List (Event Unit) :=
  [.took 0 1, .opened 0 sampleOnce 1000, .internal, .inserted 0 .timers2 sampleOnce,
    .internal, .registerReturned 0 sampleOnce 1,
    .took 0 2, .opened 0 sampleTimer 1000000, .internal, .inserted 0 .timers2 sampleTimer,
    .internal, .registerReturned 0 sampleTimer 2]

def sampleTrace : List (Event Unit) :=
  sampleRegistered ++
    [.updateCalled 0, .internal, .internal, .internal, .fired 0 .timers2 1 1005,
      .unRegisterCalled 0 2, .internal, .marked 0 .timers2 2, .unRegisterReturned 0 2,
      .internal, .rearmed 0 .timers2 1 1006 true, .erased 0 .timers2 2, .updateReturned 0]

def sampleState : State Unit :=
  (System.exec (State.next 1000000) sampleActs State.init).elim State.init Prod.fst

theorem run_sampleTrace : (engineSystem Unit 1000000).Run sampleTrace sampleState := by
  have hexec : System.exec (State.next 1000000) sampleActs State.init =
      some (sampleState, sampleTrace) := rfl
  exact System.run_of_exec rfl hexec

/-- In every run a timer that runs once is fired at most once, and every timer that
is fired was registered, or had its last callback return, at least its interval
before. -/
theorem fires_once_and_never_early {tr : List (Event Fp)} {s : State Fp}
    (h : (engineSystem Fp countTick).Run tr s) :
    (∀ id, RunOnce (history tr id) → (history tr id).countP Event.isFired ≤ 1) ∧
    ∀ pre post t tab id now, tr = pre ++ .fired t tab id now :: post →
      ∃ us start, intervalOf (history pre id) = some us ∧
        startOf (history pre id) = some start ∧ start ≤ now ∧
        us * countTick.toNat ≤ (now.toNat - start.toNat) * 10 ^ 6 := by
  constructor
  · intro id honce
    obtain ⟨p, hp⟩ := life_of_run h id
    exact fired_le_one hp honce
  · rintro pre post t tab id now rfl
    obtain ⟨p, hp⟩ := life_of_run h id
    rw [history_append, history_cons_self rfl] at hp
    obtain ⟨p₁, p₂, hpre, hst, -⟩ := hp.cut
    exact never_early hpre hst

theorem fires_once_and_never_early_sample :
    (history sampleTrace 1).countP Event.isFired ≤ 1 ∧
      1000 * (1000000 : UInt64).toNat ≤
        ((1005 : UInt64).toNat - (5 : UInt64).toNat) * 10 ^ 6 := by
  obtain ⟨honce, hearly⟩ := fires_once_and_never_early run_sampleTrace
  refine ⟨honce 1 ⟨0, sampleOnce, 1000, List.mem_cons_self, rfl⟩, ?_⟩
  obtain ⟨us, start, hus, hstart, -, hle⟩ :=
    hearly (sampleRegistered ++ [.updateCalled 0, .internal, .internal, .internal])
      _ 0 .timers2 1 1005 rfl
  obtain rfl : 1000 = us := Option.some.inj hus
  obtain rfl : 5 = start := Option.some.inj hstart
  exact hle

end Qing
