import Qing.Timer.Pass

/-!
# A pass whose callbacks cancel

Callbacks that call `UnRegister`, on their own timer or another, change the marks in the
tables under the iterator of `Update` and nothing else. `Sweeping` is the invariant of a
loop under them, kept by every turn (`Sweeping.turn`), and `update_sweeps` what a whole
call does: it meets each entry once, in the order of the ids, and leaves of each what it
should.
-/

namespace Qing

variable {Fp : Type*}

namespace Visit

def pos (v : Visit Fp) : Tab × ℤ := (v.tab, v.timerId)

/-- The entry met is not marked, and is due by the reading made on it. -/
def fires (o : Outside Fp) (v : Visit Fp) : Bool :=
  !v.timer.needDelete && v.timer.due o.countTick (o.clock v.reading)

def callback (v : Visit Fp) : Tab × ℤ × Fp := (v.tab, v.timerId, v.timer.fp)

end Visit

def Called.callback (c : Called Fp) : Tab × ℤ × Fp := (c.tab, c.timerId, c.fp)

/-- What a visit leaves of the entry `timer` it met. -/
inductive Fate (o : Outside Fp) (p : Pass Fp) (v : Visit Fp) (timer : ETimer Fp) :
    Option (ETimer Fp) → Prop
  | erased (hmark : v.timer.needDelete = true) : Fate o p v timer none
  | expired (hfires : v.fires o = true) (honce : timer.runOnce = true) : Fate o p v timer none
  | left (timer' : ETimer Fp) (hmark : v.timer.needDelete = false) (hfires : v.fires o = false)
      (hupTo : timer.UpToMark timer') : Fate o p v timer (some timer')
  | rearmed (timer' : ETimer Fp) (c : Called Fp) (i : ℕ) (hfires : v.fires o = true)
      (honce : timer.runOnce = false) (hc : c ∈ p.called) (hpos : c.callback = v.callback)
      (hlate : c.returned ≤ i) (hmade : i < p.readings)
      (hupTo : (timer.rearm (o.clock i)).UpToMark timer') : Fate o p v timer (some timer')

/-- The entry has been met, and what there is now under its key is what was left of
it. -/
def Swept (o : Outside Fp) (p : Pass Fp) (tab : Tab) (k : ℤ) (timer : ETimer Fp)
    (found : Option (ETimer Fp)) : Prop :=
  ∃ v ∈ p.visits, v.pos = (tab, k) ∧ timer.UpToMark v.timer ∧ Fate o p v timer found

/-- The log of a pass goes on from that of another. -/
structure Extends (p p' : Pass Fp) : Prop where
  readings : p.readings ≤ p'.readings
  visits : p.visits ⊆ p'.visits
  called : p.called ⊆ p'.called

theorem Extends.trans {p p' p'' : Pass Fp} (h : Extends p p') (h' : Extends p' p'') :
    Extends p p'' where
  readings := h.readings.trans h'.readings
  visits := List.Subset.trans h.visits h'.visits
  called := List.Subset.trans h.called h'.called

/-- The entries of `m'` are those of `m`, up to their marks. -/
structure Marks (m m' : TimerMap Fp) : Prop where
  keys : m'.keys = m.keys
  kept : Kept m m'

section Marks

variable {m m' m'' : TimerMap Fp} {k : ℤ}

theorem Marks.refl (m : TimerMap Fp) : Marks m m := ⟨rfl, Kept.refl m⟩

theorem Marks.trans (h : Marks m m') (h' : Marks m' m'') : Marks m m'' :=
  ⟨h'.keys.trans h.keys, h.kept.trans h'.kept⟩

theorem Marks.find?_none (h : Marks m m') (hk : m.find? k = none) : m'.find? k = none := by
  rw [← Option.not_isSome_iff_eq_none, ← OrderedMap.mem_keys_iff] at hk ⊢
  rwa [h.keys]

end Marks

section Fate

variable {o : Outside Fp} {p p' : Pass Fp} {tab : Tab} {k : ℤ} {timer : ETimer Fp}
  {v : Visit Fp} {found : Option (ETimer Fp)}

theorem Fate.extend (h : Fate o p v timer found) (hp : Extends p p') :
    Fate o p' v timer found := by
  cases h with
  | erased hmark => exact .erased hmark
  | expired hfires honce => exact .expired hfires honce
  | left timer' hmark hfires hupTo => exact .left timer' hmark hfires hupTo
  | rearmed timer' c i hfires honce hc hpos hlate hmade hupTo =>
      exact .rearmed timer' c i hfires honce (hp.called hc) hpos hlate
        (lt_of_lt_of_le hmade hp.readings) hupTo

theorem Fate.marked {timer' timer'' : ETimer Fp} (h : Fate o p v timer (some timer'))
    (hupTo : timer'.UpToMark timer'') : Fate o p v timer (some timer'') := by
  cases h with
  | left timer' hmark hfires hupTo' => exact .left timer'' hmark hfires (hupTo'.trans hupTo)
  | rearmed timer' c i hfires honce hc hpos hlate hmade hupTo' =>
      exact .rearmed timer'' c i hfires honce hc hpos hlate hmade (hupTo'.trans hupTo)

theorem Visit.unmarked_of_fires (h : v.fires o = true) : v.timer.needDelete = false := by
  simpa using (Bool.and_eq_true_iff.mp h).1

theorem Fate.original {timer' : ETimer Fp} (h : Fate o p v timer' found)
    (hupTo : timer.UpToMark timer') (hmet : timer'.UpToMark v.timer) :
    Fate o p v timer found := by
  have hsame : v.timer.needDelete = false → timer' = timer := by
    intro hmark
    rw [hmet.eq hmark] at hmark
    exact hupTo.eq hmark
  cases h with
  | erased hmark => exact .erased hmark
  | expired hfires honce => exact .expired hfires (hupTo.runOnce_eq.symm.trans honce)
  | left timer₁ hmark hfires hupTo₁ =>
      rw [hsame hmark] at hupTo₁
      exact .left timer₁ hmark hfires hupTo₁
  | rearmed timer₁ c i hfires honce hc hpos hlate hmade hupTo₁ =>
      rw [hsame (Visit.unmarked_of_fires hfires)] at hupTo₁
      exact .rearmed timer₁ c i hfires (hupTo.runOnce_eq.symm.trans honce) hc hpos hlate hmade
        hupTo₁

theorem Swept.extend (h : Swept o p tab k timer found) (hp : Extends p p') :
    Swept o p' tab k timer found := by
  obtain ⟨v, hv, hpos, hupTo, hfate⟩ := h
  exact ⟨v, hp.visits hv, hpos, hupTo, hfate.extend hp⟩

theorem Swept.later {found' : Option (ETimer Fp)} (h : Swept o p tab k timer found)
    (hsome : ∀ timer', found = some timer' →
      ∃ timer'', found' = some timer'' ∧ timer'.UpToMark timer'')
    (hnone : found = none → found' = none) : Swept o p tab k timer found' := by
  obtain ⟨v, hv, hpos, hupTo, hfate⟩ := h
  refine ⟨v, hv, hpos, hupTo, ?_⟩
  cases found with
  | none =>
      rw [hnone rfl]
      exact hfate
  | some timer' =>
      obtain ⟨timer'', rfl, hmark⟩ := hsome timer' rfl
      exact hfate.marked hmark

end Fate

/-! ## Callbacks that only cancel -/

def CallbackOp.Cancels : CallbackOp Fp → Prop
  | register _ _ _ _ => False
  | unRegister _ => True

/-- No callback registers. -/
def Outside.Cancels (o : Outside Fp) : Prop := ∀ n fp, ∀ op ∈ o.calls n fp, op.Cancels

namespace Pass

variable {o : Outside Fp} {p : Pass Fp} {tab : Tab} {k : ℤ} {timer : ETimer Fp}

theorem marks_unRegister (id : ℤ) (p : Pass Fp) (tab : Tab) :
    Marks (p.engine.timers tab) ((p.unRegister id).engine.timers tab) := by
  rcases (timers_unRegister id p tab).1 with h | h
  · rw [h]
    exact Marks.refl _
  · rw [h]
    exact ⟨OrderedMap.keys_modify _ _ _, kept_mark _ _⟩

theorem marks_foldl {ops : List (CallbackOp Fp)} (hops : ∀ op ∈ ops, op.Cancels)
    (p : Pass Fp) (tab : Tab) :
    Marks (p.engine.timers tab) ((ops.foldl (apply o) p).engine.timers tab) := by
  induction ops generalizing p with
  | nil => exact Marks.refl _
  | cons op ops ih =>
      have hrest := ih (fun op' hop' => hops op' (List.mem_cons_of_mem op hop')) (p.apply o op)
      refine Marks.trans ?_ hrest
      cases op with
      | register unit runOnce i fp => exact absurd (hops _ List.mem_cons_self) id
      | unRegister id => exact marks_unRegister id p tab

theorem marks_ran (ho : o.Cancels) (k : ℤ) (timer : ETimer Fp) (p : Pass Fp) (tab tab' : Tab) :
    Marks (p.engine.timers tab') ((p.ran o tab k timer).engine.timers tab') :=
  marks_foldl (o := o) (ho p.called.length timer.fp) ((p.visit tab k timer).getClock o).2 tab'

end Pass

/-! ## The loop -/

/-- The loop over `tab` of a pass that began it as `p₀` has met the entries `done` and
has `todo` still before it. -/
structure Sweeping (o : Outside Fp) (tab : Tab) (p₀ : Pass Fp) (done todo : List ℤ)
    (p : Pass Fp) : Prop where
  keys : (p₀.engine.timers tab).keys = done ++ todo
  ahead : ∃ kept, (p.engine.timers tab).keys = kept ++ todo
  other : Marks (p₀.engine.timers tab.other) (p.engine.timers tab.other)
  log : Extends p₀ p
  visits : ∃ vs, p.visits = p₀.visits ++ vs ∧ vs.map Visit.pos = done.map (tab, ·) ∧
    p.called.map Called.callback =
      p₀.called.map Called.callback ++ (vs.filter (Visit.fires o)).map Visit.callback
  stranger : ∀ k, (p₀.engine.timers tab).find? k = none → (p.engine.timers tab).find? k = none
  waiting : ∀ k ∈ todo, ∀ timer, (p₀.engine.timers tab).find? k = some timer →
    ∃ timer', (p.engine.timers tab).find? k = some timer' ∧ timer.UpToMark timer'
  swept : ∀ k ∈ done, ∀ timer, (p₀.engine.timers tab).find? k = some timer →
    Swept o p tab k timer ((p.engine.timers tab).find? k)

section Turn

variable {o : Outside Fp} {tab : Tab} {p₀ p p' : Pass Fp} {done todo : List ℤ} {k : ℤ}

theorem Sweeping.start (o : Outside Fp) (tab : Tab) (p : Pass Fp) :
    Sweeping o tab p [] (p.engine.timers tab).keys p where
  keys := rfl
  ahead := ⟨[], rfl⟩
  other := Marks.refl _
  log := ⟨le_rfl, List.Subset.refl _, List.Subset.refl _⟩
  visits := ⟨[], by simp, rfl, by simp⟩
  stranger _ hk := hk
  waiting _ _ timer hk := ⟨timer, hk, ETimer.UpToMark.refl timer⟩
  swept k hk := absurd hk List.not_mem_nil

/-- What a turn does that meets the entry `k`, as far as the invariant of the loop needs
it. -/
structure Turns (o : Outside Fp) (tab : Tab) (k : ℤ) (timer : ETimer Fp) (p p' : Pass Fp) :
    Prop where
  keys : ∀ kept todo, (p.engine.timers tab).keys = kept ++ k :: todo →
    ∃ kept', (p'.engine.timers tab).keys = kept' ++ todo
  other : Marks (p.engine.timers tab.other) (p'.engine.timers tab.other)
  readings : p.readings ≤ p'.readings
  visits : p'.visits = p.visits ++ [⟨tab, k, timer, p.readings⟩]
  called : ∃ cs, p'.called = p.called ++ cs ∧ cs.map Called.callback =
    ([⟨tab, k, timer, p.readings⟩].filter (Visit.fires o)).map Visit.callback
  found : ∀ j ≠ k, ∀ timer', (p.engine.timers tab).find? j = some timer' →
    ∃ timer'', (p'.engine.timers tab).find? j = some timer'' ∧ timer'.UpToMark timer''
  stranger : ∀ j ≠ k, (p.engine.timers tab).find? j = none →
    (p'.engine.timers tab).find? j = none
  fate : Fate o p' ⟨tab, k, timer, p.readings⟩ timer ((p'.engine.timers tab).find? k)

theorem Turns.log {timer : ETimer Fp} (h : Turns o tab k timer p p') : Extends p p' := by
  obtain ⟨cs, hcalled, -⟩ := h.called
  refine ⟨h.readings, ?_, ?_⟩
  · rw [h.visits]
    exact List.subset_append_left _ _
  · rw [hcalled]
    exact List.subset_append_left _ _

theorem nodup_split {l₁ l₂ : List ℤ} (m : TimerMap Fp) (h : m.keys = l₁ ++ k :: l₂) :
    k ∉ l₁ ∧ k ∉ l₂ := by
  have hnodup := m.keys_nodup
  rw [h, List.nodup_append] at hnodup
  obtain ⟨-, htail, hne⟩ := hnodup
  exact ⟨fun hk => hne k hk k List.mem_cons_self rfl, (List.nodup_cons.mp htail).1⟩

theorem Sweeping.turn {timer : ETimer Fp} (h : Sweeping o tab p₀ done (k :: todo) p)
    (hk : (p.engine.timers tab).find? k = some timer) (hturn : Turns o tab k timer p p') :
    Sweeping o tab p₀ (done ++ [k]) todo p' := by
  obtain ⟨kept, hkept⟩ := h.ahead
  obtain ⟨vs, hvs, hpos, hcalled⟩ := h.visits
  obtain ⟨cs, hcs, hcallback⟩ := hturn.called
  obtain ⟨hdone, htodo⟩ := nodup_split _ h.keys
  constructor
  case keys => rw [h.keys, List.append_assoc, List.singleton_append]
  case ahead => exact hturn.keys kept todo hkept
  case other => exact h.other.trans hturn.other
  case log => exact h.log.trans hturn.log
  case visits =>
      refine ⟨vs ++ [⟨tab, k, timer, p.readings⟩], ?_, ?_, ?_⟩
      · rw [hturn.visits, hvs, List.append_assoc]
      · rw [List.map_append, List.map_append, hpos]
        rfl
      · rw [hcs, List.map_append, hcalled, hcallback, List.append_assoc, List.filter_append,
          List.map_append]
  case stranger =>
      intro j hj
      have hne : j ≠ k := by
        rintro rfl
        rw [h.stranger j hj] at hk
        cases hk
      exact hturn.stranger j hne (h.stranger j hj)
  case waiting =>
      intro j hj timer₀ hfind
      obtain ⟨timer', hfind', hupTo⟩ := h.waiting j (List.mem_cons_of_mem k hj) timer₀ hfind
      obtain ⟨timer'', hfind'', hupTo'⟩ :=
        hturn.found j (fun heq => htodo (heq ▸ hj)) timer' hfind'
      exact ⟨timer'', hfind'', hupTo.trans hupTo'⟩
  case swept =>
      intro j hj timer₀ hfind
      rcases List.mem_append.mp hj with hj | hj
      · have hne : j ≠ k := fun heq => hdone (heq ▸ hj)
        exact ((h.swept j hj timer₀ hfind).extend hturn.log).later (hturn.found j hne)
          (hturn.stranger j hne)
      · obtain rfl := List.mem_singleton.mp hj
        obtain ⟨timer', hfind', hupTo⟩ := h.waiting j List.mem_cons_self timer₀ hfind
        obtain rfl : timer' = timer := Option.some.inj (hfind'.symm.trans hk)
        refine ⟨⟨tab, j, timer', p.readings⟩, ?_, rfl, hupTo,
          hturn.fate.original hupTo (ETimer.UpToMark.refl timer')⟩
        rw [hturn.visits]
        exact List.mem_append_right _ List.mem_cons_self

/-! ## The three kinds of turns -/

variable {timer : ETimer Fp}

theorem not_fires_of_marked (hmark : timer.needDelete = true) (i : ℕ) :
    Visit.fires o ⟨tab, k, timer, i⟩ = false := by
  rw [Visit.fires, hmark]
  rfl

theorem fires_eq_due (hmark : timer.needDelete = false) (i : ℕ) :
    Visit.fires o ⟨tab, k, timer, i⟩ = timer.due o.countTick (o.clock i) := by
  rw [Visit.fires, hmark]
  rfl

theorem turns_of_marked (h : (p.engine.timers tab).find? k = some timer)
    (hmark : timer.needDelete = true) :
    Turns o tab k timer p ((p.visit tab k timer).erase tab k) := by
  have htimers : ∀ tab', ((p.visit tab k timer).erase tab k).engine.timers tab' =
      if tab' = tab then (p.engine.timers tab).erase k else p.engine.timers tab' :=
    fun tab' => TimerThread.timers_setTimers_eq _
  have htab := (htimers tab).trans (if_pos rfl)
  constructor
  case keys =>
      intro kept todo hkeys
      rw [htab]
      exact ⟨kept, OrderedMap.keys_erase_of_keys hkeys⟩
  case other =>
      rw [htimers, if_neg (by cases tab <;> decide)]
      exact Marks.refl _
  case readings => exact le_rfl
  case visits => rfl
  case called =>
      refine ⟨[], (List.append_nil _).symm, ?_⟩
      rw [List.filter_cons_of_neg (by rw [not_fires_of_marked hmark]; decide)]
      rfl
  case found =>
      intro j hj timer' hfind
      rw [htab, OrderedMap.find?_erase, if_neg hj]
      exact ⟨timer', hfind, ETimer.UpToMark.refl timer'⟩
  case stranger =>
      intro j hj hnone
      rwa [htab, OrderedMap.find?_erase, if_neg hj]
  case fate =>
      rw [htab, OrderedMap.find?_erase, if_pos rfl]
      exact .erased hmark

theorem turns_of_early (h : (p.engine.timers tab).find? k = some timer)
    (hmark : timer.needDelete = false) (hdue : timer.due o.countTick (o.clock p.readings) = false) :
    Turns o tab k timer p ((p.visit tab k timer).getClock o).2 := by
  have hfires : Visit.fires o ⟨tab, k, timer, p.readings⟩ = false := by
    rwa [fires_eq_due hmark]
  constructor
  case keys =>
      intro kept todo hkeys
      exact ⟨kept ++ [k], hkeys.trans (List.append_cons kept k todo)⟩
  case other => exact Marks.refl _
  case readings => exact Nat.le_succ _
  case visits => rfl
  case called =>
      refine ⟨[], (List.append_nil _).symm, ?_⟩
      rw [List.filter_cons_of_neg (by rw [hfires]; decide)]
      rfl
  case found => exact fun j _ timer' hfind => ⟨timer', hfind, ETimer.UpToMark.refl timer'⟩
  case stranger => exact fun j _ hnone => hnone
  case fate =>
      refine (congrArg (Fate o _ _ timer) h).mpr ?_
      exact .left timer hmark hfires (ETimer.UpToMark.refl timer)

/-- Beside the entry it meets, a turn that fires does what its callback does; `p'` is the
state after it, with the entry erased or not. -/
theorem Turns.of_fired {timer : ETimer Fp} (ho : o.Cancels) (hmark : timer.needDelete = false)
    (hdue : timer.due o.countTick (o.clock p.readings) = true)
    (hlog : p'.readings = (p.fired o tab k timer).readings ∧
      p'.visits = (p.fired o tab k timer).visits ∧ p'.called = (p.fired o tab k timer).called)
    (hother : p'.engine.timers tab.other = (p.fired o tab k timer).engine.timers tab.other)
    (hsame : ∀ j ≠ k, (p'.engine.timers tab).find? j =
      ((p.fired o tab k timer).engine.timers tab).find? j)
    (hkeys : ∀ kept todo, (p.engine.timers tab).keys = kept ++ k :: todo →
      ∃ kept', (p'.engine.timers tab).keys = kept' ++ todo)
    (hfate : Fate o p' ⟨tab, k, timer, p.readings⟩ timer ((p'.engine.timers tab).find? k)) :
    Turns o tab k timer p p' := by
  obtain ⟨hr, hreadings, hvisits, hcalled⟩ := Pass.log_fired o tab k timer p
  obtain ⟨hreadings', hvisits', hcalled'⟩ := hlog
  have hm := Pass.marks_ran ho k timer p tab tab
  have hran : ∀ j ≠ k, (p'.engine.timers tab).find? j =
      ((p.ran o tab k timer).engine.timers tab).find? j := by
    intro j hj
    rw [hsame j hj, Pass.timers_fired, if_pos rfl, OrderedMap.find?_modify, if_neg hj]
  constructor
  case keys => exact hkeys
  case other =>
      rw [hother, Pass.timers_fired, if_neg (by cases tab <;> decide)]
      exact Pass.marks_ran ho k timer p tab tab.other
  case readings => omega
  case visits => rw [hvisits', hvisits]
  case called =>
      refine ⟨_, hcalled'.trans hcalled, ?_⟩
      have hfires : Visit.fires o ⟨tab, k, timer, p.readings⟩ = true := by
        rwa [fires_eq_due hmark]
      rw [List.filter_cons_of_pos hfires]
      rfl
  case found =>
      intro j hj timer₁ hj'
      rw [hran j hj]
      exact hm.kept j timer₁ hj'
  case stranger =>
      intro j hj hnone
      rw [hran j hj]
      exact hm.find?_none hnone
  case fate => exact hfate

theorem turns_of_due (ho : o.Cancels) (h : (p.engine.timers tab).find? k = some timer)
    (hmark : timer.needDelete = false) (hdue : timer.due o.countTick (o.clock p.readings) = true) :
    Turns o tab k timer p
      (if timer.runOnce then (p.fired o tab k timer).erase tab k else p.fired o tab k timer) := by
  obtain ⟨hr, hreadings, -, hcalled⟩ := Pass.log_fired o tab k timer p
  obtain ⟨timer', hupTo, hran⟩ := Pass.find?_ran o h
  have hfires : Visit.fires o ⟨tab, k, timer, p.readings⟩ = true := by
    rwa [fires_eq_due hmark]
  have hkeys : ((p.fired o tab k timer).engine.timers tab).keys = (p.engine.timers tab).keys := by
    rw [Pass.timers_fired, if_pos rfl, OrderedMap.keys_modify,
      (Pass.marks_ran ho k timer p tab tab).keys]
  by_cases honce : timer.runOnce = true
  · rw [if_pos honce]
    have htimers : ∀ tab', ((p.fired o tab k timer).erase tab k).engine.timers tab' =
        if tab' = tab then ((p.fired o tab k timer).engine.timers tab).erase k
        else (p.fired o tab k timer).engine.timers tab' :=
      fun tab' => TimerThread.timers_setTimers_eq _
    have herase := (htimers tab).trans (if_pos rfl)
    refine Turns.of_fired ho hmark hdue ⟨rfl, rfl, rfl⟩ ?_ (fun j hj => ?_)
      (fun kept todo hsplit => ?_) ?_
    · rw [htimers, if_neg (by cases tab <;> decide)]
    · rw [herase, OrderedMap.find?_erase, if_neg hj]
    · rw [herase]
      exact ⟨kept, OrderedMap.keys_erase_of_keys (hkeys.trans hsplit)⟩
    · rw [herase, OrderedMap.find?_erase, if_pos rfl]
      exact .expired hfires honce
  · rw [if_neg honce]
    refine Turns.of_fired ho hmark hdue ⟨rfl, rfl, rfl⟩ rfl (fun j _ => rfl)
      (fun kept todo hsplit => ⟨kept ++ [k], by rw [hkeys, hsplit, List.append_cons]⟩) ?_
    rw [Pass.find?_fired hran]
    apply Fate.rearmed (timer'.rearm (o.clock (p.ran o tab k timer).readings))
      ⟨tab, k, timer.fp, (p.ran o tab k timer).readings⟩ (p.ran o tab k timer).readings
      hfires (Bool.eq_false_iff.mpr honce)
    · rw [hcalled]
      exact List.mem_append_right _ List.mem_cons_self
    · rfl
    · exact le_rfl
    · omega
    · exact hupTo.rearm _

theorem Sweeping.next? (h : Sweeping o tab p₀ done (k :: todo) p) {m : TimerMap Fp}
    (hm : m.keys = (p.engine.timers tab).keys) : m.next? k = todo.head? := by
  obtain ⟨kept, hkept⟩ := h.ahead
  exact OrderedMap.next?_of_keys (hm.trans hkept)

theorem Sweeping.step (ho : o.Cancels) (h : Sweeping o tab p₀ done (k :: todo) p) :
    ∃ p', p.turn o tab k = some (p', todo.head?) ∧ Sweeping o tab p₀ (done ++ [k]) todo p' := by
  have hkey : k ∈ (p.engine.timers tab).keys := by
    obtain ⟨kept, hkept⟩ := h.ahead
    rw [hkept]
    exact List.mem_append_right kept List.mem_cons_self
  obtain ⟨timer, hk⟩ := Option.isSome_iff_exists.mp ((OrderedMap.mem_keys_iff _ _).mp hkey)
  cases hmark : timer.needDelete with
  | true =>
      rw [Pass.turn_of_marked hk hmark, h.next? rfl]
      exact ⟨_, rfl, h.turn hk (turns_of_marked hk hmark)⟩
  | false =>
      cases hdue : timer.due o.countTick (o.clock p.readings) with
      | false =>
          rw [Pass.turn_of_early hk hmark hdue, h.next? rfl]
          exact ⟨_, rfl, h.turn hk (turns_of_early hk hmark hdue)⟩
      | true =>
          have hkeys : ((p.fired o tab k timer).engine.timers tab).keys =
              (p.engine.timers tab).keys := by
            rw [Pass.timers_fired, if_pos rfl, OrderedMap.keys_modify,
              (Pass.marks_ran ho k timer p tab tab).keys]
          rw [Pass.turn_of_due hk hmark hdue, h.next? hkeys]
          exact ⟨_, rfl, h.turn hk (turns_of_due ho hk hmark hdue)⟩

theorem Sweeping.loop (ho : o.Cancels) {n : ℕ} (hn : todo.length ≤ n)
    (h : Sweeping o tab p₀ done todo p) :
    ∃ p', Pass.loop o tab n todo.head? p = some p' ∧
      Sweeping o tab p₀ (done ++ todo) [] p' := by
  induction todo generalizing n done p with
  | nil =>
      rw [List.append_nil]
      exact ⟨p, by rw [List.head?_nil, Pass.loop], h⟩
  | cons k todo ih =>
      obtain ⟨n, rfl⟩ := Nat.exists_eq_succ_of_ne_zero (Nat.ne_zero_of_lt hn)
      obtain ⟨p', hturn, h'⟩ := h.step ho
      obtain ⟨p'', hloop, h''⟩ := ih (Nat.le_of_succ_le_succ hn) h'
      rw [List.append_assoc, List.singleton_append] at h''
      refine ⟨p'', ?_, h''⟩
      rw [List.head?_cons, Pass.loop, hturn]
      exact hloop

end Turn

/-! ## The call -/

/-- A call of `Update` on the engine `g` has met every entry once, in the order of the
tables and of the ids, called the callbacks of those that were due and not marked, and
left of each what it should. -/
structure Sweeps (o : Outside Fp) (g : TimerThread Fp) (p : Pass Fp) : Prop where
  visits : p.visits.map Visit.pos =
    (g.timers .timers1).keys.map (.timers1, ·) ++ (g.timers .timers2).keys.map (.timers2, ·)
  called : p.called.map Called.callback = (p.visits.filter (Visit.fires o)).map Visit.callback
  stranger : ∀ tab k, (g.timers tab).find? k = none → (p.engine.timers tab).find? k = none
  swept : ∀ tab k timer, (g.timers tab).find? k = some timer →
    Swept o p tab k timer ((p.engine.timers tab).find? k)

variable {o : Outside Fp}

/-- A loop over each of the tables, come to its end, is a sweep of both: the second one met
what the first one had left there, and left what the first one had left of its own table. -/
theorem Sweeps.of_loops {g : TimerThread Fp} {p₁ p₂ : Pass Fp}
    (h₁ : Sweeping o .timers1 { engine := g } (g.timers .timers1).keys [] p₁)
    (h₂ : Sweeping o .timers2 p₁ (p₁.engine.timers .timers2).keys [] p₂) : Sweeps o g p₂ := by
  have hkeys : (p₁.engine.timers .timers2).keys = (g.timers .timers2).keys := h₁.other.keys
  obtain ⟨vs₁, hvs₁, hpos₁, hcalled₁⟩ := h₁.visits
  obtain ⟨vs₂, hvs₂, hpos₂, hcalled₂⟩ := h₂.visits
  rw [List.nil_append] at hvs₁
  rw [← hvs₁] at hpos₁ hcalled₁
  rw [List.map_nil, List.nil_append] at hcalled₁
  constructor
  case visits => rw [hvs₂, List.map_append, hpos₁, hpos₂, hkeys]
  case called =>
      rw [hcalled₂, hcalled₁, hvs₂, List.filter_append, List.map_append]
  case stranger =>
      intro tab k hk
      cases tab with
      | timers1 => exact h₂.other.find?_none (h₁.stranger k hk)
      | timers2 => exact h₂.stranger k (h₁.other.find?_none hk)
  case swept =>
      intro tab k timer hk
      have hkey : k ∈ (g.timers tab).keys :=
        (OrderedMap.mem_keys_iff _ _).mpr (Option.isSome_of_eq_some hk)
      cases tab with
      | timers1 =>
          exact ((h₁.swept k hkey timer hk).extend h₂.log).later (h₂.other.kept k)
            h₂.other.find?_none
      | timers2 =>
          obtain ⟨timer', hk', hupTo⟩ := h₁.other.kept k timer hk
          rw [← hkeys] at hkey
          obtain ⟨v, hv, hpos, hupTo', hfate⟩ := h₂.swept k hkey timer' hk'
          exact ⟨v, hv, hpos, hupTo.trans hupTo', hfate.original hupTo hupTo'⟩

theorem exists_loops (ho : o.Cancels) (g : TimerThread Fp) (n : ℕ)
    (hn : ∀ tab, (g.timers tab).keys.length ≤ n) :
    ∃ p₁ p₂, Pass.update o n { engine := g } = some p₂ ∧
      Sweeping o .timers1 { engine := g } (g.timers .timers1).keys [] p₁ ∧
      Sweeping o .timers2 p₁ (p₁.engine.timers .timers2).keys [] p₂ := by
  obtain ⟨p₁, hloop₁, h₁⟩ := (Sweeping.start o .timers1 { engine := g }).loop ho (hn .timers1)
  have hkeys : (p₁.engine.timers .timers2).keys = (g.timers .timers2).keys := h₁.other.keys
  have hn₂ : (p₁.engine.timers .timers2).keys.length ≤ n := by
    rw [hkeys]
    exact hn .timers2
  obtain ⟨p₂, hloop₂, h₂⟩ := (Sweeping.start o .timers2 p₁).loop ho hn₂
  refine ⟨p₁, p₂, ?_, h₁, h₂⟩
  rw [Pass.update, OrderedMap.first?_eq_head?, hloop₁, Option.bind_some,
    OrderedMap.first?_eq_head?, hloop₂]

/-- Under callbacks that only call `UnRegister`, a call of `Update` that has a turn for
each entry returns, and sweeps the tables. -/
theorem update_sweeps (ho : o.Cancels) (g : TimerThread Fp) (n : ℕ)
    (hn : ∀ tab, (g.timers tab).keys.length ≤ n) :
    ∃ p, Pass.update o n { engine := g } = some p ∧ Sweeps o g p := by
  obtain ⟨p₁, p₂, hupdate, h₁, h₂⟩ := exists_loops ho g n hn
  exact ⟨p₂, hupdate, Sweeps.of_loops h₁ h₂⟩

/-- A clock that stands still, and callbacks that cancel timer 2. -/
def cancelling : Outside Unit where
  countTick := 1000000
  clock _ := 10
  place _ := .timers2
  calls _ _ := [.unRegister 2]

/-- Timer 1 is due in one table, timers 2 and 3 in the other. -/
def threeTimers : TimerThread Unit :=
  let timer (timerId : ℤ) := (ETimer.declare false timerId ()).openSec 0 () 0
  ((TimerThread.init.insert .timers1 (timer 1)).insert .timers2 (timer 2)).insert .timers2
    (timer 3)

theorem update_sweeps_sample :
    ∃ p, Pass.update cancelling 2 { engine := threeTimers } = some p ∧
      Sweeps cancelling threeTimers p := by
  apply update_sweeps
  · intro n fp op hop
    obtain rfl := List.mem_singleton.mp hop
    exact trivial
  · intro tab
    cases tab <;> decide

end Qing
