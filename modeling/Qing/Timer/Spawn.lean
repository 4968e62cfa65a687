import Mathlib.Logic.Hydra
import Qing.Timer.Pass

/-!
# When a pass ends

A timer registered by a callback lands ahead of the iterator of `Update`, and the pass calls it
back if its interval has passed when it gets there. So a pass goes on for as long as callbacks
register timers whose intervals pass. `Spawns` is the relation between a callback and those of
the timers that it registers. If it is well-founded every pass ends, whatever the clock reads,
because a turn replaces an entry ahead by finitely many below it (`turn_decreases`).
-/

namespace Qing

variable {Fp : Type*}

/-- The callback of `y`, called as the one of number `y.1` or a later one, registers a
timer whose callback is that of `x`, to be called later still. -/
def Spawns (calls : ℕ → Fp → List (CallbackOp Fp)) (x y : ℕ × Fp) : Prop :=
  ∃ n, y.1 ≤ n ∧ n < x.1 ∧ ∃ unit runOnce i, .register unit runOnce i x.2 ∈ calls n y.2

/-- The callbacks of the entries `es`, each with the number its entry was tagged with. -/
def callbacks (tag : ℤ → ℕ) (es : List (ℤ × ETimer Fp)) : Multiset (ℕ × Fp) :=
  (es.map fun e => (tag e.1, e.2.fp) : List (ℕ × Fp))

section Callbacks

variable {tag tag' : ℤ → ℕ} {es es' : List (ℤ × ETimer Fp)} {e : ℤ × ETimer Fp}

theorem callbacks_cons : callbacks tag (e :: es) = (tag e.1, e.2.fp) ::ₘ callbacks tag es := rfl

theorem callbacks_perm (h : es.Perm es') : callbacks tag es = callbacks tag es' :=
  Multiset.coe_eq_coe.mpr (h.map _)

theorem callbacks_congr (h : ∀ e ∈ es, tag' e.1 = tag e.1) :
    callbacks tag' es = callbacks tag es := by
  refine congrArg _ (List.map_congr_left fun e he => ?_)
  rw [h e he]

theorem callbacks_modify_mark (m : TimerMap Fp) (k : ℤ) (it : Option ℤ) :
    callbacks tag ((m.modify k ETimer.mark).ahead it) = callbacks tag (m.ahead it) := by
  cases it with
  | none => rfl
  | some j =>
      rw [callbacks, callbacks, OrderedMap.ahead, OrderedMap.ahead, OrderedMap.modify,
        List.filter_map, List.map_map]
      refine congrArg _ (List.map_congr_left fun e _ => ?_)
      rw [Function.comp_apply]
      by_cases hk : e.1 = k
      · rw [if_pos hk]
        rfl
      · rw [if_neg hk]

theorem cutExpand_tail (r : ℕ × Fp → ℕ × Fp → Prop) :
    Relation.CutExpand r (callbacks tag es) (callbacks tag (e :: es)) := by
  refine ⟨0, (tag e.1, e.2.fp), fun _ hx => absurd hx (Multiset.notMem_zero _), ?_⟩
  rw [callbacks_cons, add_zero, add_comm, Multiset.singleton_add]

theorem callbacks_insert {m : TimerMap Fp} {id : ℤ} {v : ETimer Fp} (hid : m.find? id = none)
    (k : ℤ) (n : ℕ) :
    callbacks (Function.update tag id n) ((m.insert id v).ahead (some k)) =
        callbacks tag (m.ahead (some k)) ∨
      callbacks (Function.update tag id n) ((m.insert id v).ahead (some k)) =
        (n, v.fp) ::ₘ callbacks tag (m.ahead (some k)) := by
  have hperm := (OrderedMap.entries_insert_perm (v := v) hid).filter fun e => decide (k ≤ e.1)
  have hsame : callbacks (Function.update tag id n) (m.ahead (some k)) =
      callbacks tag (m.ahead (some k)) := by
    refine callbacks_congr fun e he => Function.update_of_ne ?_ n tag
    rintro rfl
    exact (OrderedMap.find?_eq_none_iff m e.1).mp hid e.2 (List.mem_of_mem_filter he)
  rw [← hsame]
  refine Or.imp (callbacks_perm hperm).trans (callbacks_perm hperm).trans ?_
  by_cases hk : k ≤ id
  · have hcons : ((id, v) :: m.entries).filter (fun e => decide (k ≤ e.1)) =
        (id, v) :: m.ahead (some k) := List.filter_cons_of_pos (decide_eq_true hk)
    rw [hcons]
    refine Or.inr (callbacks_cons.trans ?_)
    rw [Function.update_self]
  · have hcons : ((id, v) :: m.entries).filter (fun e => decide (k ≤ e.1)) =
        m.ahead (some k) := List.filter_cons_of_neg (by simpa using hk)
    rw [hcons]
    exact Or.inl rfl

end Callbacks

/-! ## What a callback adds -/

/-- The calls `ops` of a callback called as number `n` have added `born` to the callbacks
ahead of the iterator. -/
def Bears (tab : Tab) (k : ℤ) (n : ℕ) (ops : List (CallbackOp Fp)) (tag : ℤ → ℕ)
    (p p' : Pass Fp) : Prop :=
  ∃ tag' : ℤ → ℕ, ∃ born : Multiset (ℕ × Fp),
    (∀ x ∈ born, x.1 = n + 1 ∧ ∃ unit runOnce i, .register unit runOnce i x.2 ∈ ops) ∧
    callbacks tag' ((p'.engine.timers tab).ahead (some k)) =
      callbacks tag ((p.engine.timers tab).ahead (some k)) + born ∧
    tag' k = tag k ∧ ∀ j, tag' j ≤ n + 1

section Bears

variable {o : Outside Fp} {tab : Tab} {k : ℤ} {n : ℕ} {tag : ℤ → ℕ} {p p' : Pass Fp}

theorem Bears.of_callbacks_eq {ops : List (CallbackOp Fp)} (htag : ∀ j, tag j ≤ n + 1)
    (h : callbacks tag ((p'.engine.timers tab).ahead (some k)) =
      callbacks tag ((p.engine.timers tab).ahead (some k))) :
    Bears tab k n ops tag p p' :=
  ⟨tag, 0, fun _ hx => absurd hx (Multiset.notMem_zero _), by rw [h, add_zero], rfl, htag⟩

theorem bears_apply (hk : ((p.engine.timers tab).find? k).isSome) (htag : ∀ j, tag j ≤ n + 1)
    (op : CallbackOp Fp) : Bears tab k n [op] tag p (p.apply o op) := by
  cases op with
  | unRegister id =>
      apply Bears.of_callbacks_eq htag
      rw [Pass.apply]
      rcases (Pass.timers_unRegister id p tab).1 with h | h
      · rw [h]
      · rw [h, callbacks_modify_mark]
  | register unit runOnce i fp =>
      have htimers := Pass.timers_register (o := o) unit runOnce i fp p tab
      rw [← Pass.apply] at htimers
      by_cases hplace : tab = o.place (p.engine.curTimerId + 1)
      · rw [if_pos hplace] at htimers
        cases hid : (p.engine.timers tab).find? (p.engine.curTimerId + 1) with
        | some timer =>
            apply Bears.of_callbacks_eq htag
            rw [htimers, OrderedMap.insert_of_taken (hid ▸ Option.some_ne_none timer)]
        | none =>
            have hne : k ≠ p.engine.curTimerId + 1 := by
              rintro rfl
              rw [hid] at hk
              cases hk
            have htag' : ∀ j, Function.update tag (p.engine.curTimerId + 1) (n + 1) j ≤ n + 1 := by
              intro j
              rw [Function.update_apply]
              split_ifs
              · exact le_rfl
              · exact htag j
            rw [Bears, htimers]
            refine ⟨Function.update tag (p.engine.curTimerId + 1) (n + 1), ?_⟩
            rw [Function.update_of_ne hne]
            rcases callbacks_insert hid k (n + 1) with hsame | hmore
            · exact ⟨0, fun _ hx => absurd hx (Multiset.notMem_zero _),
                by rw [hsame, add_zero], rfl, htag'⟩
            · refine ⟨{(n + 1, fp)}, fun x hx => ?_, ?_, rfl, htag'⟩
              · obtain rfl := Multiset.mem_singleton.mp hx
                exact ⟨rfl, unit, runOnce, i, List.mem_cons_self⟩
              · rw [hmore, ETimer.opened_fp, ← Multiset.singleton_add]
                exact add_comm _ _
      · rw [if_neg hplace] at htimers
        apply Bears.of_callbacks_eq htag
        rw [htimers]

theorem Bears.trans {p'' : Pass Fp} {ops ops' : List (CallbackOp Fp)}
    (h : Bears tab k n ops tag p p')
    (h' : ∀ tag' : ℤ → ℕ, (∀ j, tag' j ≤ n + 1) → Bears tab k n ops' tag' p' p'') :
    Bears tab k n (ops ++ ops') tag p p'' := by
  obtain ⟨tag', born, hborn, hcallbacks, hk, htag⟩ := h
  obtain ⟨tag'', born', hborn', hcallbacks', hk', htag'⟩ := h' tag' htag
  refine ⟨tag'', born + born', fun x hx => ?_, ?_, hk'.trans hk, htag'⟩
  · rcases Multiset.mem_add.mp hx with hx | hx
    · obtain ⟨hx, unit, runOnce, i, hmem⟩ := hborn x hx
      exact ⟨hx, unit, runOnce, i, List.mem_append_left ops' hmem⟩
    · obtain ⟨hx, unit, runOnce, i, hmem⟩ := hborn' x hx
      exact ⟨hx, unit, runOnce, i, List.mem_append_right ops hmem⟩
  · rw [hcallbacks', hcallbacks, add_assoc]

theorem bears_foldl (ops : List (CallbackOp Fp))
    (hk : ((p.engine.timers tab).find? k).isSome) (htag : ∀ j, tag j ≤ n + 1) :
    Bears tab k n ops tag p (ops.foldl (Pass.apply o) p) := by
  induction ops generalizing p tag with
  | nil => exact Bears.of_callbacks_eq htag rfl
  | cons op ops ih =>
      have hk' : (((p.apply o op).engine.timers tab).find? k).isSome := by
        obtain ⟨timer, hfind⟩ := Option.isSome_iff_exists.mp hk
        obtain ⟨timer', hfind', -⟩ := Pass.apply_kept (o := o) op p tab k timer hfind
        exact Option.isSome_of_eq_some hfind'
      exact (bears_apply hk htag op).trans fun tag' htag' => ih hk' htag'

end Bears

/-! ## What a turn takes away -/

/-- The iterator, if it is not at the end, stands on an entry. -/
def Stands (tab : Tab) (p : Pass Fp) (it : Option ℤ) : Prop :=
  ∀ k, it = some k → ((p.engine.timers tab).find? k).isSome

/-- Less is ahead of the iterator, for suitable tags. -/
def Falls (o : Outside Fp) (tab : Tab) (tag : ℤ → ℕ) (p : Pass Fp) (it : Option ℤ)
    (p' : Pass Fp) (it' : Option ℤ) : Prop :=
  ∃ tag' : ℤ → ℕ, (∀ j, tag' j ≤ p'.called.length) ∧
    Relation.CutExpand (Spawns o.calls) (callbacks tag' ((p'.engine.timers tab).ahead it'))
      (callbacks tag ((p.engine.timers tab).ahead it))

section Turn

variable {o : Outside Fp} {tab : Tab} {k : ℤ} {tag : ℤ → ℕ} {p p' : Pass Fp}
  {timer : ETimer Fp}

theorem falls_of_tail {it' : Option ℤ} {post : List (ℤ × ETimer Fp)}
    (htag : ∀ j, tag j ≤ p.called.length) (hcalled : p'.called = p.called)
    (hahead : (p.engine.timers tab).ahead (some k) = (k, timer) :: post)
    (hahead' : (p'.engine.timers tab).ahead it' = post) :
    Falls o tab tag p (some k) p' it' := by
  refine ⟨tag, hcalled ▸ htag, ?_⟩
  rw [hahead, hahead']
  exact cutExpand_tail _

theorem ahead_of_fired {timer' : ETimer Fp} {pre post : List (ℤ × ETimer Fp)}
    (hran : ((p.ran o tab k timer).engine.timers tab).entries = pre ++ (k, timer') :: post) :
    ((p.fired o tab k timer).engine.timers tab).next? k = post.head?.map Prod.fst ∧
      ∀ expired, (((if expired = true then (p.fired o tab k timer).erase tab k
        else p.fired o tab k timer).engine.timers tab).ahead (post.head?.map Prod.fst)) =
          post := by
  have hfired := OrderedMap.modify_entries_of_split hran
    (ETimer.rearm (o.clock (p.ran o tab k timer).readings))
  have htab := (Pass.timers_fired o tab k timer p tab).trans (if_pos rfl)
  rw [← htab] at hfired
  refine ⟨OrderedMap.next?_of_split hfired, fun expired => ?_⟩
  split_ifs
  · have herase : ((p.fired o tab k timer).erase tab k).engine.timers tab =
        ((p.fired o tab k timer).engine.timers tab).erase k :=
      (TimerThread.timers_setTimers_eq _).trans (if_pos rfl)
    rw [herase]
    exact OrderedMap.ahead_of_split (OrderedMap.erase_entries_of_split hfired)
  · rw [List.append_cons] at hfired
    exact OrderedMap.ahead_of_split hfired

theorem falls_of_fired {it' : Option ℤ} (h : (p.engine.timers tab).find? k = some timer)
    (htag : ∀ j, tag j ≤ p.called.length)
    (hcalled : p'.called = (p.fired o tab k timer).called)
    {timer' : ETimer Fp} {pre post : List (ℤ × ETimer Fp)} (hupTo : timer.UpToMark timer')
    (hran : ((p.ran o tab k timer).engine.timers tab).entries = pre ++ (k, timer') :: post)
    (hahead : (p'.engine.timers tab).ahead it' = post) :
    Falls o tab tag p (some k) p' it' := by
  obtain ⟨-, -, -, hcalled'⟩ := Pass.log_fired o tab k timer p
  have hbears : Bears tab k p.called.length (o.calls p.called.length timer.fp) tag
      ((p.visit tab k timer).getClock o).2 (p.ran o tab k timer) :=
    bears_foldl _ (Option.isSome_of_eq_some h) fun j => (htag j).trans (Nat.le_succ _)
  obtain ⟨tag', born, hborn, hcallbacks, hk, htag'⟩ := hbears
  have hlength : p'.called.length = p.called.length + 1 := by
    rw [hcalled, hcalled', List.length_append, List.length_singleton]
  refine ⟨tag', fun j => hlength ▸ htag' j, born, (tag k, timer.fp), ?_, ?_⟩
  · rintro ⟨n, fp⟩ hx
    obtain ⟨hn, hmem⟩ := hborn _ hx
    exact ⟨p.called.length, htag k, hn ▸ Nat.lt_succ_self _, hmem⟩
  · change callbacks tag' (((p.ran o tab k timer).engine.timers tab).ahead (some k)) =
      callbacks tag ((p.engine.timers tab).ahead (some k)) + born at hcallbacks
    have hahead₀ : ((p.ran o tab k timer).engine.timers tab).ahead (some k) =
        (k, timer') :: post := OrderedMap.ahead_of_split hran
    rw [hahead₀, callbacks_cons, hk, hupTo.fp_eq] at hcallbacks
    rw [hahead, ← hcallbacks, add_comm, Multiset.singleton_add]

theorem stands_of_head {post : List (ℤ × ETimer Fp)}
    (h : (p.engine.timers tab).ahead (post.head?.map Prod.fst) = post) :
    Stands tab p (post.head?.map Prod.fst) := by
  intro j hj
  cases post with
  | nil => cases hj
  | cons e es =>
      obtain rfl : e.1 = j := Option.some.inj hj
      have hmem : e ∈ (p.engine.timers tab).ahead (some e.1) := by
        rw [List.head?_cons, Option.map_some] at h
        rw [h]
        exact List.mem_cons_self
      exact Option.isSome_of_eq_some
        ((OrderedMap.find?_eq_some_iff _ e.1 e.2).mpr (List.mem_of_mem_filter hmem))

/-- A turn stands the iterator on an entry again, and less is left. -/
theorem turn_decreases (h : ((p.engine.timers tab).find? k).isSome)
    (htag : ∀ j, tag j ≤ p.called.length) :
    ∃ p' it', p.turn o tab k = some (p', it') ∧ Stands tab p' it' ∧
      Falls o tab tag p (some k) p' it' := by
  obtain ⟨timer, hk⟩ := Option.isSome_iff_exists.mp h
  obtain ⟨pre, post, hm⟩ := OrderedMap.exists_split hk
  have hahead : (p.engine.timers tab).ahead (some k) = (k, timer) :: post :=
    OrderedMap.ahead_of_split hm
  have hnext := OrderedMap.next?_of_split hm
  cases hmark : timer.needDelete with
  | true =>
      have herase : ((p.visit tab k timer).erase tab k).engine.timers tab =
          (p.engine.timers tab).erase k :=
        (TimerThread.timers_setTimers_eq _).trans (if_pos rfl)
      have hahead' := OrderedMap.ahead_of_split (OrderedMap.erase_entries_of_split hm)
      rw [← herase] at hahead'
      rw [Pass.turn_of_marked hk hmark, hnext]
      exact ⟨_, _, rfl, stands_of_head hahead', falls_of_tail htag rfl hahead hahead'⟩
  | false =>
      cases hdue : timer.due o.countTick (o.clock p.readings) with
      | false =>
          have hahead' : (((p.visit tab k timer).getClock o).2.engine.timers tab).ahead
              (post.head?.map Prod.fst) = post := by
            rw [List.append_cons] at hm
            exact OrderedMap.ahead_of_split hm
          rw [Pass.turn_of_early hk hmark hdue, hnext]
          exact ⟨_, _, rfl, stands_of_head hahead', falls_of_tail htag rfl hahead hahead'⟩
      | true =>
          obtain ⟨timer', hupTo, hfind⟩ := Pass.find?_ran o hk
          obtain ⟨pre', post', hran⟩ := OrderedMap.exists_split hfind
          obtain ⟨hnext', hahead'⟩ := ahead_of_fired hran
          have hcalled : ∀ expired, (if expired = true then (p.fired o tab k timer).erase tab k
              else p.fired o tab k timer).called = (p.fired o tab k timer).called := by
            intro expired
            split_ifs <;> rfl
          rw [Pass.turn_of_due hk hmark hdue, hnext']
          exact ⟨_, _, rfl, stands_of_head (hahead' timer.runOnce),
            falls_of_fired hk htag (hcalled timer.runOnce) hupTo hran (hahead' timer.runOnce)⟩

end Turn

/-! ## Passes that end -/

/-- The call of `Update` returns. -/
def Outside.Returns (o : Outside Fp) (g : TimerThread Fp) : Prop :=
  ∃ n p, Pass.update o n { engine := g } = some p

section Returns

variable {o : Outside Fp}

/-- A loop under callbacks that spawn well-foundedly comes to its end. The induction is
on what is ahead of the iterator. -/
theorem loop_returns (h : WellFounded (Spawns o.calls)) (tab : Tab) (p : Pass Fp)
    (it : Option ℤ) (hit : Stands tab p it) : ∃ n p', Pass.loop o tab n it p = some p' := by
  suffices hall : ∀ (x : Multiset (ℕ × Fp)) (tag : ℤ → ℕ) (p : Pass Fp) (it : Option ℤ),
      x = callbacks tag ((p.engine.timers tab).ahead it) →
      (∀ j, tag j ≤ p.called.length) → Stands tab p it →
      ∃ n p', Pass.loop o tab n it p = some p' from
    hall _ (fun _ => 0) p it rfl (fun _ => Nat.zero_le _) hit
  intro x
  induction x using h.cutExpand.induction with
  | h x ih =>
      rintro tag p it rfl htag hit
      cases it with
      | none => exact ⟨0, p, by rw [Pass.loop]⟩
      | some k =>
          obtain ⟨p', it', hturn, hit', tag', htag', hfall⟩ :=
            turn_decreases (o := o) (hit k rfl) htag
          obtain ⟨n, p'', hloop⟩ := ih _ hfall tag' p' it' rfl htag' hit'
          refine ⟨n + 1, p'', ?_⟩
          rw [Pass.loop, hturn]
          exact hloop

theorem loop_mono {tab : Tab} {n n' : ℕ} {it : Option ℤ} {p p' : Pass Fp} (hn : n ≤ n')
    (h : Pass.loop o tab n it p = some p') : Pass.loop o tab n' it p = some p' := by
  induction n generalizing n' it p with
  | zero =>
      cases it with
      | none => rwa [Pass.loop] at h ⊢
      | some k => rw [Pass.loop] at h; cases h
  | succ n ih =>
      cases it with
      | none => rwa [Pass.loop] at h ⊢
      | some k =>
          obtain ⟨n', rfl⟩ := Nat.exists_eq_succ_of_ne_zero (Nat.ne_zero_of_lt hn)
          rw [Pass.loop] at h ⊢
          obtain ⟨r, hturn, hloop⟩ := Option.bind_eq_some_iff.mp h
          rw [hturn]
          exact ih (Nat.le_of_succ_le_succ hn) hloop

theorem stands_first (tab : Tab) (p : Pass Fp) : Stands tab p (p.engine.timers tab).first? :=
  fun _ hj => OrderedMap.first?_isSome_find? hj

theorem returns_of_wellFounded (h : WellFounded (Spawns o.calls)) (g : TimerThread Fp) :
    o.Returns g := by
  obtain ⟨n₁, p₁, hloop₁⟩ := loop_returns h .timers1 { engine := g } _ (stands_first _ _)
  obtain ⟨n₂, p₂, hloop₂⟩ := loop_returns h .timers2 p₁ _ (stands_first _ _)
  refine ⟨max n₁ n₂, p₂, ?_⟩
  rw [Pass.update, loop_mono (le_max_left n₁ n₂) hloop₁]
  exact loop_mono (le_max_right n₁ n₂) hloop₂

end Returns

end Qing
