import Mathlib.Data.List.Induction
import Mathlib.Logic.Function.Basic
import Mathlib.Tactic.Common

/-!
# Transition systems and their histories

A `System` steps from state to state, each step leaving one event behind.
`Path s tr s'` says that the events `tr`, in order, lead from `s` to `s'`, and
`Run tr s` that they do so from an initial state. The rules below are the ones a
development uses over and over: induction on a run (`Run.induction`), cutting a
run at an event (`Run.cut`), following a concrete run by an abstract one
(`Run.simulate`, `Run.paired`), keeping to the steps that meet a condition (`restrict`),
reading one component of a product (`Run.component`), and running a list of
actions (`exec_path`, `any_of_exec`).
-/

namespace Qing

structure System (σ ε : Type*) where
  init : σ → Prop
  step : σ → ε → σ → Prop

namespace System

variable {σ τ ε α : Type*} {M : System σ ε} {N : System τ ε}

/-- The events `tr`, in order, lead from one state to the other. -/
inductive Path (M : System σ ε) : σ → List ε → σ → Prop
  | refl (s : σ) : Path M s [] s
  | tail {s s' s'' : σ} {tr : List ε} {e : ε} :
      Path M s tr s' → M.step s' e s'' → Path M s (tr ++ [e]) s''

def Run (M : System σ ε) (tr : List ε) (s : σ) : Prop :=
  ∃ s₀, M.init s₀ ∧ M.Path s₀ tr s

theorem Path.single {s s' : σ} {e : ε} (h : M.step s e s') : M.Path s [e] s' :=
  Path.tail (Path.refl s) h

theorem Path.step_of_single {s s' : σ} {e : ε} (h : M.Path s [e] s') : M.step s e s' := by
  generalize hw : [e] = w at h
  cases h with
  | refl => cases hw
  | @tail s₁ _ tr e' hpath hstep =>
      have hw' : [] ++ [e] = tr ++ [e'] := hw
      obtain ⟨rfl, he⟩ := List.append_inj' hw' rfl
      obtain rfl : e = e' := by simpa using he
      generalize hn : ([] : List ε) = w at hpath
      cases hpath with
      | refl => exact hstep
      | tail => simp at hn

theorem Path.eq_of_nil {s s' : σ} (h : M.Path s [] s') : s' = s := by
  generalize hn : ([] : List ε) = w at h
  cases h with
  | refl => rfl
  | tail => simp at hn

theorem Path.append {s s' s'' : σ} {tr tr' : List ε} (h : M.Path s tr s')
    (h' : M.Path s' tr' s'') : M.Path s (tr ++ tr') s'' := by
  induction h' with
  | refl => rwa [List.append_nil]
  | tail _ hstep ih =>
      rw [← List.append_assoc]
      exact Path.tail ih hstep

theorem Path.split {s s'' : σ} {tr tr' : List ε} (h : M.Path s (tr ++ tr') s'') :
    ∃ s', M.Path s tr s' ∧ M.Path s' tr' s'' := by
  induction tr' using List.reverseRecOn generalizing s'' with
  | nil =>
      rw [List.append_nil] at h
      exact ⟨s'', h, Path.refl s''⟩
  | append_singleton tr' e ih =>
      rw [← List.append_assoc] at h
      generalize htr : (tr ++ tr') ++ [e] = w at h
      cases h with
      | refl => simp at htr
      | tail hpath hstep =>
          obtain ⟨rfl, he⟩ := List.append_inj' htr rfl
          obtain rfl : e = _ := by simpa using he
          obtain ⟨s', h₁, h₂⟩ := ih hpath
          exact ⟨s', h₁, Path.tail h₂ hstep⟩

theorem Path.unique (hM : ∀ s e s' s'', M.step s e s' → M.step s e s'' → s' = s'') {s s' s'' : σ}
    {tr : List ε} (h : M.Path s tr s') (h' : M.Path s tr s'') : s' = s'' := by
  induction h generalizing s'' with
  | refl => exact h'.eq_of_nil.symm
  | tail _ hstep ih =>
      obtain ⟨s₁, hpre, hlast⟩ := h'.split
      obtain rfl := ih hpre
      exact hM _ _ _ _ hstep hlast.step_of_single

theorem Path.preserve {I : σ → Prop} (hstep : ∀ s e s', I s → M.step s e s' → I s')
    {s s' : σ} {tr : List ε} (h : M.Path s tr s') (hs : I s) : I s' := by
  induction h with
  | refl => exact hs
  | tail _ hst ih => exact hstep _ _ _ ih hst

theorem Run.snoc {tr : List ε} {e : ε} {s s' : σ} (h : M.Run tr s) (hstep : M.step s e s') :
    M.Run (tr ++ [e]) s' := by
  obtain ⟨s₀, h₀, hpath⟩ := h
  exact ⟨s₀, h₀, Path.tail hpath hstep⟩

theorem Run.append {tr tr' : List ε} {s s' : σ} (h : M.Run tr s) (h' : M.Path s tr' s') :
    M.Run (tr ++ tr') s' := by
  obtain ⟨s₀, h₀, hpath⟩ := h
  exact ⟨s₀, h₀, hpath.append h'⟩

theorem Run.split {tr tr' : List ε} {s : σ} (h : M.Run (tr ++ tr') s) :
    ∃ s', M.Run tr s' ∧ M.Path s' tr' s := by
  obtain ⟨s₀, h₀, hpath⟩ := h
  obtain ⟨s', h₁, h₂⟩ := hpath.split
  exact ⟨s', ⟨s₀, h₀, h₁⟩, h₂⟩

/-- A path cut at one of its events. -/
theorem Path.cut {pre post : List ε} {e : ε} {s s' : σ} (h : M.Path s (pre ++ e :: post) s') :
    ∃ s₁ s₂, M.Path s pre s₁ ∧ M.step s₁ e s₂ ∧ M.Path s₂ post s' := by
  obtain ⟨s₁, hpre, hrest⟩ := h.split
  rw [← List.singleton_append] at hrest
  obtain ⟨s₂, hmid, hpost⟩ := hrest.split
  exact ⟨s₁, s₂, hpre, hmid.step_of_single, hpost⟩

/-- A run cut at one of its events. -/
theorem Run.cut {pre post : List ε} {e : ε} {s : σ} (h : M.Run (pre ++ e :: post) s) :
    ∃ s₁ s₂, M.Run pre s₁ ∧ M.step s₁ e s₂ ∧ M.Path s₂ post s := by
  rw [List.append_cons] at h
  obtain ⟨s₂, ⟨s₀, h₀, hpath⟩, hpost⟩ := h.split
  obtain ⟨s₁, hpre, hmid⟩ := hpath.split
  exact ⟨s₁, s₂, ⟨s₀, h₀, hpre⟩, hmid.step_of_single, hpost⟩

/-- What holds of the empty history and the initial states, and is preserved by
every step taken from the end of a run, holds of every run. -/
theorem Run.induction {P : List ε → σ → Prop} (hinit : ∀ s, M.init s → P [] s)
    (hstep : ∀ tr s e s', M.Run tr s → P tr s → M.step s e s' → P (tr ++ [e]) s')
    {tr : List ε} {s : σ} (h : M.Run tr s) : P tr s := by
  obtain ⟨s₀, h₀, hpath⟩ := h
  induction hpath with
  | refl => exact hinit _ h₀
  | tail hpath hst ih => exact hstep _ _ _ _ ⟨s₀, h₀, hpath⟩ ih hst

/-! ## Simulation -/

/-- Every step of `M` is followed, event by event, by a step of `N` that keeps
`R`. -/
structure Simulation (M : System σ ε) (N : System τ ε) (R : σ → τ → Prop) : Prop where
  init : ∀ s, M.init s → ∃ a, N.init a ∧ R s a
  step : ∀ s a e s', R s a → M.step s e s' → ∃ a', N.step a e a' ∧ R s' a'

def paired (M : System σ ε) (N : System τ ε) (R : σ → τ → Prop) : System (σ × τ) ε where
  init p := M.init p.1 ∧ N.init p.2 ∧ R p.1 p.2
  step p e p' := M.step p.1 e p'.1 ∧ N.step p.2 e p'.2 ∧ R p'.1 p'.2

section Paired

variable {R : σ → τ → Prop} {tr : List ε}

theorem Run.paired (hsim : Simulation M N R) {s : σ} (h : M.Run tr s) :
    ∃ a, (paired M N R).Run tr (s, a) ∧ R s a := by
  refine Run.induction (P := fun tr s => ∃ a, (System.paired M N R).Run tr (s, a) ∧ R s a)
    ?_ ?_ h
  · intro s hs
    obtain ⟨a, ha, hR⟩ := hsim.init s hs
    exact ⟨a, ⟨(s, a), ⟨hs, ha, hR⟩, Path.refl (s, a)⟩, hR⟩
  · rintro tr s e s' - ⟨a, hrun, hR⟩ hst
    obtain ⟨a', hstep, hR'⟩ := hsim.step s a e s' hR hst
    exact ⟨a', hrun.snoc ⟨hst, hstep, hR'⟩, hR'⟩

theorem Path.paired (hsim : Simulation M N R) {s s' : σ} (h : M.Path s tr s') {a : τ}
    (hR : R s a) : ∃ a', (System.paired M N R).Path (s, a) tr (s', a') ∧ R s' a' := by
  induction h with
  | refl => exact ⟨a, Path.refl (s, a), hR⟩
  | tail _ hst ih =>
      obtain ⟨a', hpath, hR'⟩ := ih
      obtain ⟨a'', hstep, hR''⟩ := hsim.step _ a' _ _ hR' hst
      exact ⟨a'', hpath.tail ⟨hst, hstep, hR''⟩, hR''⟩

theorem Path.snd {p p' : σ × τ} (h : (System.paired M N R).Path p tr p') :
    N.Path p.2 tr p'.2 := by
  induction h with
  | refl => exact Path.refl p.2
  | tail _ hst ih => exact Path.tail ih hst.2.1

theorem Run.snd {p : σ × τ} (h : (System.paired M N R).Run tr p) : N.Run tr p.2 := by
  obtain ⟨p₀, h₀, hpath⟩ := h
  exact ⟨p₀.2, h₀.2.1, hpath.snd⟩

theorem Run.simulate (hsim : Simulation M N R) {s : σ} (h : M.Run tr s) :
    ∃ a, N.Run tr a ∧ R s a := by
  obtain ⟨a, hrun, hR⟩ := h.paired hsim
  exact ⟨a, hrun.snd, hR⟩

end Paired

/-! ## Restriction -/

def restrict (M : System σ ε) (C : σ → ε → σ → Prop) : System σ ε where
  init := M.init
  step s e s' := M.step s e s' ∧ C s e s'

theorem Run.of_restrict {C : σ → ε → σ → Prop} {tr : List ε} {s : σ}
    (h : (M.restrict C).Run tr s) : M.Run tr s := by
  refine Run.induction (P := fun tr s => M.Run tr s) ?_ ?_ h
  · exact fun s hs => ⟨s, hs, Path.refl s⟩
  · exact fun tr s e s' _ ih hst => ih.snoc hst.1

theorem Run.to_restrict {C : σ → ε → σ → Prop} {tr : List ε} {s : σ} (h : M.Run tr s)
    (hC : ∀ e ∈ tr, ∀ s s', C s e s') : (M.restrict C).Run tr s := by
  revert hC
  refine Run.induction
    (P := fun tr s => (∀ e ∈ tr, ∀ s s', C s e s') → (M.restrict C).Run tr s) ?_ ?_ h
  · exact fun s hs _ => ⟨s, hs, Path.refl s⟩
  · intro tr s e s' _ ih hst hC
    have hrun := ih fun e' he' => hC e' (List.mem_append_left [e] he')
    exact hrun.snoc ⟨hst, hC e (List.mem_append_right tr List.mem_cons_self) s s'⟩

/-! ## Products -/

/-- Systems side by side, an event moving the one it is about. -/
def product {ι : Type*} [DecidableEq ι] (subject : ε → Option ι) (M : ι → System σ ε) :
    System (ι → σ) ε where
  init a := ∀ i, (M i).init (a i)
  step a e a' := match subject e with
    | none => a' = a
    | some i => ∃ x, (M i).step (a i) e x ∧ a' = Function.update a i x

def about {ι : Type*} [DecidableEq ι] (subject : ε → Option ι) (i : ι) (tr : List ε) : List ε :=
  tr.filter fun e => decide (subject e = some i)

section Component

variable {ι : Type*} [DecidableEq ι] {subject : ε → Option ι} {M : ι → System σ ε}
  {tr : List ε}

theorem product_step {a a' : ι → σ} {e : ε} (h : (product subject M).step a e a') (i : ι) :
    (subject e ≠ some i ∧ a' i = a i) ∨
      (subject e = some i ∧ (M i).step (a i) e (a' i)) := by
  cases he : subject e with
  | none =>
      simp only [product, he] at h
      exact Or.inl ⟨nofun, by rw [h]⟩
  | some j =>
      simp only [product, he] at h
      obtain ⟨x, hx, rfl⟩ := h
      rcases eq_or_ne i j with rfl | hne
      · rw [Function.update_self]
        exact Or.inr ⟨rfl, hx⟩
      · rw [Function.update_of_ne hne]
        exact Or.inl ⟨fun heq => hne (Option.some.inj heq).symm, rfl⟩

/-- Each component of a product moves along the events about it. -/
theorem Path.component {a a' : ι → σ} (h : (product subject M).Path a tr a') (i : ι) :
    (M i).Path (a i) (about subject i tr) (a' i) := by
  induction h with
  | refl => exact Path.refl (a i)
  | @tail a₁ a₂ tr e _ hst ih =>
      rw [about, List.filter_append]
      rcases product_step hst i with ⟨he, heq⟩ | ⟨he, hi⟩
      · rw [heq]
        simpa [about, he] using ih
      · simpa [about, he] using Path.tail ih hi

theorem Run.component {a : ι → σ} (h : (product subject M).Run tr a) (i : ι) :
    (M i).Run (about subject i tr) (a i) := by
  obtain ⟨a₀, h₀, hpath⟩ := h
  exact ⟨a₀ i, h₀ i, hpath.component i⟩

end Component

/-! ## Execution -/

/-- The system whose steps are those of a function, one for each action. -/
def ofNext (init : σ → Prop) (next : α → σ → Option (σ × ε)) : System σ ε where
  init := init
  step s e s' := ∃ a, next a s = some (s', e)

/-- The actions taken one after the other, with the events they leave. -/
def exec (next : α → σ → Option (σ × ε)) : List α → σ → Option (σ × List ε)
  | [], s => some (s, [])
  | a :: as, s => (next a s).bind fun r =>
      (exec next as r.1).map fun r' => (r'.1, r.2 :: r'.2)

theorem exec_cons {next : α → σ → Option (σ × ε)} {a : α} {as : List α} {s s' : σ}
    {tr : List ε} (h : exec next (a :: as) s = some (s', tr)) :
    ∃ s₁ e tr', next a s = some (s₁, e) ∧ exec next as s₁ = some (s', tr') ∧ tr = e :: tr' := by
  obtain ⟨⟨s₁, e⟩, hnext, h⟩ := Option.bind_eq_some_iff.mp h
  obtain ⟨⟨s₂, tr'⟩, hexec, heq⟩ := Option.map_eq_some_iff.mp h
  obtain ⟨rfl, rfl⟩ := Prod.mk.inj heq
  exact ⟨s₁, e, tr', hnext, hexec, rfl⟩

theorem exec_path {init : σ → Prop} {next : α → σ → Option (σ × ε)} :
    ∀ {as : List α} {s s' : σ} {tr : List ε}, exec next as s = some (s', tr) →
      (ofNext init next).Path s tr s'
  | [], s, s', tr, h => by
      obtain ⟨rfl, rfl⟩ := Prod.mk.inj (Option.some.inj h)
      exact Path.refl s
  | a :: as, s, s', tr, h => by
      obtain ⟨s₁, e, tr', hnext, hexec, rfl⟩ := exec_cons h
      have hfirst : (ofNext init next).Path s [e] s₁ := Path.single ⟨a, hnext⟩
      exact hfirst.append (exec_path hexec)

theorem exec_append {next : α → σ → Option (σ × ε)} {bs : List α} {s₁ s' : σ} {tr' : List ε}
    (h' : exec next bs s₁ = some (s', tr')) :
    ∀ {as : List α} {s : σ} {tr : List ε}, exec next as s = some (s₁, tr) →
      exec next (as ++ bs) s = some (s', tr ++ tr')
  | [], s, tr, h => by
      obtain ⟨rfl, rfl⟩ := Prod.mk.inj (Option.some.inj h)
      exact h'
  | a :: as, s, tr, h => by
      obtain ⟨s₂, e, tr₂, hnext, hexec, rfl⟩ := exec_cons h
      simp [exec, hnext, exec_append h' hexec]

theorem Path.exists_exec {init : σ → Prop} {next : α → σ → Option (σ × ε)} {s s' : σ}
    {tr : List ε} (h : (ofNext init next).Path s tr s') :
    ∃ as, exec next as s = some (s', tr) := by
  induction h with
  | refl => exact ⟨[], rfl⟩
  | tail _ hstep ih =>
      obtain ⟨as, has⟩ := ih
      obtain ⟨a, ha⟩ := hstep
      exact ⟨as ++ [a], exec_append (by simp [exec, ha]) has⟩

theorem exec_preserve {next : α → σ → Option (σ × ε)} {ok : α → Prop} {P : σ → List ε → Prop}
    (hstep : ∀ s tr a s' e, ok a → P s tr → next a s = some (s', e) → P s' (tr ++ [e])) :
    ∀ {as : List α} {s s' : σ} {tr tr' : List ε}, (∀ a ∈ as, ok a) → P s tr →
      exec next as s = some (s', tr') → P s' (tr ++ tr')
  | [], s, s', tr, tr', _, hs, h => by
      obtain ⟨rfl, rfl⟩ := Prod.mk.inj (Option.some.inj h)
      rwa [List.append_nil]
  | a :: as, s, s', tr, tr', hok, hs, h => by
      obtain ⟨s₁, e, tr₂, hnext, hexec, rfl⟩ := exec_cons h
      have hs₁ : P s₁ (tr ++ [e]) := hstep s tr a s₁ e (hok a List.mem_cons_self) hs hnext
      have hs₂ := exec_preserve hstep (fun b hb => hok b (List.mem_cons_of_mem a hb)) hs₁ hexec
      rwa [List.append_assoc] at hs₂

theorem run_of_exec {init : σ → Prop} {next : α → σ → Option (σ × ε)} {as : List α}
    {s s' : σ} {tr : List ε} (hs : init s) (h : exec next as s = some (s', tr)) :
    (ofNext init next).Run tr s' :=
  ⟨s, hs, exec_path h⟩

/-- What takes at most `left` steps of its own, and is kept from none of them by the others,
is done once so many have been taken. -/
theorem any_of_exec {init : σ → Prop} {next : α → σ → Option (σ × ε)} {left : σ → ℕ}
    {own : α → Bool} {done : ε → Bool} {P : σ → Prop}
    (hpos : ∀ tr s, (ofNext init next).Run tr s → P s → 0 < left s)
    (hstep : ∀ tr s a s' e, (ofNext init next).Run tr s → P s → next a s = some (s', e) →
      done e = true ∨ P s' ∧ left s' + [a].countP own ≤ left s) :
    ∀ {as : List α} {s s' : σ} {tr tr' : List ε}, (ofNext init next).Run tr s → P s →
      exec next as s = some (s', tr') → left s ≤ as.countP own → tr'.any done = true
  | [], s, s', tr, tr', hrun, hs, _, hle => by
      have := hpos tr s hrun hs
      rw [List.countP_nil] at hle
      omega
  | a :: as, s, s', tr, tr', hrun, hs, h, hle => by
      obtain ⟨s₁, e, tr₂, hnext, hexec, rfl⟩ := exec_cons h
      rw [List.any_cons, Bool.or_eq_true]
      refine (hstep tr s a s₁ e hrun hs hnext).imp_right fun ⟨hs₁, hleft⟩ => ?_
      have hcount : (a :: as).countP own = [a].countP own + as.countP own := by
        rw [← List.countP_append, List.singleton_append]
      exact any_of_exec hpos hstep (hrun.snoc ⟨a, hnext⟩) hs₁ hexec (by omega)

end System

end Qing
