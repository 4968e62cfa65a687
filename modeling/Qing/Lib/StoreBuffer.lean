import Mathlib.Logic.Function.Basic
import Qing.Lib.Transition

/-!
# Memory behind store buffers

The stores of a thread wait in a buffer of its own and are drained to the memory in the
order they were made. A thread reads the memory with its own waiting stores laid over it,
and sees nothing of the stores that wait elsewhere. What one thread knows of another is thus
an older position of that thread: `Tracks` says that the memory stands at a position
of every thread, from which the waiting stores lead to the position the thread itself is
at, and the rules say how that is kept when a store is made or drained, and what a
thread finds when it reads. `Drained` follows a buffer over a time in which stores are made
and drained.
-/

namespace Qing

/-- A memory, and the stores that wait to be drained to it. -/
structure Buffered (ι μ σ : Type*) where
  mem : μ
  buffer : ι → List σ

namespace Buffered

variable {ι μ σ : Type*} {π : ι → Type*} (apply : σ → μ → μ)

/-- The memory as thread `i` reads it. -/
def view (b : Buffered ι μ σ) (i : ι) : μ :=
  (b.buffer i).foldl (fun m s => apply s m) b.mem

variable [DecidableEq ι]

/-- The thread `i` makes these stores. -/
def push (b : Buffered ι μ σ) (i : ι) (stores : List σ) : Buffered ι μ σ :=
  { b with buffer := Function.update b.buffer i (b.buffer i ++ stores) }

/-- The oldest waiting store of thread `i` reaches the memory. -/
def drain (b : Buffered ι μ σ) (i : ι) : Option (Buffered ι μ σ) :=
  match b.buffer i with
  | [] => none
  | s :: rest => some ⟨apply s b.mem, Function.update b.buffer i rest⟩

@[simp] theorem push_mem (b : Buffered ι μ σ) (i : ι) (stores : List σ) :
    (b.push i stores).mem = b.mem := rfl

@[simp] theorem push_buffer_self (b : Buffered ι μ σ) (i : ι) (stores : List σ) :
    (b.push i stores).buffer i = b.buffer i ++ stores :=
  Function.update_self ..

theorem push_buffer_of_ne (b : Buffered ι μ σ) {i j : ι} (h : j ≠ i) (stores : List σ) :
    (b.push i stores).buffer j = b.buffer j :=
  Function.update_of_ne h ..

@[simp] theorem push_nil (b : Buffered ι μ σ) (i : ι) : b.push i [] = b := by
  simp [push]

theorem push_push (b : Buffered ι μ σ) (i : ι) (stores stores' : List σ) :
    (b.push i stores).push i stores' = b.push i (stores ++ stores') := by
  simp [push]

theorem view_push (b : Buffered ι μ σ) (i : ι) (stores : List σ) :
    (b.push i stores).view apply i = stores.foldl (fun m s => apply s m) (b.view apply i) := by
  simp [view]

theorem drain_eq_some {b b' : Buffered ι μ σ} {i : ι} (h : b.drain apply i = some b') :
    ∃ s rest, b.buffer i = s :: rest ∧
      b' = ⟨apply s b.mem, Function.update b.buffer i rest⟩ := by
  cases hbuf : b.buffer i with
  | nil => simp [drain, hbuf] at h
  | cons s rest =>
      simp only [drain, hbuf, Option.some.injEq] at h
      exact ⟨s, rest, rfl, h.symm⟩

theorem drain_buffer_of_ne {b b' : Buffered ι μ σ} {i j : ι} (h : b.drain apply i = some b')
    (hne : j ≠ i) : b'.buffer j = b.buffer j := by
  obtain ⟨s, rest, -, rfl⟩ := drain_eq_some apply h
  exact Function.update_of_ne hne ..

/-! ## Stores that have reached the memory -/

section Drained

variable {P : Type*} {M N : System P σ} {n n' : ℕ} {buffer buffer' buffer'' : List σ}
  {p p' p'' q : P}

/-- A buffer some time later: `n` stores, the oldest, have taken the memory from `p` to `p'`,
and others have been made. -/
def Drained (M : System P σ) (n : ℕ) (buffer buffer' : List σ) (p p' : P) : Prop :=
  ∃ drained made, M.Path p drained p' ∧ drained.length = n ∧ buffer ++ made = drained ++ buffer'

theorem Drained.made (M : System P σ) (buffer made : List σ) (p : P) :
    Drained M 0 buffer (buffer ++ made) p p :=
  ⟨[], made, .refl p, rfl, rfl⟩

theorem Drained.refl (M : System P σ) (buffer : List σ) (p : P) : Drained M 0 buffer buffer p p :=
  ⟨[], [], .refl p, rfl, List.append_nil buffer⟩

theorem Drained.trans (h : Drained M n buffer buffer' p p')
    (h' : Drained M n' buffer' buffer'' p' p'') : Drained M (n + n') buffer buffer'' p p'' := by
  obtain ⟨drained, made, hpath, rfl, heq⟩ := h
  obtain ⟨drained', made', hpath', rfl, heq'⟩ := h'
  refine ⟨drained ++ drained', made ++ made', hpath.append hpath', List.length_append, ?_⟩
  rw [← List.append_assoc, heq, List.append_assoc, heq', List.append_assoc]

theorem Drained.imp (h : Drained M n buffer buffer' p p')
    (himp : ∀ stores, M.Path p stores p' → N.Path p stores p') :
    Drained N n buffer buffer' p p' := by
  obtain ⟨drained, made, hpath, hlen, heq⟩ := h
  exact ⟨drained, made, himp drained hpath, hlen, heq⟩

/-- Once as many stores have been drained as were waiting, the memory has come to where they
lead, or beyond. -/
theorem Drained.passed (hM : ∀ p s q q', M.step p s q → M.step p s q' → q = q')
    (h : Drained M n buffer buffer' p p') (hn : buffer.length ≤ n) (hpath : M.Path p buffer q) :
    ∃ stores, M.Path q stores p' := by
  obtain ⟨drained, made, hdrained, rfl, heq⟩ := h
  obtain ⟨rest, rfl⟩ := List.prefix_of_prefix_length_le ⟨made, rfl⟩ (heq ▸ ⟨buffer', rfl⟩) hn
  obtain ⟨q', hq', hrest⟩ := hdrained.split
  obtain rfl := hpath.unique hM hq'
  exact ⟨rest, hrest⟩

end Drained

/-! ## Positions -/

section Positions

variable (Match : μ → (∀ i, π i) → Prop) (M : ∀ i, System (π i) σ)

/-- A store that takes a thread from position to position takes the memory along, to the
positions that are `Ok`. -/
def Sound (Ok : (∀ i, π i) → Prop) : Prop :=
  ∀ m p i s q, Match m p → (M i).step (p i) s q → Ok (Function.update p i q) →
    Match (apply s m) (Function.update p i q)

/-- The memory is at the positions `p`, and the waiting stores lead from there to `q`. -/
structure Tracks (b : Buffered ι μ σ) (p q : ∀ i, π i) : Prop where
  mem : Match b.mem p
  path : ∀ i, (M i).Path (p i) (b.buffer i) (q i)

variable {Match M}

theorem Sound.foldl {Ok : (∀ i, π i) → Prop} (hsound : Sound apply Match M Ok) {i : ι}
    {p : ∀ i, π i} {stores : List σ} {q : π i} {m : μ} (hm : Match m p)
    (hpath : (M i).Path (p i) stores q)
    (hok : ∀ ss ss' r, (M i).Path (p i) ss r → (M i).Path r ss' q →
      Ok (Function.update p i r)) :
    Match (stores.foldl (fun m s => apply s m) m) (Function.update p i q) := by
  induction hpath with
  | refl => simpa using hm
  | @tail r q tr s hpath hstep ih =>
      rw [List.foldl_append, List.foldl_cons, List.foldl_nil]
      have hr := ih fun ss ss' r' h h' => hok ss (ss' ++ [s]) r' h (h'.tail hstep)
      have hq := hok (tr ++ [s]) [] q (hpath.tail hstep) (System.Path.refl q)
      have hnew := hsound _ (Function.update p i r) i s q hr (by rwa [Function.update_self])
        (by rwa [Function.update_idem])
      rwa [Function.update_idem] at hnew

namespace Tracks

variable {Ok : (∀ i, π i) → Prop} {b b' : Buffered ι μ σ} {p q : ∀ i, π i} {i : ι}

theorem push (h : Tracks Match M b p q) {stores : List σ} {q' : π i}
    (hpath : (M i).Path (q i) stores q') :
    Tracks Match M (b.push i stores) p (Function.update q i q') := by
  refine ⟨h.mem, fun j => ?_⟩
  rcases eq_or_ne j i with rfl | hne
  · rw [push_buffer_self, Function.update_self]
    exact (h.path j).append hpath
  · rw [push_buffer_of_ne b hne, Function.update_of_ne hne]
    exact h.path j

/-- What thread `i` reads: its own position, and of the others the one the memory is at. -/
theorem view (h : Tracks Match M b p q) (hsound : Sound apply Match M Ok)
    (hok : ∀ ss ss' r, (M i).Path (p i) ss r → (M i).Path r ss' (q i) →
      Ok (Function.update p i r)) :
    Match (b.view apply i) (Function.update p i (q i)) :=
  hsound.foldl apply h.mem (h.path i) hok

theorem drain (h : Tracks Match M b p q) (hsound : Sound apply Match M Ok)
    (hdrain : b.drain apply i = some b')
    (hok : ∀ s rest r, (M i).step (p i) s r → (M i).Path r rest (q i) →
      Ok (Function.update p i r)) :
    ∃ s r, b.buffer i = s :: b'.buffer i ∧ (M i).step (p i) s r ∧
      Tracks Match M b' (Function.update p i r) q := by
  obtain ⟨s, rest, hbuf, rfl⟩ := drain_eq_some apply hdrain
  have hpath := h.path i
  rw [hbuf, ← List.singleton_append] at hpath
  obtain ⟨r, hfirst, hrest⟩ := hpath.split
  have hstep := hfirst.step_of_single
  refine ⟨s, r, by simp [hbuf], hstep, ?_, fun j => ?_⟩
  · exact hsound _ _ i s r h.mem hstep (hok s rest r hstep hrest)
  · dsimp only
    rcases eq_or_ne j i with rfl | hne
    · rwa [Function.update_self, Function.update_self]
    · rw [Function.update_of_ne hne, Function.update_of_ne hne]
      exact h.path j

end Tracks

end Positions

end Buffered

end Qing
