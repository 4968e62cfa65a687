import Mathlib.Data.List.Nodup
import Mathlib.Logic.Function.Basic
import Mathlib.Tactic.Common

/-!
# Lists linked in a circle

`Circle next l` says that the pointers `next` lead through `l` in its order and from its
last element back to its first. A circle can be read from any of its elements on
(`Circle.rotate`) and grows by linking an element in (`Circle.insert`), and a walk along
the pointers comes by each of its elements once (`Circle.circuit_eq`).
-/

namespace Qing

variable {α : Type*} {next : α → Option α} {a t n : α} {l l₁ l₂ : List α}

/-- What follows an element is what comes behind it or, behind the last one, the first. -/
structure Circle (next : α → Option α) (l : List α) : Prop where
  nodup : l.Nodup
  next_eq : ∀ l₁ x l₂, l = l₁ ++ x :: l₂ → next x = (l₂ ++ l₁ ++ [x]).head?

/-- A walk along the pointers until the first element comes next, of `n` elements at most:
`none` if there is a null pointer on the way or the walk is too long. -/
def circuit [DecidableEq α] (next : α → Option α) (first : α) : ℕ → α → Option (List α)
  | 0, _ => none
  | n + 1, x =>
      match next x with
      | none => none
      | some y => if y = first then some [x] else (circuit next first n y).map (x :: ·)

namespace Circle

theorem singleton (h : next a = some a) : Circle next [a] := by
  refine ⟨List.nodup_singleton a, fun l₁ x l₂ hl => ?_⟩
  obtain ⟨rfl, rfl, rfl⟩ : l₁ = [] ∧ x = a ∧ l₂ = [] := by
    cases l₁ with
    | nil => simpa [eq_comm] using hl
    | cons b l₁ => simp at hl
  exact h

theorem next_append (h : Circle next (l₁ ++ t :: n :: l₂)) : next t = some n :=
  h.next_eq l₁ t (n :: l₂) rfl

/-- The circle read from its second element on. -/
theorem rotate (h : Circle next (a :: l)) : Circle next (l ++ [a]) := by
  refine ⟨?_, fun l₁ x l₂ hl => ?_⟩
  · rw [(List.perm_append_singleton a l).nodup_iff]
    exact h.nodup
  · rcases List.eq_nil_or_concat l₂ with rfl | ⟨l₂, b, rfl⟩
    · obtain ⟨rfl, hx⟩ := List.append_inj' hl rfl
      obtain rfl : a = x := by simpa using hx
      have hnext := h.next_eq [] a l rfl
      simpa using hnext
    · rw [List.concat_eq_append, ← List.cons_append, ← List.append_assoc] at hl
      obtain ⟨rfl, hb⟩ := List.append_inj' hl rfl
      obtain rfl : a = b := by simpa using hb
      have hnext := h.next_eq (a :: l₁) x l₂ rfl
      simpa using hnext

theorem rotate_append : ∀ {l₁ l₂ : List α}, Circle next (l₁ ++ l₂) → Circle next (l₂ ++ l₁)
  | [], l₂, h => by rwa [List.append_nil]
  | a :: l₁, l₂, h => by
      rw [List.append_cons]
      apply rotate_append
      rw [← List.append_assoc]
      exact rotate h

variable [DecidableEq α]

theorem circuit_of_append (h : Circle next (l₁ ++ t :: l₂)) (ha : (l₁ ++ [t]).head? = some a)
    {n : ℕ} (hn : l₂.length < n) : circuit next a n t = some (t :: l₂) := by
  induction l₂ generalizing l₁ t n with
  | nil =>
      obtain ⟨n, rfl⟩ := Nat.exists_eq_succ_of_ne_zero (by omega : n ≠ 0)
      have hnext := h.next_eq l₁ t [] rfl
      rw [List.nil_append, ha] at hnext
      simp [circuit, hnext]
  | cons b l₂ ih =>
      obtain ⟨n, rfl⟩ := Nat.exists_eq_succ_of_ne_zero (by omega : n ≠ 0)
      have hb : b ≠ a := by
        rintro rfl
        have hmem : b ∈ l₁ ++ [t] := List.mem_of_mem_head? ha
        have hnodup := h.nodup
        rw [List.append_cons] at hnodup
        exact List.disjoint_of_nodup_append hnodup hmem List.mem_cons_self
      have hhead : (l₁ ++ [t] ++ [b]).head? = some a := by
        rw [List.head?_append, ha]
        rfl
      have hcircle : Circle next (l₁ ++ [t] ++ b :: l₂) := by simpa using h
      have hrest : circuit next a n b = some (b :: l₂) := ih hcircle hhead (by simpa using hn)
      simp [circuit, h.next_append, hb, hrest]

/-- A walk from the first element on comes by all of them in their order. -/
theorem circuit_eq (h : Circle next (a :: l)) {n : ℕ} (hn : l.length < n) :
    circuit next a n a = some (a :: l) := by
  rw [← List.nil_append (a :: l)] at h
  exact circuit_of_append h rfl hn

theorem insert_last (h : Circle next (l ++ [t])) (hn : n ∉ l ++ [t]) :
    Circle (Function.update (Function.update next n (next t)) t (some n)) (l ++ [t, n]) := by
  have hperm : (l ++ [t, n]).Perm (n :: (l ++ [t])) := by
    simpa using List.perm_append_singleton n (l ++ [t])
  have hne : n ≠ t := by
    rintro rfl
    simp at hn
  refine ⟨hperm.nodup_iff.mpr (List.nodup_cons.mpr ⟨hn, h.nodup⟩), fun m₁ x m₂ hm => ?_⟩
  rcases List.eq_nil_or_concat m₂ with rfl | ⟨m₂, b, rfl⟩
  · obtain ⟨rfl, hx⟩ := List.append_inj' (show (l ++ [t]) ++ [n] = m₁ ++ [x] by simpa using hm) rfl
    obtain rfl : n = x := by simpa using hx
    rw [Function.update_of_ne hne, Function.update_self]
    have hnext := h.next_eq l t [] rfl
    simpa using hnext
  · obtain ⟨hl, hb⟩ := List.append_inj'
      (show (l ++ [t]) ++ [n] = (m₁ ++ x :: m₂) ++ [b] by simpa using hm) rfl
    obtain rfl : n = b := by simpa using hb
    rcases List.eq_nil_or_concat m₂ with rfl | ⟨m₂, c, rfl⟩
    · obtain ⟨rfl, hx⟩ := List.append_inj' hl rfl
      obtain rfl : t = x := by simpa using hx
      rw [Function.update_self]
      simp
    · obtain ⟨rfl, hc⟩ := List.append_inj'
        (show l ++ [t] = (m₁ ++ x :: m₂) ++ [c] by simpa using hl) rfl
      obtain rfl : t = c := by simpa using hc
      have hx : x ≠ t ∧ x ≠ n := by
        have hnodup := h.nodup
        constructor
        · rintro rfl
          simp [List.nodup_append] at hnodup
        · rintro rfl
          simp at hn
      rw [Function.update_of_ne hx.1, Function.update_of_ne hx.2]
      have hnext := h.next_eq m₁ x (m₂ ++ [t]) (by simp)
      rw [hnext]
      cases m₂ <;> rfl

/-- A new element linked in behind `t`. -/
theorem insert (h : Circle next (l₁ ++ t :: l₂)) (hn : n ∉ l₁ ++ t :: l₂) :
    Circle (Function.update (Function.update next n (next t)) t (some n))
      (l₁ ++ t :: n :: l₂) := by
  rw [List.append_cons] at h hn
  have hlast : Circle next ((l₂ ++ l₁) ++ [t]) := by
    simpa using h.rotate_append
  have hins := hlast.insert_last (n := n) (by simpa [or_comm, or_assoc, or_left_comm] using hn)
  have hback : Circle (Function.update (Function.update next n (next t)) t (some n))
      (l₂ ++ (l₁ ++ [t, n])) := by
    simpa using hins
  simpa using hback.rotate_append

end Circle

end Qing
