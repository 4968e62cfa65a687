import Mathlib.Logic.ExistsUnique

/-!
# Resources in custody

A resource is open or not, and there are holders. It is in custody when it is open and has
exactly one holder, or is not open and has none. The rules say what becomes of that when
the resource is acquired, moved, shared or dropped; each takes the holders after
the change from those before it, so that a large state is treated one resource at a time.
-/

namespace Qing

variable {ι : Type*} {isOpen isOpen' : Prop} {holds holds' : ι → Prop}

/-- What is open has exactly one holder, and what is held is open. -/
def InCustody (isOpen : Prop) (holds : ι → Prop) : Prop :=
  (isOpen → ∃! i, holds i) ∧ ∀ i, holds i → isOpen

theorem inCustody_congr (hopen : isOpen' ↔ isOpen) (hholds : ∀ i, holds' i ↔ holds i) :
    InCustody isOpen' holds' ↔ InCustody isOpen holds := by
  obtain rfl : holds' = holds := by
    funext i
    exact propext (hholds i)
  obtain rfl : isOpen' = isOpen := propext hopen
  exact Iff.rfl

namespace InCustody

theorem eq (h : InCustody isOpen holds) {i j : ι} (hi : holds i) (hj : holds j) : i = j := by
  obtain ⟨k, -, hunique⟩ := h.1 (h.2 i hi)
  rw [hunique i hi, hunique j hj]

theorem not_holds (h : InCustody isOpen holds) (hclosed : ¬isOpen) (i : ι) : ¬holds i :=
  fun hi => hclosed (h.2 i hi)

theorem iff_not_open (hholds : ∀ i, ¬holds i) : InCustody isOpen holds ↔ ¬isOpen := by
  constructor
  · intro h hopen
    obtain ⟨i, hi, -⟩ := h.1 hopen
    exact hholds i hi
  · intro hclosed
    exact ⟨fun hopen => absurd hopen hclosed, fun i hi => absurd hi (hholds i)⟩

theorem acquire (h : InCustody isOpen holds) (hclosed : ¬isOpen) (hopen : isOpen') {i : ι}
    (hholds : ∀ j, holds' j ↔ holds j ∨ j = i) : InCustody isOpen' holds' := by
  have honly : ∀ j, holds' j ↔ j = i := fun j =>
    (hholds j).trans (or_iff_right (h.not_holds hclosed j))
  exact ⟨fun _ => ⟨i, (honly i).mpr rfl, fun j hj => (honly j).mp hj⟩, fun _ _ => hopen⟩

theorem drop_iff (h : InCustody isOpen holds) {i : ι} (hi : holds i)
    (hholds : ∀ j, holds' j → holds j ∧ j ≠ i) : InCustody isOpen' holds' ↔ ¬isOpen' := by
  apply iff_not_open
  intro j hj
  obtain ⟨hj', hne⟩ := hholds j hj
  exact hne (h.eq hj' hi)

theorem move (h : InCustody isOpen holds) {i j : ι} (hi : holds i)
    (hholds : ∀ k, holds' k ↔ k ≠ i ∧ holds k ∨ k = j) : InCustody isOpen holds' := by
  have honly : ∀ k, holds' k ↔ k = j := by
    intro k
    rw [hholds]
    exact or_iff_right fun hk => hk.1 (h.eq hk.2 hi)
  have hopen := h.2 i hi
  exact ⟨fun _ => ⟨j, (honly j).mpr rfl, fun k hk => (honly k).mp hk⟩, fun _ _ => hopen⟩

theorem share (h : InCustody isOpen holds) {j : ι} (hj : ¬holds j)
    (hholds : ∀ k, holds' k ↔ holds k ∨ k = j) : ¬InCustody isOpen holds' := by
  intro h'
  obtain ⟨i, hi, -⟩ := h.1 (h'.2 j ((hholds j).mpr (Or.inr rfl)))
  obtain rfl := h'.eq ((hholds i).mpr (Or.inl hi)) ((hholds j).mpr (Or.inr rfl))
  exact hj hi

end InCustody

end Qing
