import Mathlib.Data.Finset.Card
import Mathlib.Data.Finset.Union

/-!
# Bloom filters

A Bloom filter keeps a set of positions. Every element has some positions of its own; adding an
element adds them, and an element counts as present if they are all there. So an element that was
added is always found (no false negatives), and one that was not is found exactly if its positions
are covered by those of the others (`mem_after`).

There are only finitely many positions, and an element that is not found adds a new one. So a filter
that is never emptied finds an element that it has not met, sooner or later, whatever the positions
are: `exists_found`.
-/

namespace Bloom

variable {α P : Type*} [DecidableEq P] (positions : α → List P)

/-- All positions of the element are set. -/
def Has (S : Finset P) (x : α) : Prop := ∀ p ∈ positions x, p ∈ S

/-- Set the positions of the element. -/
def add (S : Finset P) (x : α) : Finset P := S ∪ (positions x).toFinset

/-- Add one element after the other. -/
def after (S : Finset P) (xs : List α) : Finset P := xs.foldl (add positions) S

variable {positions} {S U : Finset P} {x : α} {xs : List α}

instance : Decidable (Has positions S x) := inferInstanceAs (Decidable (∀ _ ∈ _, _))

theorem mem_after {p : P} : p ∈ after positions S xs ↔ p ∈ S ∨ ∃ x ∈ xs, p ∈ positions x := by
  induction xs generalizing S with
  | nil => simp [after]
  | cons x xs ih =>
    rw [after, List.foldl_cons, ← after, ih, add, Finset.mem_union, or_assoc]
    simp

/-- An element that is not found sets a position. -/
theorem card_lt_card_add (h : ¬Has positions S x) : S.card < (add positions S x).card := by
  simp only [Has, not_forall] at h
  obtain ⟨p, hp, hnew⟩ := h
  have hadded : p ∈ add positions S x := Finset.mem_union_right S (List.mem_toFinset.2 hp)
  have hsubset : S ⊆ add positions S x := Finset.subset_union_left
  exact Finset.card_lt_card ((Finset.ssubset_iff_of_subset hsubset).2 ⟨p, hadded, hnew⟩)

/-- **Saturation.** Among more elements than there are positions left, one is found at once. -/
theorem exists_found (hpos : ∀ x ∈ xs, ∀ p ∈ positions x, p ∈ U) (hS : S ⊆ U)
    (hcard : U.card < S.card + xs.length) :
    ∃ before x rest, xs = before ++ x :: rest ∧ Has positions (after positions S before) x := by
  induction xs generalizing S with
  | nil => exact absurd (Finset.card_le_card hS) (Nat.not_le.2 hcard)
  | cons x xs ih =>
    by_cases hfound : Has positions S x
    · exact ⟨[], x, xs, rfl, hfound⟩
    · obtain ⟨hx, hxs⟩ := List.forall_mem_cons.1 hpos
      have hadd : add positions S x ⊆ U :=
        Finset.union_subset hS fun p hp ↦ hx p (List.mem_toFinset.1 hp)
      have hgrows := card_lt_card_add hfound
      rw [List.length_cons] at hcard
      obtain ⟨before, y, rest, rfl, hy⟩ := ih hxs hadd (by omega)
      exact ⟨x :: before, y, rest, rfl, hy⟩

end Bloom
