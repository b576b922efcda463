import CounterTerrorist.Foundations.InsertionMap
import Mathlib.Data.Finset.Card

/-!
# Quorums and tallies

Two sets of more than half of the nodes have a node in common, and the larger they are the more
(`Quorum.two_mul_le`).

Voters are counted once each (`Tally.distinct`), and votes in a map, as they come in
(`Tally.tally`). What is in the map does not depend on
their order (`Tally.mem_entries_tally`), but the order of its entries does. Who looks for the first
candidate with enough votes gets the same one in every order, if there can be only one
(`Tally.find?_eq_of_unique`).
-/

namespace Quorum

variable {α : Type*} [DecidableEq α]

/-- Two sets of `t` nodes overlap in what they have too many. -/
theorem two_mul_le {U A B : Finset α} (hA : A ⊆ U) (hB : B ⊆ U) {t : ℕ} (ht : t ≤ A.card)
    (ht' : t ≤ B.card) : 2 * t ≤ U.card + (A ∩ B).card := by
  have hunion : (A ∪ B).card ≤ U.card := Finset.card_le_card (Finset.union_subset hA hB)
  have hboth := Finset.card_union_add_card_inter A B
  omega

end Quorum

namespace Tally

open List

variable {α : Type*} [DecidableEq α]

/-- One more vote. -/
def vote (votes : InsertionMap α ℕ) (a : α) : InsertionMap α ℕ :=
  votes.set a ((votes.get a).getD 0 + 1)

/-- The number of votes for everyone who has one. -/
def tally (voted : List α) : InsertionMap α ℕ := voted.foldl vote .empty

theorem get_foldl_vote (voted : List α) (votes : InsertionMap α ℕ) (a : α) :
    (voted.foldl vote votes).get a =
      if a ∈ voted then some ((votes.get a).getD 0 + voted.count a) else votes.get a := by
  induction voted generalizing votes with
  | nil => rfl
  | cons b voted ih =>
    rw [foldl_cons, ih, vote, InsertionMap.get_set]
    by_cases hab : a = b
    · subst hab
      by_cases hmem : a ∈ voted
      · simp [hmem]
        omega
      · simp [count_eq_zero.2 hmem]
    · simp [hab, count_cons_of_ne (Ne.symm hab)]

variable {a : α} {l seen : List α}

/-- **The entries are the votes**, whatever their order. -/
theorem mem_entries_tally {voted : List α} {n : ℕ} :
    (a, n) ∈ (tally voted).entries ↔ a ∈ voted ∧ voted.count a = n := by
  rw [← InsertionMap.get_eq_some_iff, tally, get_foldl_vote]
  by_cases hmem : a ∈ voted
  · simp [InsertionMap.get, InsertionMap.empty]
  · simp [InsertionMap.get, InsertionMap.empty]

/-- Nobody votes twice. -/
theorem count_add_count_le (voted : List α) {b : α} (h : a ≠ b) :
    voted.count a + voted.count b ≤ voted.length := by
  induction voted with
  | nil => exact Nat.le_refl 0
  | cons c voted ih =>
    simp only [count_cons, length_cons, beq_iff_eq]
    split_ifs with ha hb
    · exact absurd (ha.symm.trans hb) h
    all_goals omega

/-! ### Different voters -/

/-- One more element of a set that is kept in the order of insertion. -/
def add (seen : List α) (a : α) : List α := if seen.contains a then seen else seen ++ [a]

/-- The different elements of a list, in the order in which they come first. -/
def distinct (l : List α) : List α := l.foldl add []

theorem mem_foldl_add : a ∈ l.foldl add seen ↔ a ∈ seen ∨ a ∈ l := by
  induction l generalizing seen with
  | nil => simp
  | cons b l ih =>
    rw [foldl_cons, ih, add, contains_eq_mem, mem_cons, ← or_assoc]
    refine or_congr_left ?_
    by_cases hb : b ∈ seen
    · rw [if_pos (decide_eq_true hb)]
      exact ⟨.inl, fun h ↦ h.elim id fun hab ↦ hab ▸ hb⟩
    · rw [if_neg (by simp [hb]), mem_append, mem_singleton]

theorem nodup_foldl_add (h : seen.Nodup) : (l.foldl add seen).Nodup := by
  induction l generalizing seen with
  | nil => exact h
  | cons b l ih =>
    rw [foldl_cons, add, contains_eq_mem]
    by_cases hb : b ∈ seen
    · rw [if_pos (decide_eq_true hb)]
      exact ih h
    · rw [if_neg (by simp [hb])]
      exact ih (nodup_append_comm.1 (nodup_cons.2 ⟨hb, h⟩))

theorem mem_distinct : a ∈ distinct l ↔ a ∈ l := by
  rw [distinct, mem_foldl_add]
  simp

theorem nodup_distinct (l : List α) : (distinct l).Nodup := nodup_foldl_add nodup_nil

/-! ### Counting -/

omit [DecidableEq α] in
/-- Two ways to count differ in what only one of them counts. -/
theorem countP_add_countP_not (p q : α → Bool) (l : List α) :
    l.countP p + l.countP (fun a ↦ q a && !p a) = l.countP q + l.countP fun a ↦ p a && !q a := by
  induction l with
  | nil => rfl
  | cons a l ih =>
    simp only [countP_cons]
    cases p a <;> cases q a <;> simp <;> omega

omit [DecidableEq α] in
theorem foldl_count (p : α → Bool) (l : List α) (n : ℕ) :
    l.foldl (fun n a ↦ if p a then n + 1 else n) n = n + l.countP p := by
  induction l generalizing n with
  | nil => rfl
  | cons a l ih =>
    rw [foldl_cons, ih, countP_cons]
    split <;> omega

/-! ### Order -/

/-- The only one that is right is found in every order. -/
theorem find?_eq_of_unique {β : Type*} {p : β → Bool} {xs ys : List β} (hmem : ∀ x, x ∈ xs ↔ x ∈ ys)
    (hunique : ∀ x ∈ xs, ∀ y ∈ xs, p x = true → p y = true → x = y) :
    xs.find? p = ys.find? p := by
  cases hxs : xs.find? p with
  | none =>
    rw [find?_eq_none] at hxs
    exact (find?_eq_none.2 fun y hy ↦ hxs y ((hmem y).2 hy)).symm
  | some x =>
    have hx := mem_of_find?_eq_some hxs
    have hpx := find?_some hxs
    cases hys : ys.find? p with
    | none => exact absurd hpx (find?_eq_none.1 hys x ((hmem x).1 hx))
    | some y =>
      have hy := (hmem y).2 (mem_of_find?_eq_some hys)
      rw [hunique x hx y hy hpx (find?_some hys)]

end Tally
