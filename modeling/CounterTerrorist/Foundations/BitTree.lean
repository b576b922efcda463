import Mathlib.Data.List.Infix
import Mathlib.Data.List.Pairwise

/-!
# Tables of prefixes, and trees that hold them

A table gives data to prefixes of bit strings, none of which is a beginning of another
(`PrefixTable`). So at most one of them is a beginning of a given string, and there is nothing to
choose (`PrefixTable.find_eq_some_iff`).

A tree splits on one bit after the other, and has data at some of its leaves (`BitTree`). What a
walk finds is told by the entries of the tree alone (`BitTree.find_eq_some_iff`), so a tree that has
the entries of a table answers like the table (`BitTree.find_eq_of_represents`).
-/

/-- Data for prefixes. -/
structure PrefixTable (α : Type) where
  entries : List (List Bool × α)
  /-- No prefix is a beginning of another. -/
  disjoint : entries.Pairwise fun e e' ↦ ¬e.1 <+: e'.1 ∧ ¬e'.1 <+: e.1
  /-- No prefix is empty. -/
  pos : ∀ e ∈ entries, 1 ≤ e.1.length

/-- A tree with data at its leaves. -/
inductive BitTree (α : Type)
  | empty
  | data (a : α)
  | node (zero one : BitTree α)

variable {α : Type}

/-! ### Tables -/

namespace PrefixTable

open List

/-- The data of the prefix that the bits start with. -/
def find (table : PrefixTable α) (bits : List Bool) : Option α :=
  (table.entries.find? fun e ↦ e.1.isPrefixOf bits).map Prod.snd

variable {bits : List Bool}

/-- **At most one prefix matches.** -/
theorem eq_of_matching (table : PrefixTable α) {e e' : List Bool × α} (h : e ∈ table.entries)
    (h' : e' ∈ table.entries) (hbits : e.1 <+: bits) (hbits' : e'.1 <+: bits) : e = e' := by
  by_contra hne
  have : Std.Symm fun e e' : List Bool × α ↦ ¬e.1 <+: e'.1 ∧ ¬e'.1 <+: e.1 :=
    ⟨fun _ _ h ↦ And.symm h⟩
  have hdisj := table.disjoint.forall h h' hne
  rcases prefix_or_prefix_of_prefix hbits hbits' with hle | hle
  · exact hdisj.1 hle
  · exact hdisj.2 hle

theorem find_eq_some_iff (table : PrefixTable α) {a : α} :
    table.find bits = some a ↔ ∃ p, (p, a) ∈ table.entries ∧ p <+: bits := by
  have hmatch {e : List Bool × α} (h : table.entries.find? (fun e ↦ e.1.isPrefixOf bits) = some e) :
      e ∈ table.entries ∧ e.1 <+: bits :=
    ⟨mem_of_find?_eq_some h, isPrefixOf_iff_prefix.1
      (find?_some (p := fun e : List Bool × α ↦ e.1.isPrefixOf bits) h)⟩
  rw [find, Option.map_eq_some_iff]
  constructor
  · rintro ⟨e, hfind, rfl⟩
    exact ⟨e.1, hmatch hfind⟩
  · rintro ⟨p, hmem, hp⟩
    cases hfind : table.entries.find? (fun e ↦ e.1.isPrefixOf bits) with
    | none =>
      have hnone := find?_eq_none.1 hfind _ hmem
      exact absurd (by simpa using hp) hnone
    | some e =>
      obtain ⟨he, hbits⟩ := hmatch hfind
      exact ⟨e, rfl, by rw [table.eq_of_matching he hmem hbits hp]⟩

end PrefixTable

/-! ### Trees -/

namespace BitTree

open List

/-- What a walk along the bits finds. -/
def find : BitTree α → List Bool → Option α
  | .empty, _ => none
  | .data a, _ => some a
  | .node _ _, [] => none
  | .node zero one, bit :: bits =>
    match bit with
    | false => zero.find bits
    | true => one.find bits

/-- The paths to the data. -/
def entries : BitTree α → List (List Bool × α)
  | .empty => []
  | .data a => [([], a)]
  | .node zero one =>
    (zero.entries.map fun e ↦ (false :: e.1, e.2)) ++ one.entries.map fun e ↦ (true :: e.1, e.2)

/-- The tree has the entries of the table. -/
def Represents (t : BitTree α) (table : PrefixTable α) : Prop :=
  ∀ e, e ∈ t.entries ↔ e ∈ table.entries

theorem mem_entries_node {zero one : BitTree α} {p : List Bool} {a : α} :
    (p, a) ∈ (node zero one).entries ↔ (∃ q, p = false :: q ∧ (q, a) ∈ zero.entries) ∨
        ∃ q, p = true :: q ∧ (q, a) ∈ one.entries := by
  rw [entries, mem_append, List.mem_map, List.mem_map]
  constructor
  · rintro (⟨e, he, heq⟩ | ⟨e, he, heq⟩)
    · cases heq
      exact .inl ⟨e.1, rfl, he⟩
    · cases heq
      exact .inr ⟨e.1, rfl, he⟩
  · rintro (⟨q, rfl, hq⟩ | ⟨q, rfl, hq⟩)
    · exact .inl ⟨_, hq, rfl⟩
    · exact .inr ⟨_, hq, rfl⟩

variable {t : BitTree α}

/-- **A walk finds what stands at a beginning of the bits.** -/
theorem find_eq_some_iff {bits : List Bool} {a : α} :
    t.find bits = some a ↔ ∃ p, (p, a) ∈ t.entries ∧ p <+: bits := by
  induction t generalizing bits with
  | empty => simp [find, entries]
  | data b => simp [find, entries, eq_comm]
  | node zero one ihZero ihOne =>
    cases bits with
    | nil => simp [find, mem_entries_node]
    | cons bit bits =>
      cases bit with
      | false =>
        rw [find, ihZero]
        constructor
        · rintro ⟨p, hmem, hp⟩
          exact ⟨false :: p, mem_entries_node.2 (.inl ⟨p, rfl, hmem⟩), cons_prefix_cons.2 ⟨rfl, hp⟩⟩
        · rintro ⟨p, hmem, hp⟩
          rcases mem_entries_node.1 hmem with ⟨q, rfl, hq⟩ | ⟨q, rfl, -⟩
          · exact ⟨q, hq, (cons_prefix_cons.1 hp).2⟩
          · exact absurd (cons_prefix_cons.1 hp).1 (by decide)
      | true =>
        rw [find, ihOne]
        constructor
        · rintro ⟨p, hmem, hp⟩
          exact ⟨true :: p, mem_entries_node.2 (.inr ⟨p, rfl, hmem⟩), cons_prefix_cons.2 ⟨rfl, hp⟩⟩
        · rintro ⟨p, hmem, hp⟩
          rcases mem_entries_node.1 hmem with ⟨q, rfl, -⟩ | ⟨q, rfl, hq⟩
          · exact absurd (cons_prefix_cons.1 hp).1 (by decide)
          · exact ⟨q, hq, (cons_prefix_cons.1 hp).2⟩

/-- **A tree with the entries of a table answers like the table.** -/
theorem find_eq_of_represents {table : PrefixTable α} (h : t.Represents table) (bits : List Bool) :
    t.find bits = table.find bits := by
  refine Option.ext fun a ↦ ?_
  rw [find_eq_some_iff, table.find_eq_some_iff]
  exact exists_congr fun p ↦ and_congr_left fun _ ↦ h (p, a)

end BitTree
