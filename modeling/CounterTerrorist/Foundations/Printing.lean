import Mathlib.Data.List.Forall2

/-!
# Texts that can be read back

A printer gives a text for a value. It can be read back if nobody who reads from the left is ever in
doubt where the text of a value ends and which value it was. What follows the text matters: the
digits of a number do not say where it ends, a bracket does.

## Three ways of ending

* A code whose words are told apart by what they begin with (`Unambiguous`). A text of such words
  ends where a symbol comes that no word begins with (`flatMap_closed`).
* A word over one alphabet ends where a symbol of another one comes (`append_inj_of_stop`).
* A list of texts with separators in between and a bracket at its end (`forall₂_of_intercalate`).
  Its elements only have to be read back in front of a separator or the bracket.
-/

namespace Printing

open List

variable {S α β : Type*}

/-! ### Codes -/

/-- Words are told apart by what they begin with. -/
def Unambiguous (code : α → List S) : Prop :=
  ∀ {a b : α} {r r' : List S}, code a ++ r = code b ++ r' → a = b ∧ r = r'

variable {code : α → List S} {xs : List α} {close : S} {r r' : List S}

theorem unambiguous_of_isPrefix (h : ∀ a b, code a <+: code b → a = b) : Unambiguous code := by
  intro a b r r' heq
  have hab : a = b := by
    rcases prefix_or_prefix_of_prefix (prefix_append (code a) r)
      (heq ▸ prefix_append (code b) r') with hpre | hpre
    · exact h a b hpre
    · exact (h b a hpre).symm
  subst hab
  exact ⟨rfl, append_cancel_left heq⟩

theorem flatMap_injective (h : Unambiguous code) (hnil : ∀ a, code a ≠ []) {ys : List α}
    (heq : xs.flatMap code = ys.flatMap code) : xs = ys := by
  induction xs generalizing ys with
  | nil =>
    cases ys with
    | nil => rfl
    | cons y ys =>
      exact absurd (append_eq_nil_iff.1 heq.symm).1 (hnil y)
  | cons x xs ih =>
    cases ys with
    | nil =>
      exact absurd (append_eq_nil_iff.1 heq).1 (hnil x)
    | cons y ys =>
      obtain ⟨rfl, hrest⟩ := h heq
      rw [ih hrest]

/-- Words up to a symbol that no word begins with. -/
theorem flatMap_closed (h : Unambiguous code) (hclose : ∀ a, ∃ c cs, code a = c :: cs ∧ c ≠ close)
    {ys : List α} (heq : xs.flatMap code ++ close :: r = ys.flatMap code ++ close :: r') :
    xs = ys ∧ r = r' := by
  have hword {y : α} {t t' : List S} : close :: t ≠ code y ++ t' := by
    obtain ⟨c, cs, hc, hne⟩ := hclose y
    rw [hc]
    exact fun h ↦ hne (List.cons.inj h).1.symm
  induction xs generalizing ys with
  | nil =>
    cases ys with
    | nil => exact ⟨rfl, (List.cons.inj heq).2⟩
    | cons y ys =>
      rw [flatMap_cons, append_assoc] at heq
      exact absurd heq hword
  | cons x xs ih =>
    cases ys with
    | nil =>
      rw [flatMap_nil, flatMap_cons, append_assoc] at heq
      exact absurd heq.symm hword
    | cons y ys =>
      rw [flatMap_cons, flatMap_cons, append_assoc, append_assoc] at heq
      obtain ⟨rfl, hrest⟩ := h heq
      obtain ⟨rfl, rfl⟩ := ih hrest
      exact ⟨rfl, rfl⟩

/-! ### Alphabets -/

/-- Words over `P` up to a symbol that is not in `P`. -/
theorem append_inj_of_stop {P : S → Prop} {a b : List S} (ha : ∀ c ∈ a, P c) (hb : ∀ c ∈ b, P c)
    (hr : ∀ c ∈ r.head?, ¬ P c) (hr' : ∀ c ∈ r'.head?, ¬ P c) (heq : a ++ r = b ++ r') :
    a = b ∧ r = r' := by
  induction a generalizing b with
  | nil =>
    cases b with
    | nil => exact ⟨rfl, heq⟩
    | cons c b =>
      rw [nil_append] at heq
      exact absurd (hb c mem_cons_self) (hr c (by rw [heq]; rfl))
  | cons c a ih =>
    cases b with
    | nil =>
      rw [nil_append] at heq
      exact absurd (ha c mem_cons_self) (hr' c (by rw [← heq]; rfl))
    | cons d b =>
      obtain ⟨rfl, hrest⟩ := List.cons.inj heq
      obtain ⟨rfl, rfl⟩ := ih (fun e he ↦ ha e (mem_cons_of_mem _ he))
        (fun e he ↦ hb e (mem_cons_of_mem _ he)) hrest
      exact ⟨rfl, rfl⟩

/-! ### Lists -/

/-- What may follow an element of a list. -/
def Stops (sep close : S) (r : List S) : Prop := ∃ rest, r = sep :: rest ∨ r = close :: rest

theorem intercalate_cons_append (sep close : S) (a : List S) (as : List (List S)) (r : List S) :
    ∃ rest, [sep].intercalate (a :: as) ++ close :: r = a ++ rest ∧ (as = [] ∧ rest = close :: r ∨
        as ≠ [] ∧ rest = sep :: ([sep].intercalate as ++ close :: r)) := by
  cases as with
  | nil => exact ⟨close :: r, by simp [List.intercalate], .inl ⟨rfl, rfl⟩⟩
  | cons b as =>
    refine ⟨sep :: ([sep].intercalate (b :: as) ++ close :: r), ?_, .inr ⟨cons_ne_nil b as, rfl⟩⟩
    simp [List.intercalate]

/-- Two lists with the same text have the same elements, if those at the same place can be read back
in front of a separator or the bracket. -/
theorem forall₂_of_intercalate {sep close : S} (hne : sep ≠ close) {p : α → List S} {q : β → List S}
    {Q : α → β → Prop} {xs : List α} {ys : List β} {r r' : List S} (hnil : xs = [] ↔ ys = [])
    (hread : ∀ x y, (x, y) ∈ xs.zip ys → ∀ {t t'}, Stops sep close t → Stops sep close t' →
      p x ++ t = q y ++ t' → Q x y ∧ t = t')
    (heq : [sep].intercalate (xs.map p) ++ close :: r =
      [sep].intercalate (ys.map q) ++ close :: r') :
    Forall₂ Q xs ys ∧ r = r' := by
  induction xs generalizing ys with
  | nil =>
    obtain rfl := hnil.1 rfl
    exact ⟨.nil, (List.cons.inj heq).2⟩
  | cons x xs ih =>
    cases ys with
    | nil => cases hnil.2 rfl
    | cons y ys =>
      obtain ⟨t, ht, hxs⟩ := intercalate_cons_append sep close (p x) (xs.map p) r
      obtain ⟨t', ht', hys⟩ := intercalate_cons_append sep close (q y) (ys.map q) r'
      rw [map_cons, map_cons, ht, ht'] at heq
      have hstops : Stops sep close t := by
        obtain ⟨-, rfl⟩ | ⟨-, rfl⟩ := hxs
        · exact ⟨_, .inr rfl⟩
        · exact ⟨_, .inl rfl⟩
      have hstops' : Stops sep close t' := by
        obtain ⟨-, rfl⟩ | ⟨-, rfl⟩ := hys
        · exact ⟨_, .inr rfl⟩
        · exact ⟨_, .inl rfl⟩
      obtain ⟨hQ, rfl⟩ := hread x y mem_cons_self hstops hstops' heq
      -- both lists end here, or both go on
      obtain ⟨hxs, rfl⟩ | ⟨hxs, rfl⟩ := hxs <;> obtain ⟨hys, hrest⟩ | ⟨hys, hrest⟩ := hys
      · obtain rfl := map_eq_nil_iff.1 hxs
        obtain rfl := map_eq_nil_iff.1 hys
        exact ⟨.cons hQ .nil, (List.cons.inj hrest).2⟩
      · exact absurd (List.cons.inj hrest).1.symm hne
      · exact absurd (List.cons.inj hrest).1 hne
      · have hnil' : xs = [] ↔ ys = [] := ⟨fun h ↦ absurd (map_eq_nil_iff.2 h) hxs,
            fun h ↦ absurd (map_eq_nil_iff.2 h) hys⟩
        obtain ⟨hrests, rfl⟩ := ih hnil' (fun x y hxy ↦ hread x y (mem_cons_of_mem _ hxy))
          (List.cons.inj hrest).2
        exact ⟨.cons hQ hrests, rfl⟩

/-- The text of a list of texts none of which begins with the bracket says whether there are any. -/
theorem eq_nil_iff_of_intercalate {sep close : S} {p : α → List S} {q : β → List S} {xs : List α}
    {ys : List β} {r r' : List S} (hp : ∀ x ∈ xs, ∃ c cs, p x = c :: cs ∧ c ≠ close)
    (hq : ∀ y ∈ ys, ∃ c cs, q y = c :: cs ∧ c ≠ close)
    (heq : [sep].intercalate (xs.map p) ++ close :: r =
      [sep].intercalate (ys.map q) ++ close :: r') :
    xs = [] ↔ ys = [] := by
  constructor
  · rintro rfl
    cases ys with
    | nil => rfl
    | cons y ys =>
      obtain ⟨c, cs, hc, hne⟩ := hq y mem_cons_self
      obtain ⟨t, ht, -⟩ := intercalate_cons_append sep close (q y) (ys.map q) r'
      rw [map_cons, ht, hc] at heq
      exact absurd (List.cons.inj heq).1.symm hne
  · rintro rfl
    cases xs with
    | nil => rfl
    | cons x xs =>
      obtain ⟨c, cs, hc, hne⟩ := hp x mem_cons_self
      obtain ⟨t, ht, -⟩ := intercalate_cons_append sep close (p x) (xs.map p) r
      rw [map_cons, ht, hc] at heq
      exact absurd (List.cons.inj heq).1 hne

end Printing
