import CounterTerrorist.Foundations.Patterns
import Mathlib.Computability.Language

/-!
# The languages of patterns

A backtracking matcher tries its alternatives in some order. For the question whether a text can be
matched at all, the order does not matter, and a pattern stands for a language: `Reads p L` says
that what `p` leaves of a text is what is left after a word of `L`. Each way to build patterns is
an operation on languages, and a match of a whole text is membership (`Reads.full_iff`).

The star of a pattern tries at most as many rounds as the text has symbols. That is enough: the
empty rounds of a longer match can be left out (`Reads.star`).
-/

namespace Patterns

open scoped Computability

variable {S : Type*} {p q : Pattern S} {L M : Language S}

/-- The rests that a pattern leaves are those after a word of the language. -/
def Reads (p : Pattern S) (L : Language S) : Prop :=
  ∀ text rest, rest ∈ p text ↔ ∃ w ∈ L, text = w ++ rest

/-- The words of one symbol of a class. -/
def letters (cls : S → Bool) : Language S := {w | ∃ c, cls c = true ∧ w = [c]}

variable {cls : S → Bool} {w : List S}

theorem mem_letters : w ∈ letters cls ↔ ∃ c, cls c = true ∧ w = [c] := Iff.rfl

theorem mem_word {key : List S} : w ∈ ({key} : Language S) ↔ w = key := Iff.rfl

/-- A match of a whole text. -/
theorem Reads.full_iff (h : Reads p L) {text : List S} : full p text = true ↔ text ∈ L := by
  simp only [full, List.any_eq_true, List.isEmpty_iff, exists_eq_right, h text [],
    List.append_nil, exists_eq_right']

/-! ### The operations -/

/-- A class of symbols. -/
theorem reads_one (cls : S → Bool) : Reads (one cls) (letters cls) := by
  intro text rest
  cases text with
  | nil => simp [one, mem_letters]
  | cons c cs =>
    by_cases hc : cls c = true
    · simp only [one, hc, if_true, List.mem_singleton]
      constructor
      · rintro rfl
        exact ⟨[c], ⟨c, hc, rfl⟩, rfl⟩
      · rintro ⟨-, ⟨d, -, rfl⟩, heq⟩
        exact (List.cons.inj heq).2.symm
    · simp only [one, hc, Bool.false_eq_true, if_false, List.not_mem_nil, false_iff]
      rintro ⟨-, ⟨d, hd, rfl⟩, heq⟩
      exact hc ((List.cons.inj heq).1 ▸ hd)

/-- A word. -/
theorem reads_literal [DecidableEq S] (key : List S) : Reads (literal key) {key} := by
  intro text rest
  simp only [literal, mem_word, exists_eq_left]
  by_cases h : key <+: text
  · obtain ⟨tail, rfl⟩ := h
    simp [eq_comm]
  · rw [if_neg h]
    refine iff_of_false List.not_mem_nil ?_
    rintro rfl
    exact h (List.prefix_append key rest)

/-- One pattern after another. -/
theorem Reads.seq (hp : Reads p L) (hq : Reads q M) : Reads (seq p q) (L * M) := by
  intro text rest
  simp only [Patterns.seq, List.mem_flatMap, hp text, hq _ rest]
  constructor
  · rintro ⟨-, ⟨w, hw, rfl⟩, v, hv, rfl⟩
    exact ⟨w ++ v, ⟨w, hw, v, hv, rfl⟩, (List.append_assoc ..).symm⟩
  · rintro ⟨-, ⟨w, hw, v, hv, rfl⟩, rfl⟩
    exact ⟨v ++ rest, ⟨w, hw, List.append_assoc ..⟩, v, hv, rfl⟩

/-- An optional pattern. -/
theorem Reads.opt (hp : Reads p L) : Reads (opt p) (L + 1) := by
  intro text rest
  simp only [Patterns.opt, List.mem_append, hp text, List.mem_singleton, Language.mem_add,
    Language.mem_one, or_and_right, exists_or, exists_eq_left, List.nil_append, eq_comm]

/-- One of two patterns. -/
theorem Reads.alt (hp : Reads p L) (hq : Reads q M) : Reads (alt [p, q]) (L + M) := by
  intro text rest
  simp only [Patterns.alt, List.flatMap_cons, List.flatMap_nil, List.append_nil, List.mem_append,
    hp text, hq text, Language.mem_add, or_and_right, exists_or]

/-- A bounded number of rounds. -/
theorem Reads.mem_upTo (hp : Reads p L) {n : ℕ} {text rest : List S} : rest ∈ upTo n p text ↔
      ∃ ws : List (List S), ws.length ≤ n ∧ (∀ w ∈ ws, w ∈ L) ∧ text = ws.flatten ++ rest := by
  induction n generalizing text with
  | zero => simp [upTo, eq_comm]
  | succ n ih =>
    simp only [upTo, Patterns.opt, Patterns.seq, List.mem_append, List.mem_flatMap, hp text,
      List.mem_singleton, ih]
    constructor
    · rintro (⟨-, ⟨w, hw, rfl⟩, ws, hlen, hws, rfl⟩ | rfl)
      · exact ⟨w :: ws, Nat.succ_le_succ hlen, List.forall_mem_cons.2 ⟨hw, hws⟩,
          (List.append_assoc ..).symm⟩
      · exact ⟨[], Nat.zero_le _, nofun, rfl⟩
    · rintro ⟨ws, hlen, hws, rfl⟩
      cases ws with
      | nil => exact .inr rfl
      | cons w ws =>
        obtain ⟨hw, hws⟩ := List.forall_mem_cons.1 hws
        exact .inl ⟨ws.flatten ++ rest, ⟨w, hw, List.append_assoc ..⟩, ws,
          Nat.le_of_succ_le_succ hlen, hws, rfl⟩

theorem length_le_length_flatten {ws : List (List S)} (h : ∀ w ∈ ws, w ≠ []) :
    ws.length ≤ ws.flatten.length := by
  induction ws with
  | nil => exact le_rfl
  | cons w ws ih =>
    obtain ⟨hw, hws⟩ := List.forall_mem_cons.1 h
    have hpos := List.length_pos_iff.2 hw
    have := ih hws
    simp only [List.length_cons, List.flatten_cons, List.length_append]
    omega

/-- **Repetition.** -/
theorem Reads.star (hp : Reads p L) : Reads (star p) L∗ := by
  intro text rest
  rw [Patterns.star, hp.mem_upTo]
  constructor
  · rintro ⟨ws, -, hws, rfl⟩
    exact ⟨ws.flatten, Language.join_mem_kstar hws, rfl⟩
  · rintro ⟨w, hw, rfl⟩
    obtain ⟨ws, rfl, hws⟩ := Language.mem_kstar_iff_exists_nonempty.1 hw
    have hlen := length_le_length_flatten fun w hw ↦ (hws w hw).2
    exact ⟨ws, hlen.trans (by simp), fun w hw ↦ (hws w hw).1, rfl⟩

/-! ### Words of a star -/

/-- If the words of a language are the images of some symbols, those of its star are the images of
texts. -/
theorem mem_kstar_of_image {A : Type*} {ok : A → Prop} {f : A → List S}
    (hL : ∀ w, w ∈ L ↔ ∃ a, ok a ∧ w = f a) :
    w ∈ L∗ ↔ ∃ as : List A, (∀ a ∈ as, ok a) ∧ w = as.flatMap f := by
  constructor
  · rintro ⟨ws, rfl, hall⟩
    induction ws with
    | nil => exact ⟨[], nofun, rfl⟩
    | cons w ws ih =>
      obtain ⟨hw, hws⟩ := List.forall_mem_cons.1 hall
      obtain ⟨a, ha, rfl⟩ := (hL w).1 hw
      obtain ⟨as, has, heq⟩ := ih hws
      exact ⟨a :: as, List.forall_mem_cons.2 ⟨ha, has⟩, by
        rw [List.flatten_cons, heq, List.flatMap_cons]⟩
  · rintro ⟨as, has, rfl⟩
    refine ⟨as.map f, List.flatMap_def .., fun w hw ↦ ?_⟩
    obtain ⟨a, ha, rfl⟩ := List.mem_map.1 hw
    exact (hL _).2 ⟨a, has a ha, rfl⟩

theorem mem_letters_kstar : w ∈ (letters cls)∗ ↔ ∀ c ∈ w, cls c = true := by
  rw [mem_kstar_of_image fun w ↦ mem_letters]
  simp only [List.flatMap_singleton', exists_eq_right']

/-- The words over a class, without the empty word. -/
def words (cls : S → Bool) : Language S := {w | w ≠ [] ∧ ∀ c ∈ w, cls c = true}

theorem letters_mul_kstar (cls : S → Bool) : letters cls * (letters cls)∗ = words cls := by
  ext w
  simp only [Language.mem_mul, mem_letters_kstar]
  constructor
  · rintro ⟨-, ⟨c, hc, rfl⟩, cs, hcs, rfl⟩
    exact ⟨List.cons_ne_nil c cs, List.forall_mem_cons.2 ⟨hc, hcs⟩⟩
  · rintro ⟨hne, h⟩
    obtain ⟨c, cs, rfl⟩ := List.exists_cons_of_ne_nil hne
    obtain ⟨hc, hcs⟩ := List.forall_mem_cons.1 h
    exact ⟨[c], ⟨c, hc, rfl⟩, cs, hcs, rfl⟩

/-- At least one symbol of a class. -/
theorem reads_plus_one (cls : S → Bool) : Reads (plus (one cls)) (words cls) :=
  letters_mul_kstar cls ▸ (reads_one cls).seq (reads_one cls).star

end Patterns
