import Mathlib.Data.List.Basic
import Mathlib.Data.List.Infix
import Mathlib.Data.List.TakeWhile

/-!
# Looking for a field in a text

A field is a key followed by a run of symbols of one kind, at least one of them, and as many as
there are. `search` finds the first field with a given key, wherever in the text it stands. It is
what a regular expression such as `key([class]+)` finds.

A text that was put together from parts can be searched part by part if a separator stands between
them that belongs neither to the key nor to the class (`search_append`).
-/

namespace Scanning

open List Option

variable {S : Type*} [DecidableEq S] {key text : List S} {cls : S → Bool} {sep c : S}

/-- The field at the start of a text. -/
def matchAt (key : List S) (cls : S → Bool) (text : List S) : Option (List S) :=
  if key <+: text then
    let run := (text.drop key.length).takeWhile cls
    if run = [] then none else some run
  else none

/-- The first field in a text. -/
def search (key : List S) (cls : S → Bool) : List S → Option (List S)
  | [] => none
  | c :: cs => (matchAt key cls (c :: cs)).or (search key cls cs)

/-! ### Where there is nothing to find -/

omit [DecidableEq S] in
/-- A key does not reach over a symbol that it does not have. -/
theorem isPrefix_append_iff {rest : List S} (hkey : sep ∉ key) :
    key <+: text ++ sep :: rest ↔ key <+: text := by
  constructor
  · intro h
    rcases prefix_or_prefix_of_prefix h (prefix_append text (sep :: rest)) with h' | h'
    · exact h'
    · -- the key is longer than the text, so it goes on with the separator
      obtain ⟨more, rfl⟩ := h'
      cases more with
      | nil => rw [append_nil]
      | cons d more =>
        have htail := (prefix_append_right_inj text).1 h
        obtain ⟨rfl, -⟩ := cons_prefix_cons.1 htail
        exact absurd (mem_append_right _ mem_cons_self) hkey
  · exact fun h ↦ h.trans (prefix_append _ _)

omit [DecidableEq S] in
/-- A run ends at a symbol that is not of its kind. -/
theorem takeWhile_append_of_stop (hcls : cls sep = false) (text rest : List S) :
    (text ++ sep :: rest).takeWhile cls = text.takeWhile cls := by
  induction text with
  | nil =>
    rw [nil_append, takeWhile_cons, hcls]
    rfl
  | cons d text ih =>
    rw [cons_append, takeWhile_cons, takeWhile_cons, ih]

section

variable (hkey : sep ∉ key) (hcls : cls sep = false)
include hkey hcls

theorem matchAt_append (text rest : List S) :
    matchAt key cls (text ++ sep :: rest) = matchAt key cls text := by
  rw [matchAt, matchAt]
  by_cases hpre : key <+: text
  · rw [if_pos hpre, if_pos ((isPrefix_append_iff hkey).2 hpre),
      drop_append_of_le_length hpre.length_le, takeWhile_append_of_stop hcls]
  · rw [if_neg hpre, if_neg (mt (isPrefix_append_iff hkey).1 hpre)]

/-- At a separator no field starts. -/
theorem search_cons_sep (rest : List S) : search key cls (sep :: rest) = search key cls rest := by
  have hnone : matchAt key cls (sep :: rest) = none := by
    refine (matchAt_append hkey hcls [] rest).trans ?_
    rw [matchAt, drop_nil]
    split <;> rfl
  rw [search, hnone, none_or]

/-- A text in parts. -/
theorem search_append (text rest : List S) :
    search key cls (text ++ sep :: rest) = (search key cls text).or (search key cls rest) := by
  induction text with
  | nil => rw [nil_append, search_cons_sep hkey hcls, search, none_or]
  | cons d text ih =>
    have hhead := matchAt_append hkey hcls (d :: text) rest
    rw [cons_append] at hhead ⊢
    rw [search, search, hhead, ih, Option.or_assoc]

end

omit [DecidableEq S] in
/-- A symbol that is neither in the key nor of the kind of the run. -/
theorem notMem_append {run : List S} (hkey : c ∉ key) (hrun : ∀ d ∈ run, cls d = true)
    (hc : cls c = false) : c ∉ key ++ run := by
  intro hmem
  rcases mem_append.1 hmem with hmem | hmem
  · exact hkey hmem
  · rw [hrun c hmem] at hc
    cases hc

/-- Without a symbol of the key there is no field. -/
theorem search_eq_none (hc : c ∈ key) (htext : c ∉ text) : search key cls text = none := by
  induction text with
  | nil => rfl
  | cons d text ih =>
    have hpre : ¬ key <+: d :: text := fun h ↦ htext (h.subset hc)
    rw [search, matchAt, if_neg hpre, none_or, ih fun hmem ↦ htext (mem_cons_of_mem _ hmem)]

/-! ### Where there is -/

/-- A field at the start, up to the end. -/
theorem search_key_append {run : List S} (hrun : run ≠ []) (hcls : ∀ d ∈ run, cls d = true) :
    search key cls (key ++ run) = some run := by
  have hmatch : matchAt key cls (key ++ run) = some run := by
    have htake : run.takeWhile cls = run := takeWhile_eq_self_iff.2 hcls
    rw [matchAt, if_pos (prefix_append key run), drop_left, htake]
    exact if_neg hrun
  obtain ⟨d, ds, hds⟩ : ∃ d ds, key ++ run = d :: ds :=
    exists_cons_of_ne_nil (append_ne_nil_of_right_ne_nil key hrun)
  rw [hds] at hmatch ⊢
  rw [search, hmatch, some_or]

/-- Nothing starts at a symbol that the key does not start with. -/
theorem search_cons_of_ne {k : S} {ks : List S} (hne : k ≠ c) (text : List S) :
    search (k :: ks) cls (c :: text) = search (k :: ks) cls text := by
  rw [search, matchAt, if_neg (fun h ↦ hne (cons_prefix_cons.1 h).1), none_or]

end Scanning
