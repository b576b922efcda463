import CounterTerrorist.Core.Json
import CounterTerrorist.Core.JsonText
import Mathlib.Data.List.Nodup
import Mathlib.Data.List.Sort

/-!
# The canonical form of a value

`canonicalStringify` gives the text that is hashed and signed. It is `JSON.stringify`, except that
the keys of objects are sorted.

## What is not JSON

`JSON.stringify` returns `undefined` for `undefined` and for functions. As an element of an array
that becomes the empty text, as a property the text `undefined`. `canonicalAt` returns `none` for
these two.

## Limits

`canonicalStringify` throws on values that are too deep or too broad. `JsTree.text` is the text
without limits, and what `canonicalStringify` returns, if it does (`canonicalAt_eq`).

## Faithfulness

Values without `undefined` and functions, with distinct keys in every object, have the same text
exactly if they are equal up to the order of keys. From left to right, the text can be read back in
front of any separator (`text_readable`); from right to left, sorting forgets the order
(`sortEntries_of_perm`).
-/

namespace Core

open Printing List Option JsTree

/-! ### Canonical text -/

/-- Entries in the order of their keys. -/
def sortEntries {β : Type*} (entries : List (String × β)) : List (String × β) :=
  entries.insertionSort fun e f ↦ KeyLe e.1 f.1

/-- Texts in brackets, with commas in between. -/
def bracketed (opening closing : Char) (texts : List (List Char)) : List Char :=
  opening :: ([','].intercalate texts ++ [closing])

/-- A key and its value. -/
def fieldText (e : String × List Char) : List Char := quote e.1 ++ ':' :: e.2

/-- `canonicalStringify` with the number of levels that are still allowed. -/
def canonicalAt (numbers : NumberText) : ℕ → JsTree → Except String (Option (List Char))
  | 0, _ => .error "Serialization Error: Max recursion depth (10) exceeded."
  | _ + 1, .undefined => .ok none
  | _ + 1, .func => .ok none
  | _ + 1, .null => .ok (some "null".toList)
  | _ + 1, .bool b => .ok (some (if b then "true".toList else "false".toList))
  | _ + 1, .num n => .ok (some (numbers.text n))
  | _ + 1, .str s => .ok (some (quote s))
  | levels + 1, .arr items =>
    if items.length > 100 then .error "Serialization Error: Max array breadth (100) exceeded."
    else do
      let texts ← items.mapM (canonicalAt numbers levels)
      .ok (some (bracketed '\x5b' '\x5d' (texts.map (·.getD []))))
  | levels + 1, .obj entries =>
    let sorted := sortEntries entries
    if sorted.length > 100 then .error "Serialization Error: Max object breadth (100) exceeded."
    else do
      let texts ← sorted.mapM fun e ↦ do
        let value ← canonicalAt numbers levels e.2
        .ok (fieldText (e.1, value.getD "undefined".toList))
      .ok (some (bracketed '\x7b' '\x7d' texts))

/-- `canonicalStringify`; `none` is `undefined`. -/
def canonicalStringify (numbers : NumberText) (v : JsTree) : Except String (Option String) :=
  (canonicalAt numbers 11 v).map (Option.map String.ofList)

namespace JsTree

mutual

/-- The canonical text of a value, however deep and broad it is. -/
def text (numbers : NumberText) : JsTree → Option (List Char)
  | undefined => none
  | func => none
  | null => some "null".toList
  | bool b => some (if b then "true".toList else "false".toList)
  | num n => some (numbers.text n)
  | str s => some (quote s)
  | arr items => some (bracketed '\x5b' '\x5d' (itemTexts numbers items))
  | obj entries =>
    some (bracketed '\x7b' '\x7d' ((sortEntries (entryTexts numbers entries)).map fieldText))

/-- The texts of the elements of an array. -/
def itemTexts (numbers : NumberText) : List JsTree → List (List Char)
  | [] => []
  | v :: vs => (text numbers v).getD [] :: itemTexts numbers vs

/-- The texts of the values of an object, with their keys. -/
def entryTexts (numbers : NumberText) : List (String × JsTree) → List (String × List Char)
  | [] => []
  | (k, v) :: es => (k, (text numbers v).getD "undefined".toList) :: entryTexts numbers es

end

/-- The text of an element. -/
def itemText (numbers : NumberText) (v : JsTree) : List Char := (text numbers v).getD []

/-- The text of a value, with its key. -/
def entryText (numbers : NumberText) (e : String × JsTree) : String × List Char :=
  (e.1, (text numbers e.2).getD "undefined".toList)

variable {numbers : NumberText}

theorem itemTexts_eq (items : List JsTree) :
    itemTexts numbers items = items.map (itemText numbers) := by
  induction items with
  | nil => rfl
  | cons v vs ih =>
    rw [itemTexts, ih]
    rfl

theorem entryTexts_eq (entries : List (String × JsTree)) :
    entryTexts numbers entries = entries.map (entryText numbers) := by
  induction entries with
  | nil => rfl
  | cons e es ih =>
    rw [entryTexts, ih]
    rfl

/-- Induction on trees. -/
@[elab_as_elim]
theorem induct {P : JsTree → Prop} (undefined : P .undefined) (null : P .null)
    (bool : ∀ b, P (.bool b)) (num : ∀ n, P (.num n)) (str : ∀ s, P (.str s)) (func : P .func)
    (arr : ∀ items, (∀ v ∈ items, P v) → P (.arr items))
    (obj : ∀ entries, (∀ e ∈ entries, P e.2) → P (.obj entries)) (v : JsTree) : P v :=
  @JsTree.rec P (fun items ↦ ∀ v ∈ items, P v) (fun entries ↦ ∀ e ∈ entries, P e.2)
    (fun e ↦ P e.2) undefined null bool num str func arr obj (forall_mem_nil _)
    (fun _ _ hv hvs ↦ forall_mem_cons.2 ⟨hv, hvs⟩) (forall_mem_nil _)
    (fun _ _ he hes ↦ forall_mem_cons.2 ⟨he, hes⟩) (fun _ _ hv ↦ hv) v

end JsTree

/-! ### Sorting -/

section Sorting

variable {β γ : Type*}

/-- Sorting loses nothing. -/
theorem sortEntries_perm (entries : List (String × β)) : (sortEntries entries).Perm entries :=
  perm_insertionSort _ _

/-- What happens to the values does not matter. -/
theorem sortEntries_map {f : String × β → String × γ} (hf : ∀ e, (f e).1 = e.1)
    (entries : List (String × β)) : sortEntries (entries.map f) = (sortEntries entries).map f := by
  refine (map_insertionSort _ _ f entries fun e _ e' _ ↦ ?_).symm
  rw [hf, hf]

/-- Sorting forgets the order, if no two keys are equal. -/
theorem sortEntries_of_perm {es fs : List (String × β)} (hperm : es.Perm fs)
    (hnodup : (es.map Prod.fst).Nodup) : sortEntries es = sortEntries fs := by
  have : Std.Total fun e f : String × β ↦ KeyLe e.1 f.1 := ⟨fun e f ↦ KeyLe.total e.1 f.1⟩
  have : IsTrans (String × β) fun e f ↦ KeyLe e.1 f.1 := ⟨fun _ _ _ ↦ KeyLe.trans⟩
  refine Perm.eq_of_pairwise (fun e f he hf hef hfe ↦ ?_)
    (pairwise_insertionSort _ es) (pairwise_insertionSort _ fs)
    ((sortEntries_perm es).trans (hperm.trans (sortEntries_perm fs).symm))
  have he : e ∈ es := (sortEntries_perm es).mem_iff.1 he
  have hf : f ∈ es := hperm.mem_iff.2 ((sortEntries_perm fs).mem_iff.1 hf)
  exact inj_on_of_nodup_map hnodup he hf (hef.antisymm hfe)

end Sorting

/-! ### Limits -/

section Limits

variable {ε α β : Type*} {f : α → Except ε β} {xs : List α}

/-- Both parts return. -/
theorem bind_eq_ok {ε α γ : Type} {x : Except ε α} {g : α → Except ε γ} {c : γ} :
    (x >>= g) = .ok c ↔ ∃ a, x = .ok a ∧ g a = .ok c := by
  cases x with
  | error e =>
    constructor
    · rintro ⟨⟩
    · rintro ⟨a, ⟨⟩, -⟩
  | ok a =>
    constructor
    · exact fun h ↦ ⟨a, rfl, h⟩
    · rintro ⟨b, ⟨⟩, h⟩
      exact h

/-- A loop in which nothing throws. -/
theorem mapM_eq_ok {g : α → β} (h : ∀ x ∈ xs, f x = .ok (g x)) : xs.mapM f = .ok (xs.map g) := by
  induction xs with
  | nil => rfl
  | cons x xs ih =>
    obtain ⟨hx, hxs⟩ := forall_mem_cons.1 h
    rw [mapM_cons, hx, ih hxs]
    rfl

/-- One element that throws is enough. -/
theorem mapM_eq_error {x : α} {e : ε} (hx : x ∈ xs) (he : f x = .error e) :
    ∃ e, xs.mapM f = .error e := by
  induction xs with
  | nil => cases hx
  | cons y ys ih =>
    rw [mapM_cons]
    cases hy : f y with
    | error e => exact ⟨e, rfl⟩
    | ok z =>
      rcases mem_cons.1 hx with rfl | hx
      · rw [he] at hy
        cases hy
      · obtain ⟨e, he⟩ := ih hx
        exact ⟨e, by rw [he]; rfl⟩

end Limits

variable {numbers : NumberText}

variable {v u : JsTree} {r r' : List Char} {es fs : List (String × JsTree)}

variable {levels : ℕ}

/-- Within the limits, `canonicalStringify` returns the text. -/
theorem canonicalAt_eq (h : canonicalStringifyReturns levels v = true) :
    canonicalAt numbers levels v = .ok (v.text numbers) := by
  induction levels generalizing v with
  | zero => cases h
  | succ levels ih =>
    cases v with
    | undefined | func | null | bool | num | str => rfl
    | arr items =>
      rw [canonicalStringifyReturns, Bool.and_eq_true, decide_eq_true_eq, List.all_eq_true] at h
      have hitems := mapM_eq_ok (f := canonicalAt numbers levels) fun v hv ↦ ih (h.2 v hv)
      rw [canonicalAt, if_neg (Nat.not_lt.2 h.1), hitems, text, itemTexts_eq]
      show Except.ok (some (bracketed _ _ (List.map _ (List.map _ items)))) = _
      rw [List.map_map]
      rfl
    | obj entries =>
      rw [canonicalStringifyReturns, Bool.and_eq_true, decide_eq_true_eq, List.all_eq_true] at h
      have hents : (sortEntries entries).mapM (fun e ↦ do
          let value ← canonicalAt numbers levels e.2
          .ok (fieldText (e.1, value.getD "undefined".toList))) =
            .ok ((sortEntries entries).map fun e ↦ fieldText (entryText numbers e)) := by
        refine mapM_eq_ok fun e he ↦ ?_
        rw [ih (h.2 e ((sortEntries_perm entries).mem_iff.1 he))]
        rfl
      have hlen : ¬ (sortEntries entries).length > 100 := by
        rw [(sortEntries_perm entries).length_eq]
        exact Nat.not_lt.2 h.1
      rw [canonicalAt, if_neg hlen, hents, text, entryTexts_eq,
        sortEntries_map (f := entryText numbers) fun _ ↦ rfl, List.map_map]
      rfl

variable (numbers) in
/-- Outside the limits it throws. -/
theorem canonicalAt_eq_error (h : canonicalStringifyReturns levels v = false) :
    ∃ message, canonicalAt numbers levels v = .error message := by
  induction levels generalizing v with
  | zero => exact ⟨_, rfl⟩
  | succ levels ih =>
    cases v with
    | undefined | func | null | bool | num | str => cases h
    | arr items =>
      rw [canonicalAt]
      split
      · exact ⟨_, rfl⟩
      · rename_i hlen
        rw [canonicalStringifyReturns, decide_eq_true (Nat.not_lt.1 hlen), Bool.true_and,
          List.all_eq_false] at h
        obtain ⟨v, hv, hthrows⟩ := h
        obtain ⟨message, hmsg⟩ := ih (Bool.eq_false_iff.2 hthrows)
        obtain ⟨message, hmsg⟩ := mapM_eq_error hv hmsg
        rw [hmsg]
        exact ⟨message, rfl⟩
    | obj entries =>
      rw [canonicalAt]
      split
      · exact ⟨_, rfl⟩
      · rename_i hlen
        rw [(sortEntries_perm entries).length_eq] at hlen
        rw [canonicalStringifyReturns, decide_eq_true (Nat.not_lt.1 hlen), Bool.true_and,
          List.all_eq_false] at h
        obtain ⟨e, he, hthrows⟩ := h
        obtain ⟨message, hmsg⟩ := ih (Bool.eq_false_iff.2 hthrows)
        obtain ⟨message, hmsg⟩ := mapM_eq_error (f := fun e ↦ do
            let value ← canonicalAt numbers levels e.2
            .ok (fieldText (e.1, value.getD "undefined".toList)))
          ((sortEntries_perm entries).mem_iff.2 he) (by rw [hmsg]; rfl)
        rw [hmsg]
        exact ⟨message, rfl⟩

/-! ### JSON values -/

namespace JsTree

mutual

/-- A test holds at every node of a tree. -/
def every (p : JsTree → Bool) : JsTree → Bool
  | arr items => p (arr items) && everyItem p items
  | obj entries => p (obj entries) && everyEntry p entries
  | v => p v

/-- It holds in every element. -/
def everyItem (p : JsTree → Bool) : List JsTree → Bool
  | [] => true
  | v :: vs => every p v && everyItem p vs

/-- It holds in every value. -/
def everyEntry (p : JsTree → Bool) : List (String × JsTree) → Bool
  | [] => true
  | (_, v) :: es => every p v && everyEntry p es

end

/-- No `undefined` and no function. -/
def defined : JsTree → Bool := every fun
  | undefined | func => false
  | _ => true

/-- No object has a key twice. -/
def distinctKeys : JsTree → Bool := every fun
  | obj entries => decide (entries.map Prod.fst).Nodup
  | _ => true

variable {p : JsTree → Bool} {items : List JsTree} {entries : List (String × JsTree)}

theorem everyItem_eq_true : everyItem p items = true ↔ ∀ v ∈ items, every p v = true := by
  induction items with
  | nil => exact ⟨fun _ ↦ forall_mem_nil _, fun _ ↦ rfl⟩
  | cons v vs ih => rw [everyItem, Bool.and_eq_true, ih, forall_mem_cons]

theorem everyEntry_eq_true : everyEntry p entries = true ↔ ∀ e ∈ entries, every p e.2 = true := by
  induction entries with
  | nil => exact ⟨fun _ ↦ forall_mem_nil _, fun _ ↦ rfl⟩
  | cons e es ih => rw [everyEntry, Bool.and_eq_true, ih, forall_mem_cons]

@[simp] theorem defined_undefined : undefined.defined = false := rfl

@[simp] theorem defined_bool (b : Bool) : (bool b).defined = true := rfl

@[simp] theorem defined_num (n : ℤ) : (num n).defined = true := rfl

@[simp] theorem defined_str (s : String) : (str s).defined = true := rfl

@[simp] theorem defined_arr : (arr items).defined = true ↔ ∀ v ∈ items, v.defined = true := by
  rw [defined, every, Bool.true_and, everyItem_eq_true]

@[simp] theorem defined_obj : (obj entries).defined = true ↔ ∀ e ∈ entries, e.2.defined = true := by
  rw [defined, every, Bool.true_and, everyEntry_eq_true]

@[simp] theorem distinctKeys_arr :
    (arr items).distinctKeys = true ↔ ∀ v ∈ items, v.distinctKeys = true := by
  rw [distinctKeys, every, Bool.true_and, everyItem_eq_true]

@[simp] theorem distinctKeys_obj : (obj entries).distinctKeys = true ↔
      (entries.map Prod.fst).Nodup ∧ ∀ e ∈ entries, e.2.distinctKeys = true := by
  rw [distinctKeys, every, Bool.and_eq_true, decide_eq_true_eq, everyEntry_eq_true]

end JsTree

/-- Equal up to the order of the keys of objects. -/
inductive SameJson : JsTree → JsTree → Prop
  | null : SameJson .null .null
  | bool (b : Bool) : SameJson (.bool b) (.bool b)
  | num (n : ℤ) : SameJson (.num n) (.num n)
  | str (s : String) : SameJson (.str s) (.str s)
  | arr {xs ys : List JsTree} (h : List.Forall₂ SameJson xs ys) : SameJson (.arr xs) (.arr ys)
  /-- In suitable orders there are the same keys, and at each of them the same value. -/
  | obj {es es' fs fs' : List (String × JsTree)} (hes : es.Perm es') (hfs : fs.Perm fs')
      (hkeys : es'.map Prod.fst = fs'.map Prod.fst)
      (hvalues : List.Forall₂ SameJson (es'.map Prod.snd) (fs'.map Prod.snd)) :
      SameJson (.obj es) (.obj fs)

/-! ### Reading a text back -/

/-- What a text begins with. -/
inductive Shape
  | null
  | bool
  | num
  | str
  | arr
  | obj

/-- What kind of text begins with a character. -/
def shapeOfChar (c : Char) : Shape :=
  if c = 'n' then .null
  else if c = 't' ∨ c = 'f' then .bool
  else if c = '\x22' then .str
  else if c = '\x5b' then .arr
  else if c = '\x7b' then .obj
  else .num

/-- What kind of value it is. -/
def JsTree.shape : JsTree → Shape
  | bool _ => .bool
  | num _ => .num
  | str _ => .str
  | arr _ => .arr
  | obj _ => .obj
  | _ => .null

theorem shapeOfChar_of_isNumeric {c : Char} (h : isNumeric c = true) : shapeOfChar c = .num := by
  have hne {d : Char} (hd : isNumeric d = false) : c ≠ d := by
    rintro rfl
    rw [hd] at h
    cases h
  rw [shapeOfChar, if_neg (hne rfl), if_neg (not_or.2 ⟨hne rfl, hne rfl⟩), if_neg (hne rfl),
    if_neg (hne rfl), if_neg (hne rfl)]

variable (numbers) in
/-- The first character says what kind of value comes, and it is no closing bracket. -/
theorem text_cons (hv : v.defined = true) :
    ∃ c cs, v.text numbers = some (c :: cs) ∧ shapeOfChar c = v.shape ∧
      c ≠ '\x5d' ∧ c ≠ '\x7d' := by
  cases v with
  | undefined | func => cases hv
  | null | str s | arr items | obj entries => exact ⟨_, _, rfl, rfl, by decide, by decide⟩
  | bool b => cases b <;> exact ⟨_, _, rfl, rfl, by decide, by decide⟩
  | num n =>
    obtain ⟨c, cs, hcs⟩ := exists_cons_of_ne_nil (numbers.ne_nil n)
    have hc : isNumeric c = true := numbers.numeric n c (by rw [hcs]; exact mem_cons_self)
    refine ⟨c, cs, congrArg some hcs, shapeOfChar_of_isNumeric hc, ?_, ?_⟩ <;>
    · rintro rfl
      cases hc

/-- What may follow a value: nothing, a comma, or a closing bracket. -/
def Ends (r : List Char) : Prop := ∀ c ∈ r.head?, c = ',' ∨ c = '\x5d' ∨ c = '\x7d'

theorem Ends.of_stops {closing : Char} (hclosing : closing = '\x5d' ∨ closing = '\x7d')
    (h : Stops ',' closing r) : Ends r := by
  obtain ⟨rest, rfl | rfl⟩ := h
  · intro c hc
    exact .inl (some.inj hc).symm
  · intro c hc
    obtain rfl : closing = c := some.inj hc
    exact .inr hclosing

theorem Ends.nil : Ends [] := by
  intro c hc
  cases hc

theorem not_isNumeric_of_ends (h : Ends r) : ∀ c ∈ r.head?, ¬ isNumeric c = true := by
  intro c hc
  obtain rfl | rfl | rfl := h c hc <;> decide

/-- What follows a bracket. -/
theorem bracketed_append (opening closing : Char) (texts : List (List Char)) (r : List Char) :
    bracketed opening closing texts ++ r =
      opening :: ([','].intercalate texts ++ closing :: r) := by
  rw [bracketed, cons_append, append_assoc]
  rfl

theorem fieldText_cons (e : String × List Char) : ∃ c cs, fieldText e = c :: cs ∧ c ≠ '\x7d' :=
  ⟨'\x22', _, rfl, by decide⟩

theorem fieldText_append (e : String × List Char) (r : List Char) :
    fieldText e ++ r = quote e.1 ++ ':' :: (e.2 ++ r) := by
  rw [fieldText, append_assoc, cons_append]

namespace JsTree

/-- What is JSON has a text. -/
theorem text_eq_some (hv : v.defined = true) : v.text numbers = some (v.itemText numbers) := by
  obtain ⟨c, cs, hcs, -⟩ := text_cons numbers hv
  rw [itemText, hcs, getD_some]

theorem entryText_eq {e : String × JsTree} (he : e.2.defined = true) :
    entryText numbers e = (e.1, e.2.itemText numbers) := by
  rw [entryText, text_eq_some he, getD_some]

theorem itemText_obj (entries : List (String × JsTree)) :
    (obj entries).itemText numbers = bracketed '\x7b' '\x7d'
      ((sortEntries entries).map fun e ↦ fieldText (entryText numbers e)) := by
  rw [itemText, text, entryTexts_eq, sortEntries_map (f := entryText numbers) fun _ ↦ rfl,
    List.map_map]
  rfl

theorem itemText_arr (items : List JsTree) :
    (arr items).itemText numbers = bracketed '\x5b' '\x5d' (items.map (itemText numbers)) := by
  rw [itemText, text, getD_some, itemTexts_eq]

end JsTree

/-- Texts that begin alike are texts of the same kind of value. -/
theorem shape_eq (hu : u.defined = true) (hv : v.defined = true)
    (h : u.itemText numbers ++ r = v.itemText numbers ++ r') : u.shape = v.shape := by
  obtain ⟨c, cs, hcs, hc, -⟩ := text_cons numbers hu
  obtain ⟨d, ds, hds, hd, -⟩ := text_cons numbers hv
  rw [itemText, itemText, hcs, hds] at h
  rw [← hc, ← hd, (List.cons.inj h).1]

/-- Arrays can be read back if their elements can. -/
theorem arr_readable {xs ys : List JsTree} {r r' : List Char} (hxs : ∀ x ∈ xs, x.defined = true)
    (hys : ∀ y ∈ ys, y.defined = true)
    (hread : ∀ x ∈ xs, ∀ y ∈ ys, ∀ {t t'}, Ends t → Ends t' →
      x.itemText numbers ++ t = y.itemText numbers ++ t' → SameJson x y ∧ t = t')
    (h : (arr xs).itemText numbers ++ r = (arr ys).itemText numbers ++ r') :
    SameJson (.arr xs) (.arr ys) ∧ r = r' := by
  have hstart {xs : List JsTree} (hxs : ∀ x ∈ xs, x.defined = true) :
      ∀ x ∈ xs, ∃ c cs, x.itemText numbers = c :: cs ∧ c ≠ '\x5d' := by
    intro x hx
    obtain ⟨c, cs, hcs, -, hc, -⟩ := text_cons numbers (hxs x hx)
    exact ⟨c, cs, by rw [itemText, hcs, getD_some], hc⟩
  rw [itemText_arr, itemText_arr, bracketed_append, bracketed_append] at h
  have hlist := (List.cons.inj h).2
  obtain ⟨hall, hrest⟩ := forall₂_of_intercalate (by decide)
    (eq_nil_iff_of_intercalate (hstart hxs) (hstart hys) hlist)
    (fun x y hxy t t' ht ht' ↦ hread x (of_mem_zip hxy).1 y (of_mem_zip hxy).2
      (.of_stops (.inl rfl) ht) (.of_stops (.inl rfl) ht'))
    hlist
  exact ⟨.arr hall, hrest⟩

/-- Objects can be read back if their values can. -/
theorem obj_readable {es fs : List (String × JsTree)} {r r' : List Char}
    (hes : ∀ e ∈ es, e.2.defined = true) (hfs : ∀ f ∈ fs, f.2.defined = true)
    (hread : ∀ e ∈ es, ∀ f ∈ fs, ∀ {t t'}, Ends t → Ends t' →
      e.2.itemText numbers ++ t = f.2.itemText numbers ++ t' → SameJson e.2 f.2 ∧ t = t')
    (h : (obj es).itemText numbers ++ r = (obj fs).itemText numbers ++ r') :
    SameJson (.obj es) (.obj fs) ∧ r = r' := by
  rw [itemText_obj, itemText_obj, bracketed_append, bracketed_append] at h
  have hlist := (List.cons.inj h).2
  have hfield : ∀ e ∈ sortEntries es, ∀ f ∈ sortEntries fs, ∀ {t t'}, Stops ',' '\x7d' t →
      Stops ',' '\x7d' t' → fieldText (entryText numbers e) ++ t =
        fieldText (entryText numbers f) ++ t' →
      (e.1 = f.1 ∧ SameJson e.2 f.2) ∧ t = t' := by
    intro e he f hf t t' ht ht' heq
    have he := (sortEntries_perm es).mem_iff.1 he
    have hf := (sortEntries_perm fs).mem_iff.1 hf
    rw [entryText_eq (hes e he), entryText_eq (hfs f hf), fieldText_append, fieldText_append] at heq
    obtain ⟨hkey, hvalue⟩ := quote_append_inj heq
    obtain ⟨hsame, hrest⟩ := hread e he f hf (.of_stops (.inr rfl) ht) (.of_stops (.inr rfl) ht')
      (List.cons.inj hvalue).2
    exact ⟨⟨hkey, hsame⟩, hrest⟩
  obtain ⟨hall, hrest⟩ := forall₂_of_intercalate (by decide)
    (eq_nil_iff_of_intercalate (fun _ _ ↦ fieldText_cons _) (fun _ _ ↦ fieldText_cons _) hlist)
    (fun e f hef ↦ hfield e (of_mem_zip hef).1 f (of_mem_zip hef).2) hlist
  refine ⟨.obj (sortEntries_perm es).symm (sortEntries_perm fs).symm ?_ ?_, hrest⟩
  · have hkeys := hall.imp fun _ _ h ↦ h.1
    rwa [← forall₂_map_right_iff (f := Prod.fst), ← forall₂_map_left_iff (f := Prod.fst),
      forall₂_eq_eq_eq] at hkeys
  · have hvalues := hall.imp fun _ _ h ↦ h.2
    rwa [← forall₂_map_right_iff (f := Prod.snd), ← forall₂_map_left_iff (f := Prod.snd)] at hvalues

/-- The text of a value can be read back, up to the order of keys, in front of whatever may follow a
value. -/
theorem text_readable (hu : u.defined = true) (hv : v.defined = true) (hr : Ends r)
    (hr' : Ends r') (h : u.itemText numbers ++ r = v.itemText numbers ++ r') :
    SameJson u v ∧ r = r' := by
  have hshape := shape_eq hu hv h
  induction u using induct generalizing v r r' with
  | undefined | func => cases hu
  | null =>
    cases v with
    | undefined | func => cases hv
    | null => exact ⟨.null, append_cancel_left h⟩
    | _ => cases hshape
  | bool b =>
    cases v with
    | bool b' =>
      have hfirst := congrArg List.head? h
      cases b <;> cases b'
      case false.false | true.true => exact ⟨.bool _, append_cancel_left h⟩
      all_goals cases hfirst
    | _ => cases hshape
  | num n =>
    cases v with
    | num m =>
      obtain ⟨htext, hrest⟩ := append_inj_of_stop (P := fun c ↦ isNumeric c = true)
        (numbers.numeric n) (numbers.numeric m) (not_isNumeric_of_ends hr)
        (not_isNumeric_of_ends hr') h
      obtain rfl := numbers.injective htext
      exact ⟨.num n, hrest⟩
    | _ => cases hshape
  | str s =>
    cases v with
    | str s' =>
      obtain ⟨rfl, hrest⟩ := quote_append_inj h
      exact ⟨.str s, hrest⟩
    | _ => cases hshape
  | arr xs ih =>
    cases v with
    | arr ys =>
      rw [defined_arr] at hu hv
      refine arr_readable hu hv (fun x hx y hy t t' ht ht' heq ↦ ?_) h
      exact ih x hx (hu x hx) (hv y hy) ht ht' heq (shape_eq (hu x hx) (hv y hy) heq)
    | _ => cases hshape
  | obj es ih =>
    cases v with
    | obj fs =>
      rw [defined_obj] at hu hv
      refine obj_readable hu hv (fun e he f hf t t' ht ht' heq ↦ ?_) h
      exact ih e he (hu e he) (hv f hf) ht ht' heq (shape_eq (hu e he) (hv f hf) heq)
    | _ => cases hshape

/-! ### Sorting forgets the order of keys -/

theorem map_eq_of_forall₂ {α β γ : Type*} {R : α → β → Prop} {f : α → γ} {g : β → γ} {xs : List α}
    {ys : List β} (hall : Forall₂ R xs ys) (h : ∀ x ∈ xs, ∀ y, R x y → f x = g y) :
    xs.map f = ys.map g := by
  induction hall with
  | nil => rfl
  | cons hxy _ ih =>
    obtain ⟨hx, hxs⟩ := forall_mem_cons.1 h
    rw [map_cons, map_cons, hx _ hxy, ih hxs]

/-- The same keys, and the same texts of values. -/
theorem entryTexts_eq_of_forall₂ (hkeys : es.map Prod.fst = fs.map Prod.fst)
    (hvalues : Forall₂ SameJson (es.map Prod.snd) (fs.map Prod.snd))
    (h : ∀ e ∈ es, ∀ {v}, SameJson e.2 v → e.2.text numbers = v.text numbers) :
    es.map (entryText numbers) = fs.map (entryText numbers) := by
  induction es generalizing fs with
  | nil => rw [map_eq_nil_iff.1 hkeys.symm]
  | cons e es ih =>
    cases fs with
    | nil => cases hkeys
    | cons f fs =>
      obtain ⟨hkey, hkeys⟩ := List.cons.inj hkeys
      obtain ⟨hvalue, hvalues⟩ := forall₂_cons.1 hvalues
      obtain ⟨he, hes⟩ := forall_mem_cons.1 h
      rw [map_cons, map_cons, ih hkeys hvalues hes, entryText, entryText, hkey, he hvalue]

/-- Values that are equal up to the order of keys have the same text. -/
theorem text_eq_of_sameJson (hu : u.distinctKeys = true) (h : SameJson u v) :
    u.text numbers = v.text numbers := by
  induction u using induct generalizing v with
  | undefined | func => cases h
  | null | bool | num | str =>
    cases h
    rfl
  | arr xs ih =>
    rw [distinctKeys_arr] at hu
    cases h with
    | @arr _ ys hall =>
      have htexts := map_eq_of_forall₂ (f := itemText numbers) (g := itemText numbers)
        hall fun x hx y hxy ↦ by rw [itemText, ih x hx (hu x hx) hxy, itemText]
      rw [text, text, itemTexts_eq, itemTexts_eq, htexts]
  | obj es ih =>
    rw [distinctKeys_obj] at hu
    obtain ⟨hnodup, hu⟩ := hu
    cases h with
    | @obj _ es' fs fs' hes hfs hkeys hvalues =>
      have htexts : es'.map (entryText numbers) = fs'.map (entryText numbers) :=
        entryTexts_eq_of_forall₂ hkeys hvalues fun e he v hv ↦
          ih e (hes.mem_iff.2 he) (hu e (hes.mem_iff.2 he)) hv
      have hperm : (es.map (entryText numbers)).Perm (fs.map (entryText numbers)) :=
        calc es.map (entryText numbers)
          _ |>.Perm (es'.map (entryText numbers)) := hes.map _
          _ |>.Perm (fs.map (entryText numbers)) := htexts ▸ (hfs.map _).symm
      have hkeys : (es.map (entryText numbers)).map Prod.fst = es.map Prod.fst := by
        rw [List.map_map]
        rfl
      rw [text, text, entryTexts_eq, entryTexts_eq,
        sortEntries_of_perm hperm (hkeys ▸ hnodup)]

/-- For all values without `undefined` and functions, with distinct keys in the objects of one of
them and within the limits: the texts are equal exactly if the values are, up to the order of
keys. -/
theorem canonicalStringify_eq_iff (numbers : NumberText) {u v : JsTree} (hu : u.defined = true)
    (hv : v.defined = true) (hkeys : u.distinctKeys = true)
    (hureturns : canonicalStringifyReturns 11 u = true)
    (hvreturns : canonicalStringifyReturns 11 v = true) :
    canonicalStringify numbers u = canonicalStringify numbers v ↔ SameJson u v := by
  rw [canonicalStringify, canonicalStringify, canonicalAt_eq hureturns, canonicalAt_eq hvreturns]
  constructor
  · intro h
    rw [text_eq_some hu, text_eq_some hv] at h
    have htext := String.ofList_injective (some.inj (Except.ok.inj h))
    exact (text_readable hu hv .nil .nil (congrArg (· ++ []) htext)).1
  · intro h
    rw [text_eq_of_sameJson hkeys h]

/-- A login and its origin. -/
def loginEntries : List (String × JsTree) :=
  [("user", .str "ann"), ("ports", .arr [.num 22, .null]), ("ok", .bool true)]

/-- The entries of an object and the same entries in reverse have the same text. -/
theorem canonicalStringify_eq_iff_reversed :
    canonicalStringify decimal (.obj loginEntries) =
      canonicalStringify decimal (.obj loginEntries.reverse) := by
  refine (canonicalStringify_eq_iff decimal rfl rfl rfl rfl rfl).2 ?_
  refine .obj (.refl _) (reverse_perm _) rfl ?_
  exact .cons (.str _) (.cons (.arr (.cons (.num _) (.cons .null .nil))) (.cons (.bool _) .nil))

end Core
