import CounterTerrorist.Core.Canonical

/-!
# Signed in one form, sent in another

A message is signed in its canonical form and sent as `JSON.stringify` prints it. The receiver
parses what it gets and puts that into canonical form again, to check the signature.

The two serialisers agree on everything that is JSON, and on nothing else: where there is an
`undefined` or a function at any depth, the receiver gets another canonical text than the sender.
The rest of the text cannot make up for it, because it can be read back
(`defined_of_itemText_overJson`).
-/

namespace Core

open Printing List Option JsTree

variable {numbers : NumberText}

namespace JsTree

/-! ### What arrives -/

/-- An element of an array that is sent. -/
def sentItem (v : JsTree) : JsTree := v.overJson.getD null

/-- A property that is sent, if it is. -/
def sentEntry (e : String × JsTree) : Option (String × JsTree) := e.2.overJson.map (Prod.mk e.1)

theorem overJsonItems_eq (items : List JsTree) : overJsonItems items = items.map sentItem := by
  induction items with
  | nil => rfl
  | cons v vs ih =>
    rw [overJsonItems, ih]
    rfl

theorem overJsonEntries_eq (entries : List (String × JsTree)) :
    overJsonEntries entries = entries.filterMap sentEntry := by
  induction entries with
  | nil => rfl
  | cons e es ih =>
    obtain ⟨k, v⟩ := e
    rw [overJsonEntries, filterMap_cons, sentEntry, ih]
    cases v.overJson <;> rfl

/-- What is sent of an entry has its key. -/
theorem sentEntry_eq_some {e f : String × JsTree} :
    sentEntry e = some f ↔ e.1 = f.1 ∧ e.2.overJson = some f.2 := by
  obtain ⟨j, w⟩ := f
  rw [sentEntry, map_eq_some_iff]
  constructor
  · rintro ⟨w, hw, heq⟩
    cases heq
    exact ⟨rfl, hw⟩
  · rintro ⟨rfl, hw⟩
    exact ⟨w, hw, rfl⟩

variable {v : JsTree}

/-- JSON arrives as it was. -/
theorem overJson_of_defined (hv : v.defined = true) : v.overJson = some v := by
  induction v using induct with
  | undefined | func => cases hv
  | null | bool | num | str => rfl
  | arr items ih =>
    rw [defined_arr] at hv
    have hitems : items.map sentItem = items := by
      refine (map_congr_left fun v hmem ↦ ?_).trans (List.map_id' items)
      rw [sentItem, ih v hmem (hv v hmem), getD_some]
    rw [overJson, overJsonItems_eq, hitems]
  | obj entries ih =>
    rw [defined_obj] at hv
    have hents : entries.filterMap sentEntry = entries := by
      refine (filterMap_congr fun e hmem ↦ ?_).trans filterMap_some
      exact sentEntry_eq_some.2 ⟨rfl, ih e hmem (hv e hmem)⟩
    rw [overJson, overJsonEntries_eq, hents]

variable {w x : JsTree} {k : String}

/-- What arrives is not deeper or broader than what was sent. -/
theorem returns_of_overJson {levels : ℕ} (hw : v.overJson = some w)
    (h : canonicalStringifyReturns levels v = true) :
    canonicalStringifyReturns levels w = true := by
  induction levels generalizing v w with
  | zero => cases h
  | succ levels ih =>
    cases v with
    | undefined | func => cases hw
    | null | bool | num | str =>
      cases hw
      rfl
    | arr items =>
      obtain rfl := some.inj hw
      rw [canonicalStringifyReturns, Bool.and_eq_true, decide_eq_true_eq, List.all_eq_true] at h
      rw [canonicalStringifyReturns, overJsonItems_eq, Bool.and_eq_true, decide_eq_true_eq,
        List.all_eq_true, length_map, List.forall_mem_map]
      refine ⟨h.1, fun v hv ↦ ?_⟩
      cases hsent : v.overJson with
      | none =>
        -- `null` needs a level of its own, and so did what it stands for
        rw [sentItem, hsent]
        cases levels with
        | zero => cases h.2 v hv
        | succ levels => rfl
      | some w =>
        rw [sentItem, hsent]
        exact ih hsent (h.2 v hv)
    | obj entries =>
      obtain rfl := some.inj hw
      rw [canonicalStringifyReturns, Bool.and_eq_true, decide_eq_true_eq, List.all_eq_true] at h
      rw [canonicalStringifyReturns, overJsonEntries_eq, Bool.and_eq_true, decide_eq_true_eq,
        List.all_eq_true]
      refine ⟨Nat.le_trans (length_filterMap_le _ _) h.1, fun f hf ↦ ?_⟩
      obtain ⟨e, he, hsent⟩ := mem_filterMap.1 hf
      exact ih (sentEntry_eq_some.1 hsent).2 (h.2 e he)

variable (numbers) in
/-- What can be sent has a text, and so has what arrives. -/
theorem text_eq_some_of_overJson (hw : v.overJson = some w) :
    v.text numbers = some (v.itemText numbers) ∧ w.text numbers = some (w.itemText numbers) := by
  cases v <;> cases hw <;> exact ⟨rfl, rfl⟩

/-! ### Writing a property -/

/-- What stands in an object after a property has been written. -/
theorem exists_set (entries : List (String × JsTree)) (k : String) (x : JsTree) :
    ∃ es, (obj entries).set k x = obj es ∧ (∀ e, e ∈ es ↔ e ∈ entries ∧ e.1 ≠ k ∨ e = (k, x)) ∧
      ((entries.map Prod.fst).Nodup → (es.map Prod.fst).Nodup) := by
  rw [set]
  split
  · rename_i hany
    obtain ⟨old, hold, hkey⟩ := List.any_eq_true.1 hany
    refine ⟨_, rfl, fun e ↦ ?_, fun h ↦ ?_⟩
    · rw [List.mem_map]
      constructor
      · rintro ⟨f, hf, rfl⟩
        split
        · exact .inr rfl
        · exact .inl ⟨hf, fun h ↦ absurd (beq_iff_eq.2 h) ‹_›⟩
      · rintro (⟨he, hne⟩ | rfl)
        · exact ⟨e, he, by rw [if_neg (mt beq_iff_eq.1 hne)]⟩
        · exact ⟨old, hold, by rw [if_pos hkey]⟩
    · have hkeys : (entries.map fun e ↦ if e.1 == k then (k, x) else e).map Prod.fst =
          entries.map Prod.fst := by
        rw [List.map_map]
        refine map_congr_left fun e _ ↦ ?_
        rw [Function.comp_apply]
        split
        · exact (beq_iff_eq.1 ‹_›).symm
        · rfl
      rwa [hkeys]
  · rename_i hany
    have hne : ∀ e ∈ entries, e.1 ≠ k := fun e he h ↦
      hany (List.any_eq_true.2 ⟨e, he, beq_iff_eq.2 h⟩)
    refine ⟨_, rfl, fun e ↦ ?_, fun h ↦ ?_⟩
    · rw [mem_append, mem_singleton]
      exact or_congr_left ⟨fun he ↦ ⟨he, hne e he⟩, fun h ↦ h.1⟩
    · rw [map_append, nodup_append]
      refine ⟨h, nodup_singleton _, fun j hj k' hk' ↦ ?_⟩
      obtain ⟨e, he, rfl⟩ := List.mem_map.1 hj
      rw [map_singleton, mem_singleton] at hk'
      exact hk' ▸ hne e he

/-- A property that is written is the only one that changes. -/
theorem defined_set {entries : List (String × JsTree)} : ((obj entries).set k x).defined = true ↔
      (∀ e ∈ entries, e.1 ≠ k → e.2.defined = true) ∧ x.defined = true := by
  obtain ⟨es, hes, hmem, -⟩ := exists_set entries k x
  rw [hes, defined_obj]
  constructor
  · exact fun h ↦ ⟨fun e he hne ↦ h e ((hmem e).2 (.inl ⟨he, hne⟩)),
      h (k, x) ((hmem _).2 (.inr rfl))⟩
  · rintro ⟨hold, hx⟩ e he
    obtain ⟨he, hne⟩ | rfl := (hmem e).1 he
    · exact hold e he hne
    · exact hx

theorem distinctKeys_set (hv : v.distinctKeys = true) (hx : x.distinctKeys = true) :
    (v.set k x).distinctKeys = true := by
  cases v with
  | obj entries =>
    rw [distinctKeys_obj] at hv
    obtain ⟨es, hes, hmem, hnodup⟩ := exists_set entries k x
    rw [hes, distinctKeys_obj]
    refine ⟨hnodup hv.1, fun e he ↦ ?_⟩
    obtain ⟨he, -⟩ | rfl := (hmem e).1 he
    · exact hv.2 e he
    · exact hx
  | _ => exact hv

end JsTree

/-! ### Texts that agree -/

/-- The text of `null` does not begin like anything that may follow an element. -/
theorem null_append_ne {t t' : List Char} (ht : Ends t) : t ≠ itemText numbers .null ++ t' := by
  rintro rfl
  obtain h | h | h := ht 'n' rfl <;> cases h

/-- An array agrees with what arrives of it only if its elements do. -/
theorem arr_defined_of_sent {items : List JsTree} {r r' : List Char}
    (hread : ∀ v ∈ items, ∀ {w t t'}, v.overJson = some w → Ends t → Ends t' →
      v.itemText numbers ++ t = w.itemText numbers ++ t' → v.defined = true ∧ t = t')
    (h : (arr items).itemText numbers ++ r = (arr (items.map sentItem)).itemText numbers ++ r') :
    (arr items).defined = true ∧ r = r' := by
  rw [itemText_arr, itemText_arr, bracketed_append, bracketed_append] at h
  have hitem : ∀ v w, (v, w) ∈ items.zip (items.map sentItem) → ∀ {t t'},
      Stops ',' '\x5d' t → Stops ',' '\x5d' t' →
      v.itemText numbers ++ t = w.itemText numbers ++ t' → v.defined = true ∧ t = t' := by
    intro v w hvw t t' ht ht' heq
    have hends : Ends t := .of_stops (.inl rfl) ht
    obtain rfl : w = v.sentItem := by
      obtain ⟨i, hi, hpair⟩ := mem_iff_getElem.1 hvw
      rw [getElem_zip, getElem_map, Prod.mk.injEq] at hpair
      rw [← hpair.1, hpair.2]
    have hv : v ∈ items := (of_mem_zip hvw).1
    cases hsent : v.overJson with
    | none =>
      rw [sentItem, hsent] at heq
      have hempty : v.itemText numbers = [] := by cases v <;> cases hsent <;> rfl
      rw [hempty] at heq
      exact absurd heq (null_append_ne hends)
    | some w =>
      rw [sentItem, hsent] at heq
      exact hread v hv hsent hends (.of_stops (.inl rfl) ht') heq
  obtain ⟨hall, hrest⟩ := forall₂_of_intercalate (by decide) map_eq_nil_iff.symm hitem
    (List.cons.inj h).2
  refine ⟨defined_arr.2 fun v hv ↦ ?_, hrest⟩
  rw [forall₂_map_right_iff, forall₂_same] at hall
  exact hall v hv

/-- An object agrees with what arrives of it only if nothing is missing and its values agree. -/
theorem obj_defined_of_sent {entries : List (String × JsTree)} {r r' : List Char}
    (hkeys : (entries.map Prod.fst).Nodup)
    (hread : ∀ e ∈ entries, ∀ {w t t'}, e.2.overJson = some w → Ends t → Ends t' →
      e.2.itemText numbers ++ t = w.itemText numbers ++ t' → e.2.defined = true ∧ t = t')
    (h : (obj entries).itemText numbers ++ r =
      (obj (entries.filterMap sentEntry)).itemText numbers ++ r') :
    (obj entries).defined = true ∧ r = r' := by
  rw [itemText_obj, itemText_obj, bracketed_append, bracketed_append] at h
  have hlist := (List.cons.inj h).2
  have hfield : ∀ e f, (e, f) ∈ (sortEntries entries).zip
        (sortEntries (entries.filterMap sentEntry)) → ∀ {t t'},
      Stops ',' '\x7d' t → Stops ',' '\x7d' t' → fieldText (entryText numbers e) ++ t =
        fieldText (entryText numbers f) ++ t' → e.2.defined = true ∧ t = t' := by
    intro e f hef t t' ht ht' heq
    have he := (sortEntries_perm entries).mem_iff.1 (of_mem_zip hef).1
    have hf := (sortEntries_perm _).mem_iff.1 (of_mem_zip hef).2
    rw [fieldText_append, fieldText_append] at heq
    obtain ⟨hkey, hvalue⟩ := quote_append_inj heq
    -- the key says which property the text on the other side is of
    obtain ⟨e', he', hsent⟩ := mem_filterMap.1 hf
    obtain ⟨hkey', hsent⟩ := sentEntry_eq_some.1 hsent
    obtain rfl : e = e' := inj_on_of_nodup_map hkeys he he' (hkey.trans hkey'.symm)
    obtain ⟨htext, htext'⟩ := text_eq_some_of_overJson numbers hsent
    rw [entryText, entryText, htext, htext'] at hvalue
    exact hread e he hsent (.of_stops (.inr rfl) ht) (.of_stops (.inr rfl) ht')
      (List.cons.inj hvalue).2
  obtain ⟨hall, hrest⟩ := forall₂_of_intercalate (by decide)
    (eq_nil_iff_of_intercalate (fun _ _ ↦ fieldText_cons _) (fun _ _ ↦ fieldText_cons _) hlist)
    hfield hlist
  refine ⟨defined_obj.2 fun e he ↦ ?_, hrest⟩
  obtain ⟨i, hi, rfl⟩ := mem_iff_getElem.1 ((sortEntries_perm entries).mem_iff.2 he)
  exact hall.get hi (hall.length_eq ▸ hi)

/-- Whatever follows: a value that agrees with what arrives of it is JSON. -/
theorem defined_of_itemText_overJson {v w : JsTree} (hkeys : v.distinctKeys = true)
    (hw : v.overJson = some w) (hr : Ends r) (hr' : Ends r')
    (h : v.itemText numbers ++ r = w.itemText numbers ++ r') : v.defined = true ∧ r = r' := by
  induction v using induct generalizing w r r' with
  | undefined | func => cases hw
  | null | bool | num | str =>
    cases hw
    exact ⟨rfl, append_cancel_left h⟩
  | arr items ih =>
    obtain rfl := some.inj hw
    rw [distinctKeys_arr] at hkeys
    rw [overJsonItems_eq] at h
    exact arr_defined_of_sent (fun v hv _ _ _ hw ↦ ih v hv (hkeys v hv) hw) h
  | obj entries ih =>
    obtain rfl := some.inj hw
    rw [distinctKeys_obj] at hkeys
    rw [overJsonEntries_eq] at h
    exact obj_defined_of_sent hkeys.1 (fun e he _ _ _ hw ↦ ih e he (hkeys.2 e he) hw) h

/-- The receiver has the text that the sender signed exactly if the message is JSON. -/
theorem canonicalStringify_overJson {v w : JsTree} {signed : Option String}
    (hkeys : v.distinctKeys = true) (hw : v.overJson = some w)
    (hsig : canonicalStringify numbers v = .ok signed) :
    canonicalStringify numbers w = .ok signed ↔ v.defined = true := by
  constructor
  · intro h
    have hret : canonicalStringifyReturns 11 v = true := by
      by_contra hthrows
      obtain ⟨message, hmsg⟩ := canonicalAt_eq_error numbers (Bool.eq_false_iff.2 hthrows)
      rw [canonicalStringify, hmsg] at hsig
      cases hsig
    obtain ⟨htext, htext'⟩ := text_eq_some_of_overJson numbers hw
    rw [← hsig, canonicalStringify, canonicalStringify, canonicalAt_eq hret,
      canonicalAt_eq (returns_of_overJson hw hret), htext, htext'] at h
    have hequal := String.ofList_injective (some.inj (Except.ok.inj h))
    exact (defined_of_itemText_overJson hkeys hw .nil .nil (congrArg (· ++ []) hequal.symm)).1
  · intro hdefined
    obtain rfl := some.inj (hw.symm.trans (overJson_of_defined hdefined))
    exact hsig

end Core
