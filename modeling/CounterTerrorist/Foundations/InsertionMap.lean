import Mathlib.Data.List.Nodup

/-!
# Maps in the order of insertion

A map whose entries are kept in the order in which their keys came in: setting a key that is there
replaces its value in place, any other key goes to the end. No key occurs twice, which is part of
the type; it is what makes removing entries a matter of each key alone (`get_filter`).
-/

/-- A map from `K` to `V` with its entries in the order of insertion. -/
structure InsertionMap (K V : Type*) where
  entries : List (K × V)
  nodup : (entries.map Prod.fst).Nodup

namespace InsertionMap

open List

variable {K V : Type*} [DecidableEq K]

/-- No entries. -/
def empty : InsertionMap K V := ⟨[], List.nodup_nil⟩

/-- The value of a key. -/
def get (m : InsertionMap K V) (k : K) : Option V := m.entries.lookup k

/-- Set a key in a list of entries. -/
def setIn (k : K) (v : V) : List (K × V) → List (K × V)
  | [] => [(k, v)]
  | e :: es => if e.1 = k then (k, v) :: es else e :: setIn k v es

/-- A new key goes to the end. -/
theorem map_fst_setIn (k : K) (v : V) (es : List (K × V)) : (setIn k v es).map Prod.fst =
      if k ∈ es.map Prod.fst then es.map Prod.fst else es.map Prod.fst ++ [k] := by
  induction es with
  | nil => rfl
  | cons e es ih =>
    by_cases hk : e.1 = k
    · simp [setIn, hk]
    · have hk' : k ≠ e.1 := fun h ↦ hk h.symm
      rw [setIn, if_neg hk, map_cons, ih]
      simp only [map_cons, mem_cons, hk', false_or]
      split <;> rfl

/-- Set the value of a key. -/
def set (m : InsertionMap K V) (k : K) (v : V) : InsertionMap K V where
  entries := setIn k v m.entries
  nodup := by
    rw [map_fst_setIn]
    split
    · exact m.nodup
    · next hk => exact List.nodup_append_comm.1 (List.nodup_cons.2 ⟨hk, m.nodup⟩)

/-- A new key goes to the end. -/
theorem setIn_of_notMem {k : K} (v : V) {es : List (K × V)} (h : k ∉ es.map Prod.fst) :
    setIn k v es = es ++ [(k, v)] := by
  induction es with
  | nil => rfl
  | cons e es ih =>
    obtain ⟨hne, hes⟩ := not_or.1 (mem_cons.not.1 h)
    rw [setIn, if_neg (Ne.symm hne), ih hes]
    rfl

/-- Keep the entries that satisfy `p`. -/
def filter (m : InsertionMap K V) (p : V → Bool) : InsertionMap K V where
  entries := m.entries.filter fun e ↦ p e.2
  nodup := m.nodup.sublist (List.filter_sublist.map Prod.fst)

theorem lookup_cons_eq_ite (k : K) (e : K × V) (es : List (K × V)) :
    (e :: es).lookup k = if k = e.1 then some e.2 else es.lookup k := by
  rw [lookup_cons]
  by_cases hk : k = e.1
  · rw [if_pos hk, beq_iff_eq.2 hk]
  · rw [if_neg hk, beq_eq_false_iff_ne.2 hk]

variable {m : InsertionMap K V} {k : K} {v : V}

/-- What is found are the entries. -/
theorem get_eq_some_iff : m.get k = some v ↔ (k, v) ∈ m.entries := by
  obtain ⟨es, hes⟩ := m
  show es.lookup k = some v ↔ (k, v) ∈ es
  induction es with
  | nil => simp
  | cons e es ih =>
    obtain ⟨hnew, hes⟩ := nodup_cons.1 hes
    rw [lookup_cons_eq_ite, mem_cons]
    by_cases hk : k = e.1
    · have hrest : (k, v) ∉ es := fun h ↦ hnew (hk ▸ List.mem_map.2 ⟨_, h, rfl⟩)
      simp [hk ▸ hrest, hk, Prod.ext_iff, eq_comm]
    · have hne : (k, v) ≠ e := fun h ↦ hk (congrArg Prod.fst h)
      rw [if_neg hk, ih hes, or_iff_right hne]

theorem lookup_setIn (k : K) (v : V) (k' : K) (es : List (K × V)) :
    (setIn k v es).lookup k' = if k' = k then some v else es.lookup k' := by
  induction es with
  | nil => rw [setIn, lookup_cons_eq_ite]
  | cons e es ih =>
    rw [setIn]
    by_cases hk : e.1 = k
    · rw [if_pos hk, lookup_cons_eq_ite, lookup_cons_eq_ite, hk]
      split <;> rfl
    · rw [if_neg hk, lookup_cons_eq_ite, lookup_cons_eq_ite, ih]
      by_cases hk' : k' = e.1
      · rw [if_pos hk', if_neg fun h ↦ hk (hk'.symm.trans h), if_pos hk']
      · rw [if_neg hk', if_neg hk']

/-- Setting a key changes no other. -/
theorem get_set (m : InsertionMap K V) (k : K) (v : V) (k' : K) :
    (m.set k v).get k' = if k' = k then some v else m.get k' := lookup_setIn k v k' m.entries

/-- An entry is removed or kept by its own value. -/
theorem get_filter (m : InsertionMap K V) (p : V → Bool) (k : K) :
    (m.filter p).get k = (m.get k).filter p := by
  refine Option.ext fun v ↦ ?_
  rw [get_eq_some_iff, Option.filter_eq_some_iff, get_eq_some_iff, filter, mem_filter]

end InsertionMap
