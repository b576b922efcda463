import CounterTerrorist.Core.Value

/-!
# Untyped messages

The nodes of the mesh exchange JSON objects and read them without a schema. This is what the code
does with such a value: read a property (`get`), write one (`set`), test its truth, and send it
through `JSON.stringify` and `JSON.parse` (`overJson`).

`JSON.stringify` has no text for `undefined` and for functions. Inside an array they become `null`,
as a property they disappear. Everything else a `JsTree` can be comes back as it was.
-/

namespace Core.JsTree

/-- The values JavaScript treats as true. -/
def truthy : JsTree → Bool
  | undefined | null => false
  | bool b => b
  | num n => n != 0
  | str s => s != ""
  | func | arr _ | obj _ => true

/-- `v === null`. -/
def isNull : JsTree → Bool
  | null => true
  | _ => false

/-- `v === s` for a string `s`. -/
def isStr (v : JsTree) (s : String) : Bool :=
  match v with
  | str t => t == s
  | _ => false

/-- `v === n` for a number `n`. -/
def isNum (v : JsTree) (n : ℤ) : Bool :=
  match v with
  | num m => m == n
  | _ => false

/-- `v.k`, as far as own properties go. -/
def get (v : JsTree) (k : String) : JsTree :=
  match v with
  | obj entries => (entries.lookup k).getD undefined
  | _ => undefined

/-- `v.k = x` on an object: in place if there is such a property, else at the end. -/
def set (v : JsTree) (k : String) (x : JsTree) : JsTree :=
  match v with
  | obj entries =>
    if entries.any (·.1 == k) then
      obj (entries.map fun e ↦ if e.1 == k then (k, x) else e)
    else obj (entries ++ [(k, x)])
  | _ => v

mutual

/-- `JSON.parse(JSON.stringify(v))`. `none` is a value that `JSON.stringify` has no text for. -/
def overJson : JsTree → Option JsTree
  | undefined => none
  | func => none
  | null => some null
  | bool b => some (bool b)
  | num n => some (num n)
  | str s => some (str s)
  | arr items => some (arr (overJsonItems items))
  | obj entries => some (obj (overJsonEntries entries))

/-- The elements of an array; a missing one becomes `null`. -/
def overJsonItems : List JsTree → List JsTree
  | [] => []
  | v :: vs => (overJson v).getD null :: overJsonItems vs

/-- The properties of an object; a missing one is left out. -/
def overJsonEntries : List (String × JsTree) → List (String × JsTree)
  | [] => []
  | (k, v) :: es =>
    match overJson v with
    | some w => (k, w) :: overJsonEntries es
    | none => overJsonEntries es

end

/-- A property that is not there before is not there afterwards. -/
theorem lookup_overJsonEntries {k : String} {entries : List (String × JsTree)}
    (h : entries.lookup k = none) : (overJsonEntries entries).lookup k = none := by
  induction entries with
  | nil => rfl
  | cons e entries ih =>
    obtain ⟨j, v⟩ := e
    rw [List.lookup_cons] at h
    split at h
    · cases h
    · rename_i hjk
      rw [overJsonEntries]
      split
      · rw [List.lookup_cons, hjk]
        exact ih h
      · exact ih h

end Core.JsTree
