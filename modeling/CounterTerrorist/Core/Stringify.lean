import CounterTerrorist.Core.Canonical

/-!
# `JSON.stringify`

The text of a value as the language prints it: the entries of an object in their own order, and
nothing for what is not JSON. `undefined` and functions have no text of their own (`none`); in an
array they are printed as `null`, and in an object their entry is left out.
-/

namespace Core

namespace JsTree

mutual

/-- `JSON.stringify`. -/
def stringify (numbers : NumberText) : JsTree → Option (List Char)
  | undefined => none
  | func => none
  | null => some "null".toList
  | bool b => some (if b then "true".toList else "false".toList)
  | num n => some (numbers.text n)
  | str s => some (quote s)
  | arr items => some (bracketed '\x5b' '\x5d' (stringifyItems numbers items))
  | obj entries => some (bracketed '\x7b' '\x7d' (stringifyEntries numbers entries))

/-- The texts of the elements of an array. -/
def stringifyItems (numbers : NumberText) : List JsTree → List (List Char)
  | [] => []
  | v :: vs => (stringify numbers v).getD "null".toList :: stringifyItems numbers vs

/-- The texts of the entries of an object. -/
def stringifyEntries (numbers : NumberText) : List (String × JsTree) → List (List Char)
  | [] => []
  | (k, v) :: es =>
    ((stringify numbers v).map fun text ↦ fieldText (k, text)).toList ++ stringifyEntries numbers es

end

end JsTree

end Core
