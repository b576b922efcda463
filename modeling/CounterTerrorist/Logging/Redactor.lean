import CounterTerrorist.Core.JsText
import CounterTerrorist.Core.JsonText
import CounterTerrorist.Core.Value
import CounterTerrorist.Foundations.Patterns

/-!
# `SecretRedactor`

The redactor replaces the registered secrets in a text, one after the other, and goes through the
strings of an object to do the same there. It does not look at the keys of objects, at numbers and
at anything else that is no string.
-/

namespace Logging

open Core Patterns

/-- The mark that replaces a secret. -/
def redacted : Text := "[REDACTED]".toList

/-- `redact`, for secrets in the order in which they were registered. The source escapes the special
characters of a secret, so the regular expression matches the secret as it is. -/
def redact (secrets : List Text) (text : Text) : Text :=
  secrets.foldl (fun text secret ↦ replaceAll (literal secret) redacted text) text

/-- `redact` on a string. -/
def redactString (secrets : List Text) (s : String) : String := .ofList (redact secrets s.toList)

mutual

/-- `redactObject`. A key `__proto__` becomes the prototype of the copy, so it is no entry of it. -/
def redactObject (secrets : List Text) : JsTree → JsTree
  | .undefined => .undefined
  | .null => .null
  | .bool b => .bool b
  | .num n => .num n
  | .str s => .str (redactString secrets s)
  | .func => .func
  | .arr items => .arr (redactItems secrets items)
  | .obj entries => .obj (redactEntries secrets entries)

/-- The elements of an array. -/
def redactItems (secrets : List Text) : List JsTree → List JsTree
  | [] => []
  | v :: vs => redactObject secrets v :: redactItems secrets vs

/-- The entries of an object. -/
def redactEntries (secrets : List Text) : List (String × JsTree) → List (String × JsTree)
  | [] => []
  | (k, v) :: es =>
    if k = "__proto__" then redactEntries secrets es
    else (k, redactObject secrets v) :: redactEntries secrets es

end

/-- The keys of the configuration that are secret. -/
def sensitiveKeys : List String := ["API_TOKEN", "MESH_SECRET", "PKI_SECRET", "SECURE_BYPASS_TOKEN"]

/-- The length of a string, in code units. -/
def codeLength (text : Text) : ℕ := (text.flatMap codeUnits).length

/-- `updateSecrets`. -/
def updateSecrets (config : String → Option Text) (secrets : List Text) : List Text :=
  sensitiveKeys.foldl (fun secrets key ↦
    match config key with
    | some val => if 8 ≤ codeLength val ∧ val ∉ secrets then secrets ++ [val] else secrets
    | none => secrets) secrets

end Logging
