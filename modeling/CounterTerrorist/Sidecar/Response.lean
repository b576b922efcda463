import CounterTerrorist.Core.Json

/-!
# Lines from a sidecar

What `handleIpcLine` reads in a line that a sidecar has printed or put into its ring: the check of
its nesting, the redaction of secrets, the schema of responses. The outcome is an untyped value, or
nothing (`readLine`). A line with an `event` passes without the schema, so not even the type of its
fields is known then.

`JSON.parse`, the schemas of requests and the conversion of arbitrary values to a string are not
modelled; they are fields of `Env`.
-/

namespace Sidecar

open Core

/-- What the manager of the sidecars works with. -/
structure Env where
  /-- The registered secrets, in the order of their registration. -/
  secrets : List String
  /-- `JSON.parse`; `none` is a `SyntaxError`. -/
  parse : String → Option JsTree
  /-- `validateRequest`. -/
  validateRequest : String → JsTree → Bool
  /-- The text of a value that is no string. -/
  coerceString : JsTree → String

/-- `String(v)`. -/
def Env.text (env : Env) : JsTree → String
  | .str s => s
  | v => env.coerceString v

/-! ### Nesting -/

/-- The variables of the scan. -/
structure DepthScan where
  depth : ℤ
  maxSeenDepth : ℤ
  inString : Bool
  escaped : Bool
deriving Repr, DecidableEq

/-- A bracket outside a string. -/
def DepthScan.bracket (d : DepthScan) (char : Char) : DepthScan :=
  if char = '\x7b' ∨ char = '\x5b' then
    { d with depth := d.depth + 1, maxSeenDepth := max d.maxSeenDepth (d.depth + 1) }
  else if char = '\x7d' ∨ char = '\x5d' then { d with depth := d.depth - 1 }
  else d

/-- The scan, up to the end of the line or the first bracket that is too deep. -/
def DepthScan.scan : DepthScan → List Char → DepthScan
  | d, [] => d
  | d, char :: chars =>
    if d.escaped then scan { d with escaped := false } chars
    else if char = '\x5c' then scan { d with escaped := true } chars
    else if char = '\x22' then scan { d with inString := !d.inString } chars
    else
      let d' := if d.inString then d else d.bracket char
      if d'.depth > 8 then d' else scan d' chars

/-- Whether the line is refused for its nesting. -/
def tooDeep (line : String) : Bool :=
  let d := DepthScan.scan ⟨0, 0, false, false⟩ line.toList
  decide (d.depth > 8) || decide (d.maxSeenDepth > 8)

/-! ### Reading -/

/-- `SecretRedactor.redact`. -/
def redact (secrets : List String) (text : String) : String :=
  secrets.foldl (fun text secret ↦ text.replace secret "[REDACTED]") text

/-- `z.string().optional()`. -/
def optionalString : JsTree → Bool
  | .undefined | .str _ => true
  | _ => false

/-- `z.boolean().optional()`. -/
def optionalBool : JsTree → Bool
  | .undefined | .bool _ => true
  | _ => false

/-- `z.string().nullable().optional()`. -/
def idSchema : JsTree → Bool
  | .undefined | .null | .str _ => true
  | _ => false

/-- `z.record(z.string(), z.unknown()).nullish()`. -/
def nullishRecord : JsTree → Bool
  | .undefined | .null | .obj _ => true
  | _ => false

/-- `SidecarResponseSchema`. -/
def sidecarResponseSchema (res : JsTree) : Bool :=
  match res with
  | .obj _ =>
    idSchema (res.get "id") && nullishRecord (res.get "data") &&
      ["success", "critical"].all (fun k ↦ optionalBool (res.get k)) &&
      ["message", "stdout", "stderr", "timestamp", "event", "type", "sidecar", "error"].all
        (fun k ↦ optionalString (res.get k))
  | _ => false

/-- `validateResponse`. -/
def validateResponse (res : JsTree) : Bool :=
  if (res.get "event").truthy then true
  else sidecarResponseSchema res && match res.get "success" with | .bool _ => true | _ => false

/-- What is read in a line. A line that is refused, or in whose handling an exception is thrown,
yields nothing. -/
def readLine (env : Env) (line : String) : Option JsTree :=
  if tooDeep line then none
  else
    match env.parse (redact env.secrets line) with
    | none => none
    -- reading a property of `null`
    | some .null => none
    | some data => if validateResponse data then some data else none

/-- The id that a waiter is looked up with. A value that is no string is no key of a waiter. -/
def idOf (data : JsTree) : Option String :=
  match data.get "id" with
  | .str id => if id = "" then none else some id
  | _ => none

/-! ### Results of commands -/

/-- `CommandResult`. Of a response that is an event the fields can be any values. -/
structure CommandResult where
  success : Bool
  stdout : JsTree
  stderr : JsTree
  data : JsTree
  message : JsTree

/-- `{ success: false, stdout: "", stderr }`. -/
def CommandResult.failure (stderr : String) : CommandResult :=
  ⟨false, .str "", .str stderr, .undefined, .undefined⟩

/-- `v || ""`. -/
def orEmpty (v : JsTree) : JsTree := if v.truthy then v else .str ""

/-- The result that a response stands for. -/
def resultOf (data : JsTree) : CommandResult :=
  ⟨(data.get "success").truthy, orEmpty (data.get "stdout"), orEmpty (data.get "stderr"),
    data.get "data", data.get "message"⟩

end Sidecar
