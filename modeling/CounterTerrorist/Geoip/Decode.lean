import CounterTerrorist.Core.JsNumber
import CounterTerrorist.Core.JsText
import CounterTerrorist.Foundations.ByteMemory
import CounterTerrorist.Foundations.Traced

/-!
# The decoder of database records

A record of a MaxMind database is a value in a binary format: a control byte with a type and a
size, more bytes for either where they do not fit, and what belongs to the type. A map and an array
have their entries after them. A pointer stands for the value at another place.

## Positions

Only the first byte of a value is looked for in the file. Everything after it is read without a
check. A byte that is not there is `undefined`: as a part of a bit pattern it is zero, and as a
part of a sum it makes the sum `NaN`. So a size, and with it the position of the next value, can be
no number (`Offset.nowhere`), and at such a position the decoder finds the value `null`.

## Work

`decode` leaves a trace, with one entry for each of its calls.

## The language

What the decoder uses of JavaScript is a parameter (`Runtime`): rounding, the bytes of floating
point numbers, texts in UTF-8, and conversions.
-/

namespace Geoip

open Core ByteMemory

/-! ### Values -/

/-- A decoded value. A map has a prototype if one of its keys was `__proto__`. -/
inductive Value
  | null
  | bool (b : Bool)
  | num (n : JsNum)
  | str (s : Text)
  | bytes (b : List UInt8)
  | array (items : List Value)
  | map (own : List (Text × Value)) (proto : Option Value)

/-- An object that is being filled: its properties in the order they came in, and its prototype. -/
structure Record where
  own : List (Text × Value)
  proto : Option Value

namespace Record

/-- `{}`. -/
def empty : Record := ⟨[], none⟩

/-- A property gets a new value in its place, or comes last. -/
def put (key : Text) (value : Value) : List (Text × Value) → List (Text × Value)
  | [] => [(key, value)]
  | (k, v) :: own => if k = key then (k, value) :: own else (k, v) :: put key value own

/-- `__proto__`. -/
def protoKey : Text := ['_', '_', 'p', 'r', 'o', 't', 'o', '_', '_']

/-- `out[key] = value`. -/
def set (out : Record) (key : Text) (value : Value) : Record :=
  if key = protoKey then
    match value with
    | .null | .bytes _ | .array _ | .map _ _ => { out with proto := some value }
    | .bool _ | .num _ | .str _ => out
  else { out with own := put key value out.own }

theorem set_of_ne (out : Record) {key : Text} (h : key ≠ protoKey) (value : Value) :
    out.set key value = { out with own := put key value out.own } := if_neg h

end Record

/-- The value of a property, its own or inherited. -/
def Value.get (name : Text) : Value → Option Value
  | .map own proto =>
    match own.find? (·.1 = name) with
    | some entry => some entry.2
    | none =>
      match proto with
      | some p => p.get name
      | none => none
  | _ => none

/-! ### What comes with the language -/

/-- The bytes of a text. -/
def encodeUtf8 (text : Text) : List UInt8 := text.flatMap String.utf8EncodeChar

/-- What the reader uses of JavaScript. -/
structure Runtime extends Rounding where
  /-- `getFloat64`, on eight bytes. -/
  float64 : List UInt8 → JsNum
  /-- `getFloat32`, on four bytes. -/
  float32 : List UInt8 → JsNum
  /-- `TextDecoder.decode`. -/
  utf8 : List UInt8 → Text
  /-- A byte order mark at the front is left out, and other texts are read as they were written. -/
  utf8_encodeUtf8 : ∀ text : Text, text.head? ≠ some '\uFEFF' → utf8 (encodeUtf8 text) = text
  /-- `String(value)`. It throws on some objects. -/
  string : Value → Except String Text
  string_str : ∀ s, string (.str s) = .ok s
  /-- `Number(value)`, where `none` is `undefined`. -/
  number : Option Value → Except String JsNum
  number_num : ∀ n, number (some (.num n)) = .ok n

/-! ### Bytes -/

/-- `buf[i]`. -/
def byteAt (buf : Mem) (i : ℕ) : Option ℕ := buf[i]?.map UInt8.toNat

/-- `buf[i]` as a bit pattern. -/
def bitsAt (buf : Mem) (i : ℕ) : ℕ := (byteAt buf i).getD 0

/-- `buf[i]` as a number. -/
def numAt (buf : Mem) (i : ℕ) : JsNum :=
  match byteAt buf i with
  | some byte => .nat byte
  | none => .nan

/-- `buf.subarray(cursor, cursor + size)`, which ends where the buffer ends. -/
def subarray (buf : Mem) (cursor : ℕ) (size : Option ℕ) : List UInt8 :=
  slice buf cursor (size.getD 0)

/-- `readUint`. -/
def readUint (rt : Runtime) (buf : Mem) (offset : ℕ) (size : Option ℕ) : JsNum :=
  (List.range (size.getD 0)).foldl
    (fun v i ↦ rt.add (rt.mul v (.nat 256)) (numAt buf (offset + i))) (.nat 0)

/-- `readInt32`. -/
def readInt32 (buf : Mem) (offset : ℕ) (size : Option ℕ) : JsNum :=
  let v := (List.range (size.getD 0)).foldl
    (fun (v : BitVec 32) i ↦ v <<< 8 ||| BitVec.ofNat 32 (bitsAt buf (offset + i))) 0
  .fin v.toInt

/-- `view.getFloat64` and `view.getFloat32`. -/
def getFloat (read : List UInt8 → JsNum) (width : ℕ) (buf : Mem) (cursor : ℕ) :
    Except String Value :=
  if cursor + width ≤ buf.length then .ok (.num (read (slice buf cursor width)))
  else .error "Offset is outside the bounds of the DataView"

/-! ### Positions -/

/-- A position in the file, as the decoder computes it. -/
inductive Offset
  /-- A natural number. -/
  | index (n : ℕ)
  /-- No natural number, and recognised as outside the file. -/
  | outside
  /-- No natural number, and not recognised: `NaN`, or a fraction. (A fraction is only ever the
  target of a pointer, so that nothing is read after it.) -/
  | nowhere
deriving Repr, DecidableEq

/-- A number as a position. -/
def Offset.ofNum (buf : Mem) : JsNum → Offset
  | .nan => .nowhere
  | .inf _ => .outside
  | .fin q =>
    if 0 ≤ q ∧ q.den = 1 then .index q.num.toNat
    else if q < 0 ∨ (buf.length : ℚ) ≤ q then .outside
    else .nowhere

/-- What is `size` after a position. -/
def Offset.after (cursor : ℕ) : Option ℕ → Offset
  | some size => .index (cursor + size)
  | none => .nowhere

/-! ### The head of a value -/

/-- The type, and where it ends. A first type of zero says that the type is in the next byte. -/
def readType (buf : Mem) (ctrl cursor : ℕ) : Option ℕ × ℕ :=
  if ctrl >>> 5 = 0 then ((byteAt buf cursor).map (7 + ·), cursor + 1)
  else (some (ctrl >>> 5), cursor)

/-- The size, and where it ends. -/
def readSize (buf : Mem) (ctrl cursor : ℕ) : Option ℕ × ℕ :=
  let size := ctrl &&& 0x1f
  if size = 29 then ((byteAt buf cursor).map (29 + ·), cursor + 1)
  else if size = 30 then
    (some (285 + (bitsAt buf cursor <<< 8 ||| bitsAt buf (cursor + 1))), cursor + 2)
  else if size = 31 then
    (some (65821 + (bitsAt buf cursor <<< 16 ||| bitsAt buf (cursor + 1) <<< 8 |||
      bitsAt buf (cursor + 2))), cursor + 3)
  else (some size, cursor)

/-- The target of a pointer, and where the pointer ends. -/
def readPointer (buf : Mem) (ctrl cursor : ℕ) : Option ℕ × ℕ :=
  let pSize := ctrl >>> 3 &&& 0x3
  if pSize = 0 then (some ((ctrl &&& 0x7) <<< 8 ||| bitsAt buf cursor), cursor + 1)
  else if pSize = 1 then
    (some (((ctrl &&& 0x7) <<< 16 ||| bitsAt buf cursor <<< 8 ||| bitsAt buf (cursor + 1)) + 2048),
      cursor + 2)
  else if pSize = 2 then
    (some (((ctrl &&& 0x7) <<< 24 ||| bitsAt buf cursor <<< 16 ||| bitsAt buf (cursor + 1) <<< 8 |||
      bitsAt buf (cursor + 2)) + 526336), cursor + 3)
  else
    -- Here the bytes are added, so that the first and the last one have to be there.
    ((byteAt buf cursor).bind fun first ↦ (byteAt buf (cursor + 3)).map fun last ↦
      first * 0x1000000 + bitsAt buf (cursor + 1) <<< 16 + bitsAt buf (cursor + 2) <<< 8 + last,
      cursor + 4)

/-- The position a pointer leads to. -/
def pointerTarget (rt : Runtime) (buf : Mem) (base : JsNum) (target : Option ℕ) : Offset :=
  .ofNum buf (rt.add base (target.elim .nan .nat))

/-! ### Values of the single types -/

/-- The cases of `decode` that look at no other value. -/
def decodeScalar (rt : Runtime) (buf : Mem) (type size : Option ℕ) (cursor : ℕ) :
    Except String (Value × Offset) :=
  let next := Offset.after cursor size
  match type with
  | some 2 => .ok (.str (rt.utf8 (subarray buf cursor size)), next)
  | some 3 => (getFloat rt.float64 8 buf cursor).map (·, next)
  | some 4 => .ok (.bytes (subarray buf cursor size), next)
  | some 5 | some 6 | some 9 | some 10 => .ok (.num (readUint rt buf cursor size), next)
  | some 8 => .ok (.num (readInt32 buf cursor size), next)
  | some 14 => .ok (.bool (size ≠ some 0), .index cursor)
  | some 15 => (getFloat rt.float32 4 buf cursor).map (·, next)
  | _ => .ok (.null, next)

/-- `MAX_DECODE_DEPTH`. -/
def maxDecodeDepth : ℕ := 64

/-- `MAX_CONTAINER_ENTRIES`. -/
def maxContainerEntries : ℕ := 4096

/-- A call of `decode`. -/
structure Call where
  depth : ℕ
  offset : Offset
deriving Repr, DecidableEq

section

variable (rt : Runtime) (decode : Offset → Traced Call (Value × Offset))

/-- One entry of a map. -/
def decodeEntry (s : Record × Offset) : Traced Call (Record × Offset) := do
  let k ← decode s.2
  let v ← decode k.2
  let key ← Traced.lift (rt.string k.1)
  pure (s.1.set key v.1, v.2)

/-- `decodeMap`. -/
def decodeMap (cursor : ℕ) (size : Option ℕ) : Traced Call (Value × Offset) :=
  if maxContainerEntries < size.getD 0 then
    .throw s!"mmdb: implausible map size {size.getD 0} — malformed database"
  else do
    let out ← Traced.loop (decodeEntry rt decode) (size.getD 0) (.empty, .index cursor)
    pure (.map out.1.own out.1.proto, out.2)

/-- One item of an array. -/
def decodeItem (s : List Value × Offset) : Traced Call (List Value × Offset) := do
  let v ← decode s.2
  pure (s.1 ++ [v.1], v.2)

/-- `decodeArray`. -/
def decodeArray (cursor : ℕ) (size : Option ℕ) : Traced Call (Value × Offset) :=
  if maxContainerEntries < size.getD 0 then
    .throw s!"mmdb: implausible array size {size.getD 0} — malformed database"
  else do
    let out ← Traced.loop (decodeItem decode) (size.getD 0) ([], .index cursor)
    pure (.array out.1, out.2)

end

/-- The cases of `decode` by type. -/
def decodeBody (rt : Runtime) (buf : Mem) (decode : Offset → Traced Call (Value × Offset))
    (type size : Option ℕ) (cursor : ℕ) : Traced Call (Value × Offset) :=
  match type with
  | some 7 => decodeMap rt decode cursor size
  | some 11 => decodeArray decode cursor size
  | _ => .lift (decodeScalar rt buf type size cursor)

/-- What `decode` does at a place that is in the file. -/
def decodeAt (rt : Runtime) (buf : Mem) (base : JsNum)
    (decode : Offset → Traced Call (Value × Offset)) (offset : ℕ) : Traced Call (Value × Offset) :=
  let ctrl := bitsAt buf offset
  let type := readType buf ctrl (offset + 1)
  if type.1 = some 1 then do
    -- `decodePointer`
    let pointer := readPointer buf ctrl type.2
    let target ← decode (pointerTarget rt buf base pointer.1)
    pure (target.1, .index pointer.2)
  else
    let size := readSize buf ctrl type.2
    decodeBody rt buf decode type.1 size.1 size.2

/-- `decode`, with the number of levels that are left in place of the depth: the depth is
`MAX_DECODE_DEPTH + 1 - left`. Pointers count from `base`. -/
def decode (rt : Runtime) (buf : Mem) (base : JsNum) : ℕ → Offset → Traced Call (Value × Offset)
  | 0, offset => do
    Traced.tell ⟨maxDecodeDepth + 1, offset⟩
    .throw "mmdb: decode nesting exceeded — malformed database"
  | left + 1, offset => do
    Traced.tell ⟨maxDecodeDepth - left, offset⟩
    match offset with
    | .outside => .throw "mmdb: decode offset outside the file — malformed database"
    -- The control byte is `undefined`. Its bits are zero, and there is no byte with a type either.
    | .nowhere => pure (.null, .nowhere)
    | .index n =>
      if buf.length ≤ n then .throw "mmdb: decode offset outside the file — malformed database"
      else decodeAt rt buf base (decode rt buf base left) n

/-! ### A runtime -/

/-- A text is known by its bytes. -/
theorem encodeUtf8_injective {a b : Text} (h : encodeUtf8 a = encodeUtf8 b) : a = b := by
  have harray : a.utf8Encode = b.utf8Encode := congrArg List.toByteArray h
  have hdecode := congrArg ByteArray.utf8Decode? harray
  rw [List.utf8Decode?_utf8Encode, List.utf8Decode?_utf8Encode] at hdecode
  exact List.toArray_inj (Option.some.inj hdecode)

/-- The text of bytes. One character for each byte is tried first. -/
def decodeUtf8 (bytes : List UInt8) : Text :=
  let ascii := bytes.map fun b ↦ Char.ofNat b.toNat
  if encodeUtf8 ascii = bytes then ascii else (bytes.toByteArray.utf8Decode?.getD #[]).toList

theorem decodeUtf8_encodeUtf8 (text : Text) : decodeUtf8 (encodeUtf8 text) = text := by
  rw [decodeUtf8]
  split
  · exact encodeUtf8_injective ‹_›
  · show (text.utf8Encode.utf8Decode?.getD #[]).toList = text
    rw [List.utf8Decode?_utf8Encode, Option.getD_some]

/-- A runtime for databases with texts and small numbers. -/
def plainRuntime : Runtime where
  toRounding := .exact
  float64 := fun _ ↦ .nan
  float32 := fun _ ↦ .nan
  utf8 := decodeUtf8
  utf8_encodeUtf8 := fun text _ ↦ decodeUtf8_encodeUtf8 text
  string
    | .str s => .ok s
    | _ => .error "not a text"
  string_str := fun _ ↦ rfl
  number
    | some (.num n) => .ok n
    | _ => .ok .nan
  number_num := fun _ ↦ rfl

end Geoip
