import CounterTerrorist.Foundations.BigEndian
import CounterTerrorist.Geoip.Decode

/-!
# The format of the data section

What the MaxMind format says about values, independently of the decoder: which bytes stand for a
type and a size (`header`), which bytes are a pointer (`PointerTo`), and when the bytes at a place
of a file are a value (`Encodes`).

A value takes a number of levels. A pointer and what it leads to are two, and so are a container and
an entry. `Encodes` counts them, because the decoder goes down only so far.

Only values that can be told from their encoding take part: a text does not start with a byte order
mark, a map has no key twice and none named `__proto__`, a number is below `2 ^ 53`.
-/

namespace Geoip

open Core ByteMemory BigEndian

/-- A buffer of the language, which is never longer than numbers are exact. -/
structure Uint8Array where
  bytes : Mem
  length_le : bytes.length ≤ 2 ^ 53

/-! ### Heads -/

/-- The five bits for a size, and the bytes after them. -/
def sizeField (size : ℕ) : ℕ × List UInt8 :=
  if size < 29 then (size, [])
  else if size < 285 then (29, bigEndian 1 (size - 29))
  else if size < 65821 then (30, bigEndian 2 (size - 285))
  else (31, bigEndian 3 (size - 65821))

/-- The control byte for a type, and the byte for an extended type. -/
def typeField (type field : ℕ) : List UInt8 :=
  if type ≤ 7 then [UInt8.ofNat (type * 32 + field)]
  else [UInt8.ofNat field, UInt8.ofNat (type - 7)]

/-- The bytes before the payload. -/
def header (type size : ℕ) : List UInt8 := typeField type (sizeField size).1 ++ (sizeField size).2

/-- The sizes that there are bytes for. -/
def sizeLimit : ℕ := 65821 + 2 ^ 24

/-- The bytes of a pointer. A distance in two, three or four bytes takes three bits from the first
one; in the last form these bits mean nothing. -/
inductive PointerTo : ℕ → List UInt8 → Prop
  | one (q : ℕ) (h : q < 2 ^ 11) :
    PointerTo q (UInt8.ofNat (0x20 + q / 2 ^ 8) :: bigEndian 1 q)
  | two (q : ℕ) (h : q < 2 ^ 19) :
    PointerTo (q + 2048) (UInt8.ofNat (0x28 + q / 2 ^ 16) :: bigEndian 2 q)
  | three (q : ℕ) (h : q < 2 ^ 27) :
    PointerTo (q + 526336) (UInt8.ofNat (0x30 + q / 2 ^ 24) :: bigEndian 3 q)
  | four (q low : ℕ) (h : q < 2 ^ 32) (hlow : low < 8) :
    PointerTo q (UInt8.ofNat (0x38 + low) :: bigEndian 4 q)

/-! ### Values -/

/-- The types of unsigned numbers, and how many bytes they have at most. -/
def uintTypes : List (ℕ × ℕ) := [(5, 2), (6, 4), (9, 8), (10, 16)]

/-- Values that follow one another. -/
def Chain (R : Value → ℕ → ℕ → Prop) : List Value → ℕ → ℕ → Prop
  | [], off, next => off = next
  | v :: vs, off, next => ∃ mid, R v off mid ∧ Chain R vs mid next

/-- Keys and values in turn. -/
def entryValues (own : List (Text × Value)) : List Value := own.flatMap fun e ↦ [.str e.1, e.2]

/-- The bytes at a place are a value without others in it. -/
def EncodesScalar (buf : Mem) (v : Value) (off next : ℕ) : Prop :=
  match v with
  | .str s =>
    let bytes := encodeUtf8 s
    s.head? ≠ some '\uFEFF' ∧ bytes.length < sizeLimit ∧
      HoldsAt buf off (header 2 bytes.length ++ bytes) ∧
      next = off + (header 2 bytes.length ++ bytes).length
  | .bytes bytes =>
    bytes.length < sizeLimit ∧ HoldsAt buf off (header 4 bytes.length ++ bytes) ∧
      next = off + (header 4 bytes.length ++ bytes).length
  | .num n =>
    ∃ type width size value, (type, width) ∈ uintTypes ∧ size ≤ width ∧ value < 256 ^ size ∧
      value < 2 ^ 53 ∧ n = .nat value ∧ HoldsAt buf off (header type size ++ bigEndian size value) ∧
      next = off + (header type size ++ bigEndian size value).length
  | .bool b =>
    HoldsAt buf off (header 14 b.toNat) ∧ next = off + (header 14 b.toNat).length
  | .null | .array _ | .map _ _ => False

/-- **The bytes at a place are a value.** It takes a number of levels at most, pointers count from
`base`, and `next` is what comes after the bytes. -/
def Encodes (buf : Mem) (base : ℕ) : ℕ → Value → ℕ → ℕ → Prop
  | 0, _, _, _ => False
  | levels + 1, v, off, next =>
    (∃ p bytes, PointerTo p bytes ∧ HoldsAt buf off bytes ∧ next = off + bytes.length ∧
      ∃ after, Encodes buf base levels v (base + p) after) ∨
    match v with
    | .array items =>
      items.length ≤ 4096 ∧ HoldsAt buf off (header 11 items.length) ∧
        Chain (Encodes buf base levels) items (off + (header 11 items.length).length) next
    | .map own none =>
      own.length ≤ 4096 ∧ (own.map Prod.fst).Nodup ∧ Record.protoKey ∉ own.map Prod.fst ∧
        HoldsAt buf off (header 7 own.length) ∧
        Chain (Encodes buf base levels) (entryValues own)
          (off + (header 7 own.length).length) next
    | v => EncodesScalar buf v off next

end Geoip
