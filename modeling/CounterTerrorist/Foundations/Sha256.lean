import Mathlib.Data.List.Basic

/-!
# SHA-256

The hash function of FIPS 180-4, on words of 32 bits. Everything is structurally recursive, so that
hashes of short texts can be computed in proofs.
-/

namespace Sha256

abbrev Word := BitVec 32

/-- The constants of the rounds. -/
def roundConstants : List Word :=
  [0x428a2f98, 0x71374491, 0xb5c0fbcf, 0xe9b5dba5, 0x3956c25b, 0x59f111f1, 0x923f82a4, 0xab1c5ed5,
    0xd807aa98, 0x12835b01, 0x243185be, 0x550c7dc3, 0x72be5d74, 0x80deb1fe, 0x9bdc06a7, 0xc19bf174,
    0xe49b69c1, 0xefbe4786, 0x0fc19dc6, 0x240ca1cc, 0x2de92c6f, 0x4a7484aa, 0x5cb0a9dc, 0x76f988da,
    0x983e5152, 0xa831c66d, 0xb00327c8, 0xbf597fc7, 0xc6e00bf3, 0xd5a79147, 0x06ca6351, 0x14292967,
    0x27b70a85, 0x2e1b2138, 0x4d2c6dfc, 0x53380d13, 0x650a7354, 0x766a0abb, 0x81c2c92e, 0x92722c85,
    0xa2bfe8a1, 0xa81a664b, 0xc24b8b70, 0xc76c51a3, 0xd192e819, 0xd6990624, 0xf40e3585, 0x106aa070,
    0x19a4c116, 0x1e376c08, 0x2748774c, 0x34b0bcb5, 0x391c0cb3, 0x4ed8aa4a, 0x5b9cca4f, 0x682e6ff3,
    0x748f82ee, 0x78a5636f, 0x84c87814, 0x8cc70208, 0x90befffa, 0xa4506ceb, 0xbef9a3f7, 0xc67178f2]

/-- The working variables. -/
structure State where
  a : Word
  b : Word
  c : Word
  d : Word
  e : Word
  f : Word
  g : Word
  h : Word

/-- The initial hash value. -/
def State.init : State :=
  ⟨0x6a09e667, 0xbb67ae85, 0x3c6ef372, 0xa54ff53a, 0x510e527f, 0x9b05688c, 0x1f83d9ab, 0x5be0cd19⟩

/-- One round, with a constant and a word of the schedule. -/
def State.round (s : State) (k w : Word) : State :=
  let sum1 := s.e.rotateRight 6 ^^^ s.e.rotateRight 11 ^^^ s.e.rotateRight 25
  let choice := (s.e &&& s.f) ^^^ (~~~s.e &&& s.g)
  let t1 := s.h + sum1 + choice + k + w
  let sum0 := s.a.rotateRight 2 ^^^ s.a.rotateRight 13 ^^^ s.a.rotateRight 22
  let majority := (s.a &&& s.b) ^^^ (s.a &&& s.c) ^^^ (s.b &&& s.c)
  ⟨t1 + (sum0 + majority), s.a, s.b, s.c, s.d + t1, s.e, s.f, s.g⟩

/-- The word of the schedule that follows sixteen others. -/
def nextWord (window : List Word) : Word :=
  let w := fun i ↦ window.getD i 0
  let sigma0 := (w 1).rotateRight 7 ^^^ (w 1).rotateRight 18 ^^^ (w 1 >>> 3)
  let sigma1 := (w 14).rotateRight 17 ^^^ (w 14).rotateRight 19 ^^^ (w 14 >>> 10)
  sigma1 + w 9 + sigma0 + w 0

/-- The message schedule: sixteen words, and so many more. -/
def schedule : ℕ → List Word → List Word
  | 0, window => window
  | n + 1, window => window.headD 0 :: schedule n (window.tail ++ [nextWord window])

/-- The rounds of a block. -/
def rounds : List Word → List Word → State → State
  | k :: ks, w :: ws, s => rounds ks ws (s.round k w)
  | _, _, s => s

/-- A block of sixteen words. -/
def compress (s : State) (block : List Word) : State :=
  let t := rounds roundConstants (schedule 48 block) s
  ⟨s.a + t.a, s.b + t.b, s.c + t.c, s.d + t.d, s.e + t.e, s.f + t.f, s.g + t.g, s.h + t.h⟩

/-- So many bytes of a number, the highest first. -/
def bigEndian : ℕ → ℕ → List ℕ
  | 0, _ => []
  | n + 1, value => value / 256 ^ n % 256 :: bigEndian n value

/-- The bytes of a message with the padding behind them. -/
def pad (bytes : List ℕ) : List ℕ :=
  bytes ++ 0x80 :: (List.replicate ((119 - bytes.length % 64) % 64) 0 ++
    bigEndian 8 (8 * bytes.length))

/-- Bytes, four at a time. -/
def toWords : List ℕ → List Word
  | b0 :: b1 :: b2 :: b3 :: bytes =>
    .ofNat 32 (((b0 * 256 + b1) * 256 + b2) * 256 + b3) :: toWords bytes
  | _ => []

/-- Words, sixteen at a time, at most so many times. -/
def hashBlocks : ℕ → List Word → State → State
  | 0, _, s => s
  | n + 1, words, s => hashBlocks n (words.drop 16) (compress s (words.take 16))

/-- The bytes of the hash value of a message. -/
def hash (bytes : List ℕ) : List ℕ :=
  let s := hashBlocks ((bytes.length + 72) / 64) (toWords (pad bytes)) .init
  [s.a, s.b, s.c, s.d, s.e, s.f, s.g, s.h].flatMap fun w ↦ bigEndian 4 w.toNat

/-- The hash value of a text, in hexadecimal. -/
def hex (text : String) : String :=
  let bytes := text.toList.flatMap fun c ↦ (String.utf8EncodeChar c).map UInt8.toNat
  .ofList ((hash bytes).flatMap fun b ↦ [Nat.digitChar (b / 16), Nat.digitChar (b % 16)])

example : hex "abc" = "ba7816bf8f01cfea414140de5dae2223b00361a396177a9cb410ff61f20015ad" := by
  decide +kernel

end Sha256
