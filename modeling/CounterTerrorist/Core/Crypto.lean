import CounterTerrorist.Core.Canonical
import Mathlib.Data.String.Basic

/-!
# Digests and signatures

`computeHash`, `signPayload` and `verifySignature` work on the canonical form of a value. The
primitives below them belong to the runtime. A `Crypto` comes with what is known of them: a digest
is written in hexadecimal, a signature in base 64, neither is empty or longer than its 32 bytes
take, and a signature is accepted for another text exactly if that text has the same one. Nothing is
said about collisions, since there are some.
-/

namespace Core

/-- A digit of a digest. -/
def isHex (c : Char) : Bool := c.isDigit || 'a'.toNat ≤ c.toNat && c.toNat ≤ 'f'.toNat

/-- A character of a signature. -/
def isBase64 (c : Char) : Bool := c.isAlphanum || c == '+' || c == '/' || c == '='

/-- No character takes more than four bytes. -/
theorem utf8ByteSize_ofList_le (cs : List Char) :
    (String.ofList cs).utf8ByteSize ≤ 4 * cs.length := by
  rw [String.utf8ByteSize_ofList]
  induction cs with
  | nil => exact Nat.le_refl 0
  | cons c cs ih =>
    have hc := c.utf8Size_le_four
    rw [String.utf8Len_cons, List.length_cons]
    omega

/-- The primitives of the runtime. -/
structure Crypto where
  numbers : NumberText
  /-- SHA-256 of a text, in hexadecimal. -/
  sha256 : String → String
  /-- HMAC-SHA256 of a text under a secret, in base 64. -/
  hmac : (secret text : String) → String
  /-- `crypto.subtle.verify` for a signature in base 64. -/
  hmacVerify : (secret text signature : String) → Bool
  sha256_hex : ∀ text, ∀ c ∈ (sha256 text).toList, isHex c = true
  sha256_ne : ∀ text, sha256 text ≠ ""
  sha256_size : ∀ text, (sha256 text).utf8ByteSize ≤ 64
  hmac_base64 : ∀ secret text, ∀ c ∈ (hmac secret text).toList, isBase64 c = true
  hmac_ne : ∀ secret text, hmac secret text ≠ ""
  hmac_size : ∀ secret text, (hmac secret text).utf8ByteSize ≤ 44
  hmacVerify_iff : ∀ secret text text',
    hmacVerify secret text (hmac secret text') = true ↔ hmac secret text' = hmac secret text

namespace Crypto

variable (c : Crypto)

/-- The bytes that are digested, as a text; those of `undefined` are none. -/
def encoded (v : JsTree) : Except String String :=
  (canonicalStringify c.numbers v).map (·.getD "")

/-- `computeHash`. -/
def computeHash (input : JsTree) : Except String String := do
  let text ← c.encoded input
  .ok (c.sha256 text)

/-- `signPayload`. -/
def signPayload (payload : JsTree) (secret : String) : Except String String := do
  let text ← c.encoded payload
  .ok (c.hmac secret text)

/-- `verifySignature`. Whatever is thrown, the answer is `false`. -/
def verifySignature (payload : JsTree) (signature secret : String) : Bool :=
  match c.encoded payload with
  | .ok text => c.hmacVerify secret text signature
  | .error _ => false

variable {c}

variable {payload : JsTree} {secret signature : String}

theorem signPayload_eq_ok : c.signPayload payload secret = .ok signature ↔
      ∃ text, c.encoded payload = .ok text ∧ c.hmac secret text = signature := by
  simp only [signPayload, bind_eq_ok, Except.ok.injEq]

theorem exists_signPayload (secret : String) (h : canonicalStringifyReturns 11 payload = true) :
    ∃ signature, c.signPayload payload secret = .ok signature := by
  rw [signPayload, encoded, canonicalStringify, canonicalAt_eq h]
  exact ⟨_, rfl⟩

section

variable (h : c.signPayload payload secret = .ok signature)
include h

/-- The signature of a value is accepted for those that have the same one. -/
theorem verifySignature_iff {payload' : JsTree} :
    c.verifySignature payload' signature secret = true ↔
      c.signPayload payload' secret = .ok signature := by
  obtain ⟨text, -, rfl⟩ := signPayload_eq_ok.1 h
  rw [verifySignature, signPayload_eq_ok]
  cases c.encoded payload' with
  | ok text' =>
    rw [c.hmacVerify_iff secret text' text]
    exact ⟨fun h ↦ ⟨text', rfl, h.symm⟩, fun ⟨_, rfl, h⟩ ↦ h.symm⟩
  | error message => exact ⟨fun h ↦ (Bool.false_ne_true h).elim, by rintro ⟨_, ⟨⟩, _⟩⟩

/-- The signature of a value is accepted for it. -/
theorem verifySignature_signPayload : c.verifySignature payload signature secret = true :=
  (verifySignature_iff h).2 h

theorem signPayload_ne : signature ≠ "" := by
  obtain ⟨text, -, rfl⟩ := signPayload_eq_ok.1 h
  exact c.hmac_ne secret text

end

end Crypto

/-! ### Sample values -/

/-- The start of a text, as far as it can stand in a signature, after a mark. -/
def transparentSignature (text : String) : String :=
  String.ofList ('s' :: (text.toList.filter isBase64).take 10)

/-- Primitives that hide next to nothing: only the name `n2` with the secret `s` has a digest of its
own, and a signature is what can be kept of the text. -/
def Crypto.transparent : Crypto where
  numbers := decimal
  sha256 text := if text = "\x22n2:s\x22" then "f2" else "f1"
  hmac _ text := transparentSignature text
  hmacVerify _ text signature := signature == transparentSignature text
  sha256_hex := by
    intro text
    split <;> exact List.all_eq_true.1 rfl
  sha256_ne := by
    intro text
    split <;> decide
  sha256_size := by
    intro text
    split <;> decide
  hmac_base64 := by
    intro secret text c hc
    rw [transparentSignature, String.toList_ofList] at hc
    rcases List.mem_cons.1 hc with rfl | hc
    · rfl
    · exact (List.mem_filter.1 (List.mem_of_mem_take hc)).2
  hmac_ne := by
    intro secret text h
    have hchars := congrArg String.toList h
    rw [transparentSignature, String.toList_ofList] at hchars
    cases hchars
  hmac_size := by
    intro secret text
    have hlength := List.length_take_le 10 (text.toList.filter isBase64)
    refine (utf8ByteSize_ofList_le _).trans ?_
    rw [List.length_cons]
    omega
  hmacVerify_iff := by
    intro secret text text'
    rw [beq_iff_eq]

end Core
