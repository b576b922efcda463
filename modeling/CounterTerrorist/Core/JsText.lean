import Mathlib.Data.Int.Notation
import Mathlib.Data.List.Basic

/-!
# Texts

Texts are lists of characters, and these are the operations of JavaScript on them that the modules
below use.
-/

namespace Core

open List

/-- A text. -/
abbrev Text := List Char

namespace Text

/-- The characters that `trim` takes away: white space and line terminators. -/
def isSpace (c : Char) : Bool :=
  let n := c.toNat
  (9 ≤ n && n ≤ 13) || n == 0x20 || n == 0xA0 || n == 0x1680 || (0x2000 ≤ n && n ≤ 0x200A) ||
    n == 0x2028 || n == 0x2029 || n == 0x202F || n == 0x205F || n == 0x3000 || n == 0xFEFF

/-- `trim`. -/
def trim (text : Text) : Text := ((text.dropWhile isSpace).reverse.dropWhile isSpace).reverse

/-- `split`, at a character. -/
def split (text : Text) (separator : Char) : List Text := text.splitOn separator

/-- The value of a digit. -/
def digitValue (radix : ℕ) (c : Char) : Option ℕ :=
  if c.isDigit then some (c.toNat - 48)
  else if radix = 16 ∧ 'a' ≤ c ∧ c ≤ 'f' then some (c.toNat - 87)
  else if radix = 16 ∧ 'A' ≤ c ∧ c ≤ 'F' then some (c.toNat - 55)
  else none

/-- A sign, and what is after it. -/
def takeSign : Text → ℤ × Text
  | '-' :: text => (-1, text)
  | '+' :: text => (1, text)
  | text => (1, text)

/-- The radix that a number begins with, and what is after it. -/
def takeRadix : Text → ℕ × Text
  | '0' :: 'x' :: text => (16, text)
  | '0' :: 'X' :: text => (16, text)
  | text => (10, text)

/-- `parseInt` without a radix; `none` is `NaN`. It takes the digits at the start and does not care
for what is after them. Results of more than 53 bits are not rounded here. -/
def parseInt (text : Text) : Option ℤ :=
  let (sign, text) := takeSign (text.dropWhile isSpace)
  let (radix, text) := takeRadix text
  match text.takeWhile fun c ↦ (digitValue radix c).isSome with
  | [] => none
  | digits => some (sign * digits.foldl (fun n c ↦ radix * n + (digitValue radix c).getD 0) (0 : ℕ))

/-- The first part of a text is that of what stands before a separator. -/
theorem head?_split_append (text rest : Text) (separator : Char) :
    (split (text ++ separator :: rest) separator).head? = (split text separator).head? := by
  rw [split, splitOn_append_cons_self,
    head?_append_of_ne_nil _ (splitOn_ne_nil separator text), split]

variable {text part : Text} {separator : Char}

/-- Without a separator, there is one part. -/
theorem split_of_notMem (h : separator ∉ text) :
    split text separator = [text] := splitOn_eq_singleton h

theorem isInfix_intercalate {separator : Text} {parts : List Text} (h : part ∈ parts) :
    part <:+: separator.intercalate parts := by
  induction parts with
  | nil => cases h
  | cons first parts ih =>
    cases parts with
    | nil =>
      obtain rfl := mem_singleton.1 h
      exact intercalate_singleton ▸ infix_rfl
    | cons next parts =>
      rw [intercalate_cons_cons]
      rcases mem_cons.1 h with rfl | h
      · exact ⟨[], _, by rw [nil_append, append_assoc]⟩
      · exact (ih h).trans (suffix_append _ _).isInfix

/-- Parts are found in the text. -/
theorem isInfix_of_mem_split (h : part ∈ split text separator) : part <:+: text := by
  have htext : [separator].intercalate (split text separator) = text :=
    intercalate_splitOn separator
  exact htext ▸ isInfix_intercalate h

/-- A text without blanks is left alone. -/
theorem trim_of_forall (h : ∀ c ∈ text, isSpace c = false) : trim text = text := by
  have hdrop {l : Text} (hl : ∀ c ∈ l, isSpace c = false) : l.dropWhile isSpace = l := by
    cases l with
    | nil => rfl
    | cons c l => rw [dropWhile_cons_of_neg (by rw [hl c mem_cons_self]; decide)]
  rw [trim, hdrop h, hdrop fun c hc ↦ h c (mem_reverse.1 hc), reverse_reverse]

end Text

end Core
