import CounterTerrorist.Foundations.Printing
import Mathlib.Data.Int.Notation
import Mathlib.Order.Basic

/-!
# Numbers, strings and keys as text

What `JSON.stringify` prints for a number and for a string, and how JavaScript sorts strings.

How a number is printed is left to the runtime. `NumberText` has what matters: different numbers
have different texts, and the characters of a number never separate anything. A string is quoted as
the language prescribes; every quoted string says where it ends (`quote_append_inj`). Strings are
sorted by their UTF-16 code units, which is not the order of their characters.
-/

namespace Core

open Printing List

/-! ### Numbers -/

/-- The characters of a number. -/
def isNumeric (c : Char) : Bool := c.isDigit || c == '-' || c == '+' || c == '.' || c == 'e'

/-- `JSON.stringify` of a number. -/
structure NumberText where
  text : ℤ → List Char
  injective : ∀ {m n}, text m = text n → m = n
  numeric : ∀ n, ∀ c ∈ text n, isNumeric c = true
  ne_nil : ∀ n, text n ≠ []

/-- The digits of a number, with its sign. -/
def decimalText : ℤ → List Char
  | .ofNat n => Nat.toDigits 10 n
  | .negSucc n => '-' :: Nat.toDigits 10 (n + 1)

variable {n : ℕ} {c : Char} {a b : String}

/-- Different numbers have different digits. -/
theorem toDigits_injective {m : ℕ} (h : Nat.toDigits 10 m = Nat.toDigits 10 n) : m = n := by
  rw [← Nat.ofDigitChars_toDigits (b := 10) (n := m) (by decide) (by decide), h,
    Nat.ofDigitChars_toDigits (by decide) (by decide)]

theorem isDigit_of_mem_toDigits (h : c ∈ Nat.toDigits 10 n) :
    c.isDigit = true := Nat.isDigit_of_mem_toDigits (by decide) (by decide) h

/-- Integers in decimal notation. -/
def decimal : NumberText where
  text := decimalText
  injective {m n} h := by
    have hsign {k l : ℕ} : Nat.toDigits 10 k ≠ '-' :: Nat.toDigits 10 l := by
      intro h
      have := isDigit_of_mem_toDigits (n := k) (c := '-') (by rw [h]; exact List.mem_cons_self)
      cases this
    cases m with
    | ofNat m =>
      cases n with
      | ofNat n => exact congrArg Int.ofNat (toDigits_injective h)
      | negSucc n => exact absurd h hsign
    | negSucc m =>
      cases n with
      | ofNat n => exact absurd h.symm hsign
      | negSucc n =>
        have hsucc := toDigits_injective (List.cons.inj h).2
        exact congrArg Int.negSucc (Nat.succ.inj hsucc)
  numeric n c hc := by
    have hdigit {k : ℕ} (hc : c ∈ Nat.toDigits 10 k) : isNumeric c = true := by
      simp [isNumeric, isDigit_of_mem_toDigits hc]
    cases n with
    | ofNat n => exact hdigit hc
    | negSucc n =>
      rcases List.mem_cons.1 hc with rfl | hc
      · rfl
      · exact hdigit hc
  ne_nil n := by
    cases n with
    | ofNat n => exact Nat.toDigits_ne_nil
    | negSucc n => exact List.cons_ne_nil _ _

/-- A hexadecimal digit. -/
def hexDigit (n : ℕ) : Char := Char.ofNat (if n < 10 then 48 + n else 87 + n)

/-- A character inside a quoted string. -/
def escape (c : Char) : List Char :=
  if c = '\x22' then ['\x5c', '\x22']
  else if c = '\x5c' then ['\x5c', '\x5c']
  else if c = '\x08' then ['\x5c', 'b']
  else if c = '\x09' then ['\x5c', 't']
  else if c = '\x0a' then ['\x5c', 'n']
  else if c = '\x0c' then ['\x5c', 'f']
  else if c = '\x0d' then ['\x5c', 'r']
  else if c.toNat < 32 then
    ['\x5c', 'u', '0', '0', hexDigit (c.toNat / 16), hexDigit (c.toNat % 16)]
  else [c]

/-- `JSON.stringify` of a string. -/
def quote (s : String) : List Char := '\x22' :: (s.toList.flatMap escape ++ ['\x22'])

/-- The characters that are not printed as they are. -/
def escaped : List Char := '\x22' :: '\x5c' :: (List.range 32).map Char.ofNat

theorem mem_escaped_of_lt (h : c.toNat < 32) : c ∈ escaped := by
  refine mem_cons_of_mem _ (mem_cons_of_mem _ (List.mem_map.2 ⟨c.toNat, ?_, ?_⟩))
  · exact mem_range.2 h
  · exact Char.ofNat_toNat c

/-- All other characters stand for themselves. -/
theorem escape_of_notMem (h : c ∉ escaped) : escape c = [c] := by
  have hne {d : Char} (hd : d ∈ escaped) : c ≠ d := by
    rintro rfl
    exact h hd
  have hlt : ¬ c.toNat < 32 := mt mem_escaped_of_lt h
  rw [escape, if_neg (hne (by decide)), if_neg (hne (by decide)), if_neg (hne (by decide)),
    if_neg (hne (by decide)), if_neg (hne (by decide)), if_neg (hne (by decide)),
    if_neg (hne (by decide)), if_neg hlt]

/-- No escape begins another. -/
theorem eq_of_escape_isPrefix : ∀ c ∈ escaped, ∀ d ∈ escaped, escape c <+: escape d → c = d := by
  have hall : (escaped.all fun c ↦ escaped.all fun d ↦
      decide (escape c <+: escape d → c = d)) = true := by decide +kernel
  intro c hc d hd
  exact of_decide_eq_true (List.all_eq_true.1 (List.all_eq_true.1 hall c hc) d hd)

theorem head_escape : ∀ c ∈ escaped, ∃ cs, escape c = '\x5c' :: cs := by
  have hall : (escaped.all fun c ↦ (escape c).head? == some '\x5c') = true := by decide +kernel
  intro c hc
  exact head?_eq_some_iff.1 (eq_of_beq (List.all_eq_true.1 hall c hc))

/-- The escapes of two characters are told apart. -/
theorem unambiguous_escape : Unambiguous escape := by
  refine unambiguous_of_isPrefix fun c d h ↦ ?_
  by_cases hc : c ∈ escaped <;> by_cases hd : d ∈ escaped
  · exact eq_of_escape_isPrefix c hc d hd h
  · obtain ⟨cs, hcs⟩ := head_escape c hc
    rw [hcs, escape_of_notMem hd] at h
    obtain ⟨rfl, -⟩ := cons_prefix_cons.1 h
    exact absurd (by decide) hd
  · obtain ⟨ds, hds⟩ := head_escape d hd
    rw [hds, escape_of_notMem hc] at h
    obtain ⟨rfl, -⟩ := cons_prefix_cons.1 h
    exact absurd (by decide) hc
  · rw [escape_of_notMem hc, escape_of_notMem hd] at h
    exact (cons_prefix_cons.1 h).1

/-- A quoted string says where it ends. -/
theorem quote_append_inj {s t : String} {r r' : List Char} (h : quote s ++ r = quote t ++ r') :
    s = t ∧ r = r' := by
  have hstart (c : Char) : ∃ d ds, escape c = d :: ds ∧ d ≠ '\x22' := by
    by_cases hc : c ∈ escaped
    · obtain ⟨cs, hcs⟩ := head_escape c hc
      exact ⟨_, cs, hcs, by decide⟩
    · refine ⟨c, [], escape_of_notMem hc, ?_⟩
      rintro rfl
      exact hc (by decide)
  simp only [quote, cons_append, append_assoc] at h
  obtain ⟨hchars, hrest⟩ := flatMap_closed unambiguous_escape hstart (List.cons.inj h).2
  exact ⟨String.toList_inj.1 hchars, hrest⟩

/-! ### The order of keys -/

/-- The UTF-16 code units of a character. -/
def codeUnits (c : Char) : List ℕ :=
  if c.toNat < 0x10000 then [c.toNat]
  else [0xd800 + (c.toNat - 0x10000) / 0x400, 0xdc00 + (c.toNat - 0x10000) % 0x400]

/-- The UTF-16 code units of a string. -/
def utf16 (s : String) : List ℕ := s.toList.flatMap codeUnits

/-- `Array.prototype.sort` compares code units. -/
def KeyLe (a b : String) : Prop := ¬ List.Lex (· < ·) (utf16 b) (utf16 a)

instance : DecidableRel KeyLe := fun a b ↦
  @instDecidableNot _ (List.decidableLex (· < ·) (utf16 b) (utf16 a))

/-- No character is a surrogate. -/
theorem toNat_lt_or_gt (c : Char) : c.toNat < 0xd800 ∨ 0xdfff < c.toNat ∧ c.toNat < 0x110000 := by
  have hvalid := c.valid
  exact hvalid

/-- Escaped characters can be told apart. -/
theorem unambiguous_codeUnits : Unambiguous codeUnits := by
  refine unambiguous_of_isPrefix fun c d h ↦ ?_
  have hc := toNat_lt_or_gt c
  have hd := toNat_lt_or_gt d
  rw [codeUnits, codeUnits] at h
  apply Char.toNat_inj.1
  split at h <;> split at h
  · exact (cons_prefix_cons.1 h).1
  · have := (cons_prefix_cons.1 h).1
    omega
  · have := (cons_prefix_cons.1 h).1
    omega
  · obtain ⟨hhigh, h⟩ := cons_prefix_cons.1 h
    have hlow := (cons_prefix_cons.1 h).1
    omega

theorem KeyLe.total (a b : String) : KeyLe a b ∨ KeyLe b a := List.le_total (utf16 a) (utf16 b)

theorem KeyLe.trans {c : String} (hab : KeyLe a b) (hbc : KeyLe b c) : KeyLe a c :=
  List.le_trans hab hbc

/-- Different strings have different code units. -/
theorem KeyLe.antisymm (hab : KeyLe a b) (hba : KeyLe b a) : a = b := by
  have hunits : utf16 a = utf16 b := List.le_antisymm hab hba
  refine String.toList_inj.1 (flatMap_injective unambiguous_codeUnits (fun c ↦ ?_) hunits)
  rw [codeUnits]
  split <;> exact cons_ne_nil _ _

end Core
