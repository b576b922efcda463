import CounterTerrorist.Core.JsText
import Mathlib.Data.List.Forall2
import Mathlib.Data.List.TakeWhile
import Mathlib.Tactic.IntervalCases

/-!
# `expandIpv6`

The groups of an IPv6 address, from its text. The text may leave out a run of zeros (`::`), end in
an IPv4 address, and have a zone (`%eth0`). The IPv4 address at the end is replaced by two groups in
hexadecimal notation, wherever it starts; what remains is split into groups.

A text that is accepted has colons (`two_le_count`), and no period before the first of them
(`groupsOf_eq_none`). So it is never taken for an IPv4 address or a host name.
-/

namespace Network

open Core List Option Text

/-! ### Numbers -/

/-- `\d+`. -/
def isDigits (text : Text) : Bool := text ≠ [] && text.all Char.isDigit

/-- Four numbers with periods between them. -/
structure Quad where
  a : ℕ
  b : ℕ
  c : ℕ
  d : ℕ
deriving Repr, DecidableEq

/-- `/^(\d+)\.(\d+)\.(\d+)\.(\d+)$/`, and what the parts are as numbers. -/
def quad (text : Text) : Option Quad :=
  match Text.split text '.' with
  | [a, b, c, d] =>
    if isDigits a && isDigits b && isDigits c && isDigits d then
      some ⟨Nat.ofDigitChars 10 a 0, Nat.ofDigitChars 10 b 0, Nat.ofDigitChars 10 c 0,
        Nat.ofDigitChars 10 d 0⟩
    else none
  | _ => none

/-- `/(\d+)\.(\d+)\.(\d+)\.(\d+)$/`: the first place from which on the text is a quad, and what is
before it. -/
def trailingQuad : Text → Option (Text × Quad)
  | [] => none
  | c :: text =>
    match quad (c :: text) with
    | some q => some ([], q)
    | none => (trailingQuad text).map fun (before, q) ↦ (c :: before, q)

/-- `toString(16)`. -/
def hex (n : ℕ) : Text := Nat.toDigits 16 n

/-- The value of a hexadecimal digit. -/
def hexValue (c : Char) : Option ℕ :=
  if c.isDigit then some (c.toNat - 48)
  else if 'a' ≤ c ∧ c ≤ 'f' then some (c.toNat - 87)
  else none

/-- `/^[0-9a-f]{1,4}$/`. -/
def isGroup (text : Text) : Bool := text ≠ [] && text.length ≤ 4 && text.all (hexValue · |>.isSome)

/-- `parseInt(g, 16)`. -/
def parseGroup (text : Text) : ℕ := text.foldl (fun n c ↦ 16 * n + (hexValue c).getD 0) 0

/-! ### Groups -/

/-- `split("::")`. -/
def splitDouble : Text → List Text
  | [] => [[]]
  | ':' :: ':' :: text => [] :: splitDouble text
  | c :: text => (splitDouble text).modifyHead (c :: ·)

/-- `parse`. -/
def parse (part : Text) : Option (List ℕ) :=
  if part = [] then some []
  else (Text.split part ':').mapM fun g ↦ if isGroup g then some (parseGroup g) else none

/-- The groups of a text in which there is no IPv4 address any more. -/
def groupsOf (text : Text) : Option (List ℕ) :=
  match splitDouble text with
  | [whole] => (parse whole).filter (·.length = 8)
  | [front, back] =>
    (parse front).bind fun head ↦ (parse back).bind fun tail ↦
      if 8 < head.length + tail.length then none
      else some (head ++ List.replicate (8 - head.length - tail.length) 0 ++ tail)
  | _ => none

/-- The text with the IPv4 address at its end as two groups. -/
def replaceQuad (text : Text) : Option Text :=
  match trailingQuad text with
  | none => some text
  | some (before, q) =>
    if 255 < q.a ∨ 255 < q.b ∨ 255 < q.c ∨ 255 < q.d then none
    else some (before ++ (hex (q.a * 256 + q.b) ++ ':' :: hex (q.c * 256 + q.d)))

/-- `expandIpv6`. -/
def expandIpv6 (addr : Text) : Option (List ℕ) :=
  (replaceQuad (addr.takeWhile (· ≠ '%'))).bind groupsOf

/-! ### Colons -/

/-- There is one part more than separators. -/
theorem length_split (text : Text) (separator : Char) :
    (split text separator).length = text.count separator + 1 := by
  induction text with
  | nil => rfl
  | cons c text ih =>
    rw [split, splitOn_cons_eq_if_modifyHead, count_cons]
    split
    · rw [length_cons, ← split, ih]
    · rw [length_modifyHead, ← split, ih]

theorem forall₂_of_mapM_eq_some {α β : Type} {f : α → Option β} {l : List α} {l' : List β}
    (h : l.mapM f = some l') : Forall₂ (fun x y ↦ f x = some y) l l' := by
  induction l generalizing l' with
  | nil =>
    cases h
    exact .nil
  | cons x l ih =>
    rw [mapM_cons] at h
    obtain ⟨y, hy, h⟩ := bind_eq_some_iff.1 h
    obtain ⟨ys, hys, h⟩ := bind_eq_some_iff.1 h
    cases h
    exact .cons hy (ih hys)

variable {groups : List ℕ} {c : Char} {front : Text} {q : Quad}

/-- There are at most as many groups as parts. -/
theorem length_le_of_parse {part : Text} (h : parse part = some groups) :
    groups.length ≤ part.count ':' + 1 := by
  rw [parse] at h
  split at h
  · cases h
    exact Nat.zero_le _
  · exact Nat.le_of_eq ((forall₂_of_mapM_eq_some h).length_eq.symm.trans (length_split part ':'))

/-- A character before the first part. -/
theorem splitDouble_cons_of_ne (hc : c ≠ ':') (text : Text) :
    splitDouble (c :: text) = (splitDouble text).modifyHead (c :: ·) := by
  rw [splitDouble]
  rintro text' rfl
  exact absurd rfl hc

theorem splitDouble_ne_nil (text : Text) : splitDouble text ≠ [] := by
  induction text using splitDouble.induct with
  | case1 | case2 text ih => exact cons_ne_nil _ _
  | case3 c text h ih =>
    rw [splitDouble]
    · exact fun hnil ↦ ih (modifyHead_eq_nil_iff.1 hnil)
    · exact h

theorem intercalate_modifyHead (c : Char) {parts : List Text} (h : parts ≠ []) (sep : Text) :
    sep.intercalate (parts.modifyHead (c :: ·)) = c :: sep.intercalate parts := by
  obtain ⟨part, parts, rfl⟩ := exists_cons_of_ne_nil h
  cases parts with
  | nil | cons next parts => simp

/-- What was split can be put together. -/
theorem intercalate_splitDouble (text : Text) :
    [':', ':'].intercalate (splitDouble text) = text := by
  induction text using splitDouble.induct with
  | case1 => rfl
  | case2 text ih =>
    rw [splitDouble, intercalate_cons_of_ne_nil (splitDouble_ne_nil text), ih]
    rfl
  | case3 c text h ih =>
    rw [splitDouble]
    · rw [intercalate_modifyHead c (splitDouble_ne_nil text), ih]
    · exact h

/-- A text with groups has two colons. -/
theorem two_le_count {text : Text} (h : groupsOf text = some groups) : 2 ≤ text.count ':' := by
  have htext := intercalate_splitDouble text
  rw [groupsOf] at h
  split at h
  case h_1 whole hsplit =>
    rw [hsplit, intercalate_singleton] at htext
    obtain ⟨hparse, hlen⟩ := filter_eq_some_iff.1 h
    have := length_le_of_parse hparse
    rw [of_decide_eq_true hlen, htext] at this
    omega
  case h_2 front back hsplit =>
    rw [hsplit, intercalate_cons_cons] at htext
    rw [← htext]
    simp only [count_append]
    have : [':', ':'].count ':' = 2 := by decide
    omega
  case h_3 => cases h

/-- A text before the first part. -/
theorem split_append_of_notMem {separator : Char} (h : separator ∉ front) (text : Text) :
    split (front ++ text) separator = (split text separator).modifyHead (front ++ ·) := by
  induction front with
  | nil =>
    obtain ⟨part, parts, hsplit⟩ := exists_cons_of_ne_nil (splitOn_ne_nil separator text)
    rw [nil_append, split, hsplit]
    rfl
  | cons c front ih =>
    rw [mem_cons, not_or] at h
    have hc : (c == separator) = false := beq_false_of_ne (Ne.symm h.1)
    rw [cons_append, split, splitOn_cons_eq_if_modifyHead, hc, ← split, ih h.2]
    simp [Function.comp_def]

theorem splitDouble_append_of_notMem (h : ':' ∉ front) (text : Text) :
    splitDouble (front ++ text) = (splitDouble text).modifyHead (front ++ ·) := by
  induction front with
  | nil =>
    obtain ⟨part, parts, hsplit⟩ := exists_cons_of_ne_nil (splitDouble_ne_nil text)
    rw [nil_append, hsplit]
    rfl
  | cons c front ih =>
    rw [mem_cons, not_or] at h
    rw [cons_append, splitDouble_cons_of_ne (Ne.symm h.1), ih h.2]
    simp [Function.comp_def]

/-- A part with a period before its first colon has no groups. -/
theorem parse_eq_none (h : ':' ∉ front) (hdot : '.' ∈ front) (text : Text) :
    parse (front ++ text) = none := by
  obtain ⟨part, parts, hsplit⟩ := exists_cons_of_ne_nil (splitOn_ne_nil ':' text)
  have hgroup : isGroup (front ++ part) = false := by
    have hall : (front ++ part).all (hexValue · |>.isSome) = false := by
      rw [List.all_eq_false]
      exact ⟨'.', mem_append_left _ hdot, by decide⟩
    rw [isGroup, hall, Bool.and_false]
  have hne : front ++ text ≠ [] := append_ne_nil_of_left_ne_nil (ne_nil_of_mem hdot) text
  rw [parse, if_neg hne, split_append_of_notMem h, split, hsplit]
  simp [hgroup]

/-- Nor has a text. -/
theorem groupsOf_eq_none (h : ':' ∉ front) (hdot : '.' ∈ front) (text : Text) :
    groupsOf (front ++ text) = none := by
  rw [groupsOf, splitDouble_append_of_notMem h]
  obtain ⟨part, parts, hsplit⟩ := exists_cons_of_ne_nil (splitDouble_ne_nil text)
  rw [hsplit]
  cases parts with
  | nil => simp [parse_eq_none h hdot]
  | cons next parts =>
    cases parts with
    | nil => simp [parse_eq_none h hdot]
    | cons => rfl

/-! ### Quads -/

/-- A quad has digits and periods only. -/
theorem mem_of_quad {text : Text} (h : quad text = some q) (hc : c ∈ text) :
    c.isDigit = true ∨ c = '.' := by
  rw [quad] at h
  split at h
  case h_1 w x y z hsplit =>
    split at h
    case isTrue hdig =>
      have htext : ['.'].intercalate (split text '.') = text := intercalate_splitOn '.'
      rw [← htext, hsplit] at hc
      simp only [isDigits, Bool.and_eq_true, List.all_eq_true] at hdig
      simp only [intercalate_cons_cons, intercalate_singleton, mem_append, mem_singleton] at hc
      obtain ⟨⟨⟨⟨-, hw⟩, -, hx⟩, -, hy⟩, -, hz⟩ := hdig
      rcases hc with (hc | hc) | (hc | hc) | (hc | hc) | hc
      · exact .inl (hw c hc)
      · exact .inr hc
      · exact .inl (hx c hc)
      · exact .inr hc
      · exact .inl (hy c hc)
      · exact .inr hc
      · exact .inl (hz c hc)
    case isFalse => cases h
  case h_2 => cases h

theorem colon_notMem_of_quad {text : Text} (h : quad text = some q) : ':' ∉ text := by
  intro hc
  rcases mem_of_quad h hc with hdigit | hdot
  · exact absurd hdigit (by decide)
  · exact absurd hdot (by decide)

/-- What is before a trailing quad begins the text. -/
theorem exists_of_trailingQuad {text before : Text} (h : trailingQuad text = some (before, q)) :
    ∃ rest, text = before ++ rest := by
  induction text generalizing before with
  | nil => cases h
  | cons c text ih =>
    rw [trailingQuad] at h
    split at h
    · cases h
      exact ⟨c :: text, rfl⟩
    · obtain ⟨⟨before', q'⟩, hrest, heq⟩ := map_eq_some_iff.1 h
      cases heq
      obtain ⟨rest, rfl⟩ := ih hrest
      exact ⟨rest, rfl⟩

/-! ### Hexadecimal notation -/

theorem hexValue_digitChar {d : ℕ} (h : d < 16) : hexValue d.digitChar = some d := by
  interval_cases d <;> rfl

/-- The digits, from the last one on. -/
theorem hex_eq (n : ℕ) :
    hex n = if n < 16 then [n.digitChar] else hex (n / 16) ++ [(n % 16).digitChar] :=
  Nat.toDigits_eq_if (by decide)

/-- Hexadecimal digits have a value. -/
theorem isSome_of_mem_hex {n : ℕ} (h : c ∈ hex n) : (hexValue c).isSome = true := by
  induction n using Nat.strongRecOn with
  | _ n ih =>
    rw [hex_eq] at h
    split at h
    case isTrue hlt =>
      rw [mem_singleton.1 h, hexValue_digitChar hlt]
      rfl
    case isFalse hge =>
      rcases mem_append.1 h with h | h
      · exact ih (n / 16) (Nat.div_lt_self (by omega) (by decide)) h
      · rw [mem_singleton.1 h, hexValue_digitChar (Nat.mod_lt n (by decide))]
        rfl

theorem colon_notMem_hex (n : ℕ) : ':' ∉ hex n := fun h ↦
  absurd (isSome_of_mem_hex h) (by decide)

/-- A group is read back. -/
theorem parseGroup_hex (n : ℕ) : parseGroup (hex n) = n := by
  induction n using Nat.strongRecOn with
  | _ n ih =>
    rw [hex_eq]
    split
    case isTrue hlt =>
      rw [parseGroup, foldl_cons, hexValue_digitChar hlt]
      exact Nat.zero_add n
    case isFalse hge =>
      have hhigh := ih (n / 16) (Nat.div_lt_self (by omega) (by decide))
      rw [parseGroup] at hhigh ⊢
      rw [foldl_append, hhigh, foldl_cons, hexValue_digitChar (Nat.mod_lt n (by decide))]
      exact Nat.div_add_mod n 16

/-! ### What is accepted -/

/-- An address that is accepted has a beginning with a colon in it that is left as it is. -/
theorem exists_beginning {addr : Text} (h : expandIpv6 addr = some groups) :
    ∃ before text, before <+: addr ∧ before <+: text ∧ ':' ∈ before ∧
      groupsOf text = some groups := by
  obtain ⟨text, hrepl, hgrp⟩ := bind_eq_some_iff.1 h
  have hcnt := two_le_count hgrp
  have haddr : addr.takeWhile (· ≠ '%') <+: addr := takeWhile_prefix _
  rw [replaceQuad] at hrepl
  split at hrepl
  case h_1 =>
    cases hrepl
    exact ⟨_, _, haddr, prefix_rfl, count_pos_iff.1 (by omega), hgrp⟩
  case h_2 before q htrailing =>
    split at hrepl
    · cases hrepl
    · cases hrepl
      obtain ⟨rest, hrest⟩ := exists_of_trailingQuad htrailing
      rw [count_append, count_append, count_cons,
        count_eq_zero.2 (colon_notMem_hex _), count_eq_zero.2 (colon_notMem_hex _)]
        at hcnt
      refine ⟨before, _, ?_, prefix_append _ _, count_pos_iff.1 ?_, hgrp⟩
      · exact (hrest ▸ prefix_append before rest).trans haddr
      · simp only [beq_self_eq_true, if_true] at hcnt
        omega

/-! ### IPv4 addresses as IPv6 addresses -/

/-- Four numbers, with periods. -/
def dotted (a b c d : ℕ) : Text := ['.'].intercalate ([a, b, c, d].map (Nat.toDigits 10))

theorem isDigits_toDigits (n : ℕ) : isDigits (Nat.toDigits 10 n) = true := by
  have hne : Nat.toDigits 10 n ≠ [] := Nat.toDigits_ne_nil
  rw [isDigits, decide_eq_true hne, Bool.true_and, List.all_eq_true]
  exact fun c hc ↦ Nat.isDigit_of_mem_toDigits (by decide) (by decide) hc

/-- The parts of a quad. -/
theorem split_dotted (a b c d : ℕ) :
    split (dotted a b c d) '.' = [a, b, c, d].map (Nat.toDigits 10) := by
  refine splitOn_intercalate '.' (fun l hl hdot ↦ ?_) (by simp)
  obtain ⟨n, -, rfl⟩ := List.mem_map.1 hl
  exact absurd (Nat.isDigit_of_mem_toDigits (by decide) (by decide) hdot) (by decide)

/-- The numbers are read back. -/
theorem quad_dotted (a b c d : ℕ) : quad (dotted a b c d) = some ⟨a, b, c, d⟩ := by
  rw [quad, split_dotted]
  simp [isDigits_toDigits]

/-- An IPv4 address. -/
structure Ipv4 where
  a : Fin 256
  b : Fin 256
  c : Fin 256
  d : Fin 256
deriving Repr, DecidableEq

namespace Ipv4

/-- The address with periods. -/
def text (q : Ipv4) : Text := dotted q.a q.b q.c q.d

/-- The first half of the address, as a group. -/
def high (q : Ipv4) : ℕ := (q.a : ℕ) * 256 + (q.b : ℕ)

/-- The second half of the address, as a group. -/
def low (q : Ipv4) : ℕ := (q.c : ℕ) * 256 + (q.d : ℕ)

/-- The groups of the IPv4-mapped address. -/
def mapped (q : Ipv4) : List ℕ := [0, 0, 0, 0, 0, 0xffff, q.high, q.low]

theorem quad_text (q : Ipv4) : quad q.text = some ⟨q.a, q.b, q.c, q.d⟩ := quad_dotted _ _ _ _

/-- Groups have no `::` between them. -/
theorem splitDouble_intercalate {gs : List Text} (h : ∀ g ∈ gs, g ≠ [] ∧ ':' ∉ g) :
    splitDouble ([':'].intercalate gs) = [[':'].intercalate gs] := by
  induction gs with
  | nil => rfl
  | cons g gs ih =>
    have hg := h g mem_cons_self
    have hgs := fun g hmem ↦ h g (mem_cons_of_mem _ hmem)
    cases gs with
    | nil =>
      rw [intercalate_singleton, ← append_nil g, splitDouble_append_of_notMem hg.2]
      rfl
    | cons next gs =>
      -- behind the colon comes the next group, which is not empty
      have hcolon : splitDouble (':' :: [':'].intercalate (next :: gs)) =
          [':' :: [':'].intercalate (next :: gs)] := by
        obtain ⟨hnext, hnot⟩ := h next (by simp)
        obtain ⟨c, next, rfl⟩ := exists_cons_of_ne_nil hnext
        rw [intercalate_cons_cons_left] at ih ⊢
        rw [splitDouble, ih hgs]
        · rfl
        · rintro text - hcons
          exact hnot ((List.cons.inj hcons).1 ▸ mem_cons_self)
      rw [intercalate_cons_cons, append_assoc, splitDouble_append_of_notMem hg.2,
        singleton_append, hcolon]
      rfl

theorem high_lt (q : Ipv4) : q.high < 65536 := by
  rw [high]
  omega

theorem low_lt (q : Ipv4) : q.low < 65536 := by
  rw [low]
  omega

end Ipv4

end Network
