import CounterTerrorist.Foundations.Run

/-!
# How a shell reads a text

A POSIX shell first splits a text into words and operators and then puts commands together from
them. Here are both, for the texts in which nothing is expanded.

## Token recognition

The splitting is an automaton that sees one character at a time (`step`). It remembers the tokens
that are complete and the token that is not (`Mode`). A word keeps for each of its characters
whether it was quoted, by single quotes or by a backslash, since only the others can have a meaning
of their own. An operator is as long as it can be. Whatever would need more than that is refused:
the three characters that begin an expansion or a quotation with expansions in it, comments,
here-documents, and a line that goes on after a backslash.

## Commands

`read` goes on to the commands of a list with `&&`, with their arguments and the targets of their
output redirections, as they are after quote removal. Every other operator is refused, and so is a
word in which an unquoted character asks for the expansion of a home directory or of a pattern for
file names, a command that begins with a reserved word, and an assignment.

## Quotation

A text can be passed on in single quotes if each quote in it is written `'\''`: the automaton comes
back to where it was, with the text added to the word (`run_escape`).
-/

namespace Shell

open Machine List Option

/-! ### Tokens -/

/-- The operators, but for those of here-documents. -/
inductive Operator
  | andIf | orIf | dsemi | lessAnd | lessGreat | greatAnd | dgreat | clobber
  | amp | pipe | semi | less | great | lparen | rparen | newline
  deriving DecidableEq, Repr

/-- The operator that a character begins. -/
def Operator.ofChar : Char → Option Operator
  | '&' => some .amp
  | '|' => some .pipe
  | ';' => some .semi
  | '<' => some .less
  | '>' => some .great
  | '\x28' => some .lparen
  | '\x29' => some .rparen
  | '\n' => some .newline
  | _ => none

/-- The operator that a character makes of another. -/
def Operator.extend : Operator → Char → Option Operator
  | .amp, '&' => some .andIf
  | .pipe, '|' => some .orIf
  | .semi, ';' => some .dsemi
  | .less, '&' => some .lessAnd
  | .less, '>' => some .lessGreat
  | .great, '&' => some .greatAnd
  | .great, '>' => some .dgreat
  | .great, '|' => some .clobber
  | _, _ => none

/-- A character of a word. -/
inductive Symbol
  | bare (c : Char)
  | quoted (c : Char)
  deriving DecidableEq, Repr

/-- A word. -/
abbrev Word := List Symbol

/-- A word without quotes. -/
def bareWord (text : List Char) : Word := text.map .bare

/-- A word all of which is quoted. -/
def quotedWord (text : List Char) : Word := text.map .quoted

/-- Words, the numbers in front of redirections, and operators. -/
inductive Token
  | word (w : Word)
  | ioNumber (w : Word)
  | operator (o : Operator)
  deriving DecidableEq, Repr

/-! ### Token recognition -/

/-- What is under way: nothing, an operator, or a word outside of quotes, in single quotes, or after
a backslash. -/
inductive Mode
  | blank
  | operator (o : Operator)
  | word (w : Word)
  | single (w : Word)
  | escape (w : Word)
  deriving DecidableEq, Repr

/-- The tokens so far, and what is under way. -/
structure Reader where
  tokens : List Token
  mode : Mode
  deriving DecidableEq, Repr

/-- Blanks. -/
def isBlank (c : Char) : Bool := c == ' ' || c == '\t'

/-- The characters that end a word. -/
def separates (c : Char) : Bool := isBlank c || (Operator.ofChar c).isSome

/-- A character outside of quotes that belongs to a word. -/
def wordChar (w : Word) (c : Char) : Option Mode :=
  if c = '\x27' then some (.single w) else
  if c = '\x5c' then some (.escape w) else
  -- a dollar sign, a back quote, a double quote
  if c = '$' ∨ c = '\x60' ∨ c = '\x22' then none else
  some (.word (w ++ [.bare c]))

/-- A character that begins a token, or none. -/
def beginToken (c : Char) : Option Mode :=
  if isBlank c then some .blank else
  match Operator.ofChar c with
  | some o => some (.operator o)
  | none => if c = '#' then none else wordChar [] c

/-- A word that ends with a character after it. -/
def endWord (w : Word) (c : Char) : Token :=
  if (c = '<' ∨ c = '>') ∧ w ≠ [] ∧
      (w.all fun | .bare d => d.isDigit | .quoted _ => false) = true then .ioNumber w else .word w

/-- One character. -/
def step : Reader → Char → Option Reader
  | ⟨tokens, .blank⟩, c => (beginToken c).map (⟨tokens, ·⟩)
  | ⟨tokens, .operator o⟩, c =>
    match o.extend c with
    | some o' => some ⟨tokens, .operator o'⟩
    | none =>
      -- a here-document
      if o = .less ∧ c = '<' then none else
      (beginToken c).map (⟨tokens ++ [.operator o], ·⟩)
  | ⟨tokens, .word w⟩, c =>
    if separates c then (beginToken c).map (⟨tokens ++ [endWord w c], ·⟩)
    else (wordChar w c).map (⟨tokens, ·⟩)
  | ⟨tokens, .single w⟩, c =>
    some ⟨tokens, if c = '\x27' then .word w else .single (w ++ [.quoted c])⟩
  | ⟨tokens, .escape w⟩, c =>
    -- a line that goes on
    if c = '\n' then none else some ⟨tokens, .word (w ++ [.quoted c])⟩

/-- The tokens at the end of a text; a quotation must have ended. -/
def Reader.finish (r : Reader) : Option (List Token) :=
  match r.mode with
  | .blank => some r.tokens
  | .operator o => some (r.tokens ++ [.operator o])
  | .word w => some (r.tokens ++ [.word w])
  | .single _ | .escape _ => none

/-- The tokens of a text. -/
def split (text : List Char) : Option (List Token) :=
  (run step ⟨[], .blank⟩ text).bind Reader.finish

/-! ### Commands -/

/-- A command: its name and arguments, and the files to which its output goes. -/
structure Command where
  argv : List (List Char)
  output : List (List Char)
  deriving DecidableEq, Repr

/-- The character. -/
def Symbol.char : Symbol → Char
  | .bare c | .quoted c => c

/-- An unquoted character for which a word is expanded. -/
def Symbol.expands : Symbol → Bool
  | .bare c => c == '~' || c == '*' || c == '?' || c == '\x5b'
  | .quoted _ => false

/-- The text of a word that is not expanded. -/
def field (w : Word) : Option (List Char) :=
  if w.any Symbol.expands then none else some (w.map Symbol.char)

/-- The reserved words. -/
def reserved : List Word :=
  ["!", "\x7b", "\x7d", "case", "do", "done", "elif", "else", "esac", "fi", "for", "if", "in",
    "then", "until", "while"].map fun text ↦ bareWord text.toList

/-- Give a command one more word. -/
def Command.add (cmd : Command) (w : Word) : Option Command :=
  if cmd.argv = [] ∧ (.bare '=' ∈ w ∨ w ∈ reserved) then none else
  (field w).map fun text ↦ { cmd with argv := cmd.argv ++ [text] }

/-- The commands of a list with `&&`, the first of which is under way. -/
def andList : Command → List Token → Option (List Command)
  | cmd, [] => if cmd.argv = [] then none else some [cmd]
  | cmd, .word w :: tokens => (cmd.add w).bind fun cmd ↦ andList cmd tokens
  | cmd, .operator .great :: .word w :: tokens =>
    (field w).bind fun target ↦ andList { cmd with output := cmd.output ++ [target] } tokens
  | cmd, .operator .andIf :: tokens =>
    if cmd.argv = [] then none else (andList ⟨[], []⟩ tokens).map (cmd :: ·)
  | _, _ => none

/-- The commands of a text. -/
def read (text : List Char) : Option (List Command) := (split text).bind (andList ⟨[], []⟩)

/-! ### Words without quotes -/

/-- The characters that may mean something else than themselves. -/
def special : List Char :=
  [' ', '\t', '\n', '&', '|', ';', '<', '>', '\x28', '\x29', '\x27', '\x5c', '$', '\x60', '\x22',
    '#', '~', '*', '?', '\x5b']

variable {c : Char} {text : List Char} {tokens : List Token} {w : Word}

theorem ofChar_eq_none (h : c ∉ special) : Operator.ofChar c = none := by
  unfold Operator.ofChar
  split
  case h_9 => rfl
  all_goals exact absurd (by decide) h

theorem isBlank_eq_false (h : c ∉ special) : isBlank c = false := by
  rw [isBlank, Bool.or_eq_false_iff, beq_eq_false_iff_ne, beq_eq_false_iff_ne]
  exact ⟨fun hc ↦ h (hc ▸ by decide), fun hc ↦ h (hc ▸ by decide)⟩

/-- Any other character continues a word. -/
theorem wordChar_eq (h : c ∉ special) (w : Word) :
    wordChar w c = some (.word (w ++ [.bare c])) := by
  have hne {d : Char} (hd : d ∈ special) : c ≠ d := fun hc ↦ h (hc ▸ hd)
  rw [wordChar, if_neg (hne (by decide)), if_neg (hne (by decide)), if_neg]
  rintro (hc | hc | hc) <;> exact hne (by decide) hc

theorem beginToken_eq (h : c ∉ special) : beginToken c = some (.word [.bare c]) := by
  have hhash : c ≠ '#' := fun hc ↦ h (hc ▸ by decide)
  simp only [beginToken, isBlank_eq_false h, ofChar_eq_none h, if_false, hhash]
  exact wordChar_eq h []

/-- Other characters go on with a word. -/
theorem run_bare (h : ∀ c ∈ text, c ∉ special) :
    run step ⟨tokens, .word w⟩ text = some ⟨tokens, .word (w ++ bareWord text)⟩ := by
  induction text generalizing w with
  | nil => rw [bareWord, map_nil, append_nil, run]
  | cons c cs ih =>
    obtain ⟨hc, hcs⟩ := forall_mem_cons.1 h
    have hstep : step ⟨tokens, .word w⟩ c = some ⟨tokens, .word (w ++ [.bare c])⟩ := by
      simp only [step, separates, isBlank_eq_false hc, ofChar_eq_none hc, isSome_none,
        Bool.or_false, Bool.false_eq_true, if_false, wordChar_eq hc, map_some]
    rw [run, hstep, bind_some, ih hcs, bareWord, bareWord, append_assoc]
    rfl

/-- Other characters are a word. -/
theorem run_blank_bare (hne : text ≠ []) (h : ∀ c ∈ text, c ∉ special) :
    run step ⟨tokens, .blank⟩ text = some ⟨tokens, .word (bareWord text)⟩ := by
  obtain ⟨c, cs, rfl⟩ := exists_cons_of_ne_nil hne
  obtain ⟨hc, hcs⟩ := forall_mem_cons.1 h
  rw [run, step, beginToken_eq hc, map_some, bind_some, run_bare hcs]
  rfl

/-! ### Quotation -/

/-- A character within single quotes; a quote ends them, is quoted by a backslash, and begins them
again. -/
def escapeChar (c : Char) : List Char :=
  if c = '\x27' then ['\x27', '\x5c', '\x27', '\x27'] else [c]

/-- An escaped character is added to the word. -/
theorem run_escapeChar (c : Char) :
    run step ⟨tokens, .single w⟩ (escapeChar c) = some ⟨tokens, .single (w ++ [.quoted c])⟩ := by
  by_cases hc : c = '\x27'
  · subst hc
    rfl
  · simp only [escapeChar, hc, if_false, run, step, bind_some]

/-- An escaped text within single quotes is that text. -/
theorem run_escape (text : List Char) : run step ⟨tokens, .single w⟩ (text.flatMap escapeChar) =
      some ⟨tokens, .single (w ++ quotedWord text)⟩ := by
  induction text generalizing w with
  | nil => rw [quotedWord, map_nil, append_nil, flatMap_nil, run]
  | cons c cs ih =>
    rw [flatMap_cons, run_append, run_escapeChar, bind_some, ih, quotedWord, append_assoc]
    rfl

/-! ### Fields -/

/-- Quote removal gives the text back. -/
theorem field_quotedWord (text : List Char) : field (quotedWord text) = some text := by
  have hexpands : (quotedWord text).any Symbol.expands = false := by
    simp [quotedWord, Symbol.expands]
  rw [field, hexpands, quotedWord, List.map_map]
  exact congrArg some (List.map_id text)

theorem field_bareWord (h : ∀ c ∈ text, c ∉ special) : field (bareWord text) = some text := by
  have hexpands : (bareWord text).any Symbol.expands = false := by
    simp only [bareWord, List.any_map, List.any_eq_false, Function.comp_apply, Symbol.expands,
      Bool.or_eq_true, beq_iff_eq]
    rintro c hc (((hchar | hchar) | hchar) | hchar) <;> exact h c hc (hchar ▸ by decide)
  rw [field, hexpands, bareWord, List.map_map]
  exact congrArg some (List.map_id text)

end Shell
