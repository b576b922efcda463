import CounterTerrorist.Foundations.Scanning

/-!
# Patterns and replacement

A pattern is given by what it leaves of a text: the rests after its matches at the start, the
preferred one first. So a backtracking matcher is the list monad, and the match is the head of the
list. `replaceAll` goes through a text from left to right and replaces every match; it is what
`replace` does for a regular expression with the flag `g`, as long as no match is empty.
-/

namespace Patterns

variable {S : Type*}

/-- A pattern: the rests of a text after its matches. -/
abbrev Pattern (S : Type*) := List S → List (List S)

/-- One symbol of a class. -/
def one (cls : S → Bool) : Pattern S
  | [] => []
  | c :: cs => if cls c then [cs] else []

/-- One pattern after the other. -/
def seq (p q : Pattern S) : Pattern S := fun text ↦ (p text).flatMap q

/-- A pattern or nothing. -/
def opt (p : Pattern S) : Pattern S := fun text ↦ p text ++ [text]

/-- At most `n` times a pattern, as often as possible. -/
def upTo : ℕ → Pattern S → Pattern S
  | 0, _ => fun text ↦ [text]
  | n + 1, p => opt (seq p (upTo n p))

/-- Any number of times a pattern that is never empty, as often as possible. -/
def star (p : Pattern S) : Pattern S := fun text ↦ upTo text.length p text

/-- At least once a pattern that is never empty. -/
def plus (p : Pattern S) : Pattern S := seq p (star p)

/-- Between one and `n + 1` times a pattern. -/
def oneTo (n : ℕ) (p : Pattern S) : Pattern S := seq p (upTo n p)

/-- Exactly `n` times a pattern. -/
def times : ℕ → Pattern S → Pattern S
  | 0, _ => fun text ↦ [text]
  | n + 1, p => seq p (times n p)

/-- One of several patterns. -/
def alt (ps : List (Pattern S)) : Pattern S := fun text ↦ ps.flatMap fun p ↦ p text

/-- A match of a whole text. -/
def full (p : Pattern S) (text : List S) : Bool := (p text).any (·.isEmpty)

/-- A fixed text. -/
def literal [DecidableEq S] (key : List S) : Pattern S := fun text ↦
  if key <+: text then [text.drop key.length] else []

/-- Replace the matches; the number counts the symbols of the last match that are still to come. -/
def replaceFrom (p : Pattern S) (rep : List S) : ℕ → List S → List S
  | _, [] => []
  | n + 1, _ :: cs => replaceFrom p rep n cs
  | 0, c :: cs =>
    match p (c :: cs) with
    | [] => c :: replaceFrom p rep 0 cs
    | rest :: _ => rep ++ replaceFrom p rep (cs.length - rest.length) cs

/-- Replace every match. -/
def replaceAll (p : Pattern S) (rep text : List S) : List S := replaceFrom p rep 0 text

end Patterns
