import CounterTerrorist.Core.JsonText
import CounterTerrorist.Core.JsText

/-!
# The lines of a sidecar

A sidecar writes bytes, and `startResponseReader` gets them in chunks that may end anywhere, also
within a character. Two things are kept from one chunk to the next: what the decoder has not decoded
yet, and the line that has not ended yet.

`TextDecoder` is given as the state machine of the encoding standard, one byte at a time; it leaves
out a byte order mark at the start and replaces what is no UTF-8. Decoded with `stream`, a character
that is not complete waits for the next chunk. Otherwise it is replaced, too (`decodeAll`).

The lines do not depend on the chunks (`lines_of_stream`): they are those of the whole stream.
-/

namespace Sidecar

open Core List Text

/-! ### Decoding -/

/-- The bytes that a character still needs, the bounds for the next one, and its bits so far. -/
structure Utf8 where
  needed : ℕ
  lower : ℕ
  upper : ℕ
  codePoint : ℕ

/-- Between two characters. -/
def Utf8.start : Utf8 := ⟨0, 0x80, 0xBF, 0⟩

/-- U+FFFD. -/
def replacement : Char := '\ufffd'

/-- The first byte of a character. -/
def Utf8.lead (byte : ℕ) : Text × Utf8 :=
  if byte ≤ 0x7F then ([Char.ofNat byte], start)
  else if 0xC2 ≤ byte ∧ byte ≤ 0xDF then ([], ⟨1, 0x80, 0xBF, byte % 32⟩)
  else if 0xE0 ≤ byte ∧ byte ≤ 0xEF then
    ([], ⟨2, if byte = 0xE0 then 0xA0 else 0x80, if byte = 0xED then 0x9F else 0xBF, byte % 16⟩)
  else if 0xF0 ≤ byte ∧ byte ≤ 0xF4 then
    ([], ⟨3, if byte = 0xF0 then 0x90 else 0x80, if byte = 0xF4 then 0x8F else 0xBF, byte % 8⟩)
  else ([replacement], start)

/-- A byte. One that cannot go on with a character begins another. -/
def Utf8.next (u : Utf8) (byte : ℕ) : Text × Utf8 :=
  if u.needed = 0 then lead byte
  else if u.lower ≤ byte ∧ byte ≤ u.upper then
    let codePoint := u.codePoint * 64 + byte % 64
    if u.needed = 1 then ([Char.ofNat codePoint], start)
    else ([], ⟨u.needed - 1, 0x80, 0xBF, codePoint⟩)
  else ((replacement :: (lead byte).1), (lead byte).2)

/-- `TextDecoder`. -/
structure TextDecoder where
  utf8 : Utf8
  bomSeen : Bool

/-- `new TextDecoder()`. -/
def TextDecoder.new : TextDecoder := ⟨.start, false⟩

/-- The first character is left out if it is a byte order mark. -/
def TextDecoder.next (d : TextDecoder) (byte : UInt8) : Text × TextDecoder :=
  let (text, utf8) := d.utf8.next byte.toNat
  match d.bomSeen, text with
  | false, c :: rest => (if c = '\ufeff' then rest else c :: rest, ⟨utf8, true⟩)
  | _, _ => (text, ⟨utf8, d.bomSeen⟩)

/-- `decode(bytes, { stream: true })`. -/
def TextDecoder.decode : TextDecoder → List UInt8 → Text × TextDecoder
  | d, [] => ([], d)
  | d, byte :: bytes => ((d.next byte).1 ++ ((d.next byte).2.decode bytes).1,
      ((d.next byte).2.decode bytes).2)

/-- `new TextDecoder().decode(bytes)`. -/
def decodeAll (bytes : List UInt8) : Text :=
  (TextDecoder.new.decode bytes).1 ++
    if (TextDecoder.new.decode bytes).2.utf8.needed = 0 then [] else [replacement]

/-! ### Reading -/

/-- `length`. -/
def unitLength (text : Text) : ℕ := (text.flatMap codeUnits).length

/-- `MAX_BUFFER_SIZE`. -/
def maxBufferSize : ℕ := 10 * 1024 * 1024

/-- `MAX_LINE_LENGTH`. -/
def maxLineLength : ℕ := 1024 * 1024

/-- The variables of `startResponseReader`. -/
structure ResponseReader where
  decoder : TextDecoder
  buffer : Text

namespace ResponseReader

/-- Before the first chunk. -/
def start : ResponseReader := ⟨.new, []⟩

/-- Whether a chunk is too much for the buffer. -/
def overflows (r : ResponseReader) (value : List UInt8) : Bool :=
  decide (unitLength r.buffer + value.length > maxBufferSize)

/-- The buffer with a chunk, and the decoder after it. -/
def fill (r : ResponseReader) (value : List UInt8) : Text × TextDecoder :=
  if r.overflows value then r.decoder.decode (value.take (min value.length maxBufferSize))
  else (r.buffer ++ (r.decoder.decode value).1, (r.decoder.decode value).2)

/-- The lines that have ended in a chunk. -/
def lines (r : ResponseReader) (value : List UInt8) : List Text :=
  (Text.split (r.fill value).1 '\n').dropLast

/-- The reader after a chunk. -/
def next (r : ResponseReader) (value : List UInt8) : ResponseReader :=
  ⟨(r.fill value).2, (Text.split (r.fill value).1 '\n').getLast?.getD []⟩

/-- The line that is processed for a line, if any. -/
def process (line : Text) : Option Text :=
  if unitLength line > maxLineLength then none
  else if Text.trim line = [] then none else some (Text.trim line)

/-- The lines that are processed, for the chunks of a stream. -/
def run : ResponseReader → List (List UInt8) → List Text
  | _, [] => []
  | r, value :: values => (r.lines value).filterMap process ++ (r.next value).run values

/-- No chunk is too much for the buffer. -/
def Fits : ResponseReader → List (List UInt8) → Prop
  | _, [] => True
  | r, value :: values => r.overflows value = false ∧ (r.next value).Fits values

end ResponseReader

/-! ### Lines -/

theorem TextDecoder.decode_append (d : TextDecoder) (xs ys : List UInt8) :
    (d.decode (xs ++ ys)).1 = (d.decode xs).1 ++ ((d.decode xs).2.decode ys).1 ∧
      (d.decode (xs ++ ys)).2 = ((d.decode xs).2.decode ys).2 := by
  induction xs generalizing d with
  | nil => exact ⟨rfl, rfl⟩
  | cons x xs ih =>
    obtain ⟨htext, hdecoder⟩ := ih (d.next x).2
    refine ⟨?_, hdecoder⟩
    rw [cons_append, decode, decode, htext, append_assoc]

/-- A text that goes on only changes its last line. -/
theorem split_append (text : Text) : ∃ lines last, '\n' ∉ last ∧
    ∀ rest, split (text ++ rest) '\n' = lines ++ split (last ++ rest) '\n' := by
  induction text with
  | nil => exact ⟨[], [], not_mem_nil, fun rest ↦ rfl⟩
  | cons c text ih =>
    obtain ⟨lines, last, hlast, hsplit⟩ := ih
    by_cases hc : c = '\n'
    · refine ⟨[] :: lines, last, hlast, fun rest ↦ ?_⟩
      have hcons := splitOn_append_cons_self (a := '\n') [] (text ++ rest)
      rw [hc]
      exact hcons.trans (congrArg ([] :: ·) (hsplit rest))
    · have hcons (text : Text) : split (c :: text) '\n' =
          (split text '\n').modifyHead (c :: ·) := by
        rw [split, splitOn_cons_eq_if_modifyHead]
        simp [hc, split]
      cases lines with
      | nil =>
        refine ⟨[], c :: last, by simp [hlast, Ne.symm hc], fun rest ↦ ?_⟩
        rw [cons_append, hcons, hsplit, cons_append, hcons]
        rfl
      | cons line lines =>
        refine ⟨(c :: line) :: lines, last, hlast, fun rest ↦ ?_⟩
        rw [cons_append, hcons, hsplit]
        rfl

theorem dropLast_split_append {last : Text} (lines : List Text) :
    (lines ++ split last '\n').dropLast = lines ++ (split last '\n').dropLast :=
  dropLast_append_of_ne_nil (splitOn_ne_nil _ _)

/-- A rest without a newline ends no line. -/
theorem dropLast_split_append_of_notMem (text : Text) {rest : Text} (h : '\n' ∉ rest) :
    (split (text ++ rest) '\n').dropLast = (split text '\n').dropLast := by
  obtain ⟨lines, last, hlast, hsplit⟩ := split_append text
  have hself := hsplit []
  rw [append_nil, append_nil] at hself
  rw [hsplit, hself, dropLast_split_append, dropLast_split_append, split_of_notMem hlast,
    split_of_notMem (by simp [hlast, h])]
  rfl

namespace ResponseReader

/-- **What is read from some point on.** The lines are those of the buffer and of all that is still
to be decoded. -/
theorem run_eq {r : ResponseReader} {values : List (List UInt8)} (hbuf : '\n' ∉ r.buffer)
    (hfits : r.Fits values) :
    r.run values = ((split (r.buffer ++ (r.decoder.decode values.flatten).1) '\n').dropLast
      ).filterMap process := by
  induction values generalizing r with
  | nil =>
    rw [flatten_nil, TextDecoder.decode, append_nil, split_of_notMem hbuf]
    rfl
  | cons value values ih =>
    obtain ⟨hroom, hfits⟩ := hfits
    have hfill : r.fill value =
        (r.buffer ++ (r.decoder.decode value).1, (r.decoder.decode value).2) :=
      if_neg (Bool.eq_false_iff.1 hroom)
    obtain ⟨lines, last, hlast, hsplit⟩ := split_append (r.buffer ++ (r.decoder.decode value).1)
    have hself := hsplit []
    rw [append_nil, append_nil, split_of_notMem hlast] at hself
    have hnext : r.next value = ⟨(r.decoder.decode value).2, last⟩ := by
      rw [next, hfill, hself, getLast?_concat]
      rfl
    rw [run, ResponseReader.lines, hfill, hself, dropLast_concat,
      ih (by rw [hnext]; exact hlast) hfits, hnext, flatten_cons,
      (r.decoder.decode_append value _).1, ← append_assoc, hsplit, dropLast_split_append,
      filterMap_append]

end ResponseReader

/-- **The lines do not depend on the chunks.** As long as no chunk is too much for the buffer, what
is processed are the lines of the whole stream, decoded at once, without the one that has not
ended. -/
theorem lines_of_stream {values : List (List UInt8)} (h : ResponseReader.start.Fits values) :
    ResponseReader.start.run values =
      ((Text.split (decodeAll values.flatten) '\n').dropLast).filterMap ResponseReader.process := by
  have hflush : '\n' ∉ if (TextDecoder.new.decode values.flatten).2.utf8.needed = 0 then []
      else [replacement] := by
    split <;> decide
  rw [ResponseReader.run_eq not_mem_nil h, decodeAll, dropLast_split_append_of_notMem _ hflush]
  rfl

/-- A character that is cut in two. -/
theorem lines_of_stream_cut :
    ResponseReader.start.run [[0xC3], [0xA9, 0x0A]] =
      ((Text.split (decodeAll [0xC3, 0xA9, 0x0A]) '\n').dropLast).filterMap
        ResponseReader.process :=
  lines_of_stream ⟨by decide, by decide, trivial⟩

end Sidecar
