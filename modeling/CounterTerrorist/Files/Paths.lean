import CounterTerrorist.Core.JsText
import CounterTerrorist.Foundations.FileTree

/-!
# Paths as texts

The path functions that the source uses, for paths with slashes: `normalize`, `dirname`, `join` and
`resolve`. The text of a path is split at its slashes; every part is a segment, and the parts that
are names of something are kept as such (`Name`). A normalised path is kept as the segments that are
left, with its text.

Normalising keeps the segments that do something (`segs_normalize`), they can be read back from its
text (`trim_segsOf_text`), and a path is inside another one as a text if its names start with the
names of the other (`isInside_iff`).
-/

namespace Files

open Core FileTree List

/-! ### Segments -/

/-- A text that can be the name of something. -/
def IsName (text : Text) : Prop :=
  text ≠ [] ∧ '/' ∉ text ∧ text ≠ ['.'] ∧ text ≠ ['.', '.']

instance (text : Text) : Decidable (IsName text) := inferInstanceAs (Decidable (_ ∧ _))

/-- The names of files. -/
abbrev Name := {text : Text // IsName text}

/-- A part of a path. -/
def toSeg (text : Text) : Seg Name :=
  if h : IsName text then .name ⟨text, h⟩
  else if text = ['.', '.'] then .up
  else .here

/-- The text of a segment. -/
def segText : Seg Name → Text
  | .here => ['.']
  | .up => ['.', '.']
  | .name n => n.1

/-- The segments of a path. -/
def segsOf (text : Text) : List (Seg Name) := (Text.split text '/').map toSeg

/-- The names in a path. -/
def names (path : Text) : List Name :=
  (segsOf path).filterMap fun
    | .name n => some n
    | _ => none

/-- `isAbsolute`. -/
def isAbsolute (text : Text) : Bool := text.head? = some '/'

/-! ### Functions on paths -/

/-- A normalised path. -/
structure Normal where
  absolute : Bool
  segs : List (Seg Name)
  /-- There is a slash at the end. -/
  trailing : Bool

/-- Its segments, with slashes between them. -/
def Normal.body (n : Normal) : Text :=
  let body := ['/'].intercalate (n.segs.map segText)
  if body = [] ∧ n.absolute = false then ['.'] else body

/-- Its text. -/
def Normal.text (n : Normal) : Text :=
  let body := if n.body ≠ [] ∧ n.trailing = true then n.body ++ ['/'] else n.body
  if n.absolute then '/' :: body else body

/-- One segment more, in `normalizeString`. -/
def pushSeg (absolute : Bool) (segs : List (Seg Name)) : Seg Name → List (Seg Name)
  | .here => segs
  | .up =>
    match segs.getLast? with
    | some (.name _) => segs.dropLast
    | _ => if absolute then segs else segs ++ [.up]
  | .name n => segs ++ [.name n]

/-- `normalize`. -/
def normalize (path : Text) : Normal where
  absolute := isAbsolute path
  segs := (segsOf path).foldl (pushSeg (isAbsolute path)) []
  trailing := path.getLast? = some '/'

/-- `dirname` of a normalised path. -/
def dirname (n : Normal) : Normal := ⟨n.absolute, n.segs.dropLast, false⟩

/-- The text of an absolute path. -/
def render (path : List Name) : Text := '/' :: ['/'].intercalate (path.map Subtype.val)

/-- `join` of two texts, of which the first is not empty. -/
def join (path more : Text) : Text :=
  (normalize (if more = [] then path else path ++ '/' :: more)).text

/-- `resolve`. -/
def resolve (cwd : List Name) (path : Text) : List Name :=
  descend (if isAbsolute path then [] else cwd) (segsOf path)

/-- `split(/[\\/]/).pop() || ""`. -/
def lastPiece (path : Text) : Text :=
  (path.splitOnP fun c ↦ c == '\x5c' || c == '/').getLast?.getD []

/-! ### Texts and segments -/

/-- A segment is read back from its text. -/
theorem toSeg_segText {seg : Seg Name} (h : seg.moves = true) : toSeg (segText seg) = seg := by
  cases seg with
  | here => cases h
  | up => rfl
  | name n => exact dif_pos n.2

theorem slash_notMem_segText (seg : Seg Name) : '/' ∉ segText seg := by
  cases seg with
  | here | up => decide
  | name n => exact n.2.2.1

theorem segText_ne_nil (seg : Seg Name) : segText seg ≠ [] := by
  cases seg with
  | here | up => decide
  | name n => exact n.2.1

theorem segsOf_cons_slash (text : Text) : segsOf ('/' :: text) = .here :: segsOf text := by
  rfl

/-- Segments before and after a slash. -/
theorem segsOf_append (text more : Text) :
    segsOf (text ++ '/' :: more) = segsOf text ++ segsOf more := by
  rw [segsOf, Text.split, splitOn_append_cons_self, map_append]
  rfl

variable {segs : List (Seg Name)} {n : Normal} {path : List Name}

/-- Segments are read back from their texts. -/
theorem segsOf_intercalate (hmoves : ∀ seg ∈ segs, seg.moves = true) (hne : segs ≠ []) :
    segsOf (['/'].intercalate (segs.map segText)) = segs := by
  have hsplit : Text.split (['/'].intercalate (segs.map segText)) '/' = segs.map segText := by
    refine splitOn_intercalate '/' (fun text htext ↦ ?_) (by simpa using hne)
    obtain ⟨seg, -, rfl⟩ := mem_map.1 htext
    exact slash_notMem_segText seg
  rw [segsOf, hsplit, map_map]
  refine (map_congr_left fun seg hseg ↦ ?_).trans (map_id segs)
  exact toSeg_segText (hmoves seg hseg)

theorem intercalate_segText_ne_nil (hne : segs ≠ []) :
    ['/'].intercalate (segs.map segText) ≠ [] := by
  obtain ⟨seg, segs, rfl⟩ := exists_cons_of_ne_nil hne
  cases segs with
  | nil => simpa using segText_ne_nil seg
  | cons next segs => simp [segText_ne_nil seg]

theorem Normal.body_of_ne_nil (h : n.segs ≠ []) : n.body = ['/'].intercalate (n.segs.map segText) :=
  if_neg fun hnil ↦ intercalate_segText_ne_nil h hnil.1

theorem Normal.body_ne_nil (h : n.segs ≠ []) : n.body ≠ [] := by
  rw [Normal.body_of_ne_nil h]
  exact intercalate_segText_ne_nil h

/-- The segments of a normalised path are read back. -/
theorem trim_segsOf_body (hmoves : ∀ seg ∈ n.segs, seg.moves = true) :
    trim (segsOf n.body) = n.segs := by
  rcases eq_or_ne n.segs [] with hnil | hne
  · rw [Normal.body, hnil]
    cases n.absolute with
    | false | true => rfl
  · rw [Normal.body_of_ne_nil hne, segsOf_intercalate hmoves hne]
    exact filter_eq_self.2 hmoves

/-- The segments of a normalised path can be read from its text. -/
theorem trim_segsOf_text (hmoves : ∀ seg ∈ n.segs, seg.moves = true) :
    trim (segsOf n.text) = n.segs := by
  have hslash (text : Text) : trim (segsOf (text ++ ['/'])) = trim (segsOf text) := by
    rw [segsOf_append, trim_append]
    exact append_nil _
  have hbody : trim (segsOf (if n.body ≠ [] ∧ n.trailing = true then n.body ++ ['/']
      else n.body)) = n.segs := by
    split
    · rw [hslash, trim_segsOf_body hmoves]
    · exact trim_segsOf_body hmoves
  rw [Normal.text]
  split
  · exact hbody
  · exact hbody

theorem head?_body (habs : n.absolute = false) : ∃ c rest, n.body = c :: rest ∧ c ≠ '/' := by
  rw [Normal.body]
  cases hsegs : n.segs with
  | nil =>
    rw [habs]
    exact ⟨'.', [], rfl, by decide⟩
  | cons seg segs =>
    obtain ⟨c, rest, hseg⟩ := exists_cons_of_ne_nil (segText_ne_nil seg)
    have hc : c ≠ '/' := by
      rintro rfl
      exact slash_notMem_segText seg (hseg ▸ mem_cons_self)
    rw [map_cons, hseg, intercalate_cons_cons_left]
    exact ⟨c, _, rfl, hc⟩

theorem isAbsolute_text (n : Normal) : isAbsolute n.text = n.absolute := by
  rw [Normal.text, isAbsolute]
  cases habs : n.absolute with
  | true => rfl
  | false =>
    obtain ⟨c, rest, hbody, hc⟩ := head?_body habs
    simp only [hbody]
    cases n.trailing <;> simp [hc]

/-! ### Normalising -/

/-- Without `..`, normalising keeps what moves. -/
theorem foldl_pushSeg {absolute : Bool} (hup : .up ∉ segs) (acc : List (Seg Name)) :
    segs.foldl (pushSeg absolute) acc = acc ++ trim segs := by
  induction segs generalizing acc with
  | nil => exact (append_nil acc).symm
  | cons seg segs ih =>
    rw [mem_cons, not_or] at hup
    rw [foldl_cons, ih hup.2]
    cases seg with
    | here => rfl
    | up => exact absurd rfl hup.1
    | name n => exact append_assoc acc [.name n] (trim segs)

/-- Normalising a path that does not go up keeps the segments that do something. -/
theorem segs_normalize {path : Text} (hup : .up ∉ segsOf path) :
    (normalize path).segs = trim (segsOf path) := foldl_pushSeg hup []

theorem trim_eq_names {path : Text} (hup : .up ∉ segsOf path) :
    trim (segsOf path) = (names path).map .name := by
  rw [names]
  generalize segsOf path = segs at hup
  induction segs with
  | nil => rfl
  | cons seg segs ih =>
    rw [mem_cons, not_or] at hup
    cases seg with
    | here => exact ih hup.2
    | up => exact absurd rfl hup.1
    | name n => exact congrArg (Seg.name n :: ·) (ih hup.2)

theorem moves_of_mem_trim : ∀ seg ∈ trim segs, seg.moves = true :=
  fun _ hseg ↦ (mem_filter.1 hseg).2

theorem toSeg_eq_up {text : Text} (h : toSeg text = .up) : text = ['.', '.'] := by
  rw [toSeg] at h
  split at h
  · cases h
  · split at h
    · assumption
    · cases h

/-- A path without two periods does not go up. -/
theorem up_notMem_segsOf {path : Text} (h : ¬['.', '.'] <:+: path) : .up ∉ segsOf path := by
  intro hmem
  obtain ⟨part, hpart, hup⟩ := mem_map.1 hmem
  exact h (toSeg_eq_up hup ▸ Text.isInfix_of_mem_split hpart)

/-! ### Absolute paths -/

/-- Names are read back from a path. -/
theorem trim_segsOf_render (path : List Name) : trim (segsOf (render path)) = path.map .name := by
  have htext : path.map Subtype.val = (path.map Seg.name).map segText := by
    rw [map_map]
    rfl
  rw [render, segsOf_cons_slash, htext]
  rcases eq_or_ne path [] with rfl | hne
  · rfl
  · rw [segsOf_intercalate moves_of_mem_names (by simpa using hne)]
    exact trim_names path

/-- An absolute path is resolved from the root. -/
theorem resolve_of_absolute (cwd : List Name) {path : Text} (h : isAbsolute path = true) :
    resolve cwd path = descend [] (trim (segsOf path)) := by
  rw [resolve, h, descend_trim]
  rfl

/-- `resolve` leaves an absolute path as it is. -/
theorem resolve_render (cwd path : List Name) : resolve cwd (render path) = path := by
  rw [resolve_of_absolute cwd rfl, trim_segsOf_render, descend_names, nil_append]

/-- A name behind an absolute path. -/
theorem resolve_join (cwd dir : List Name) {piece : Text} (hslash : '/' ∉ piece)
    (hup : toSeg piece ≠ .up) :
    resolve cwd (join (render dir) piece) = descendOne dir (toSeg piece) := by
  have htrim : trim (segsOf (if piece = [] then render dir else render dir ++ '/' :: piece)) =
      dir.map .name ++ trim [toSeg piece] := by
    split
    case isTrue hnil =>
      rw [hnil, trim_segsOf_render]
      exact (append_nil _).symm
    case isFalse =>
      rw [segsOf_append, trim_append, trim_segsOf_render, segsOf, Text.split_of_notMem hslash]
      rfl
  have hnot : .up ∉ segsOf (if piece = [] then render dir else render dir ++ '/' :: piece) := by
    intro hmem
    have hmem' : Seg.up ∈ trim (segsOf _) := mem_filter.2 ⟨hmem, rfl⟩
    rw [htrim] at hmem'
    rcases mem_append.1 hmem' with hmem' | hmem'
    · simp at hmem'
    · exact hup (mem_singleton.1 (mem_filter.1 hmem').1).symm
  have habs : isAbsolute (if piece = [] then render dir else render dir ++ '/' :: piece) =
      true := by
    split <;> rfl
  rw [join, resolve_of_absolute cwd ((isAbsolute_text _).trans habs),
    trim_segsOf_text (segs_normalize hnot ▸ moves_of_mem_trim), segs_normalize hnot, htrim,
    descend_append, descend_names, descend_trim]
  rfl

/-! ### Inside -/

/-- The prefix check: `jail` and `path` are absolute paths. -/
def isInside (normalizedJail resolvedP : Text) : Bool :=
  let boundary := fun path : Text ↦ if path.getLast? = some '/' then path else path ++ ['/']
  boundary normalizedJail <+: boundary resolvedP || resolvedP == normalizedJail

/-- An absolute path with a slash behind every name. -/
def slashed (path : List Name) : Text := '/' :: path.flatMap fun n ↦ n.1 ++ ['/']

theorem isPrefix_append_slash {text text' rest rest' : Text} (h : '/' ∉ text) (h' : '/' ∉ text') :
    text ++ '/' :: rest <+: text' ++ '/' :: rest' ↔ text = text' ∧ rest <+: rest' := by
  induction text generalizing text' with
  | nil =>
    cases text' with
    | nil => simp [cons_prefix_cons]
    | cons c text' =>
      have hc : '/' ≠ c := fun heq ↦ h' (heq ▸ mem_cons_self)
      simp [hc]
  | cons c text ih =>
    rw [mem_cons, not_or] at h
    cases text' with
    | nil => simp [Ne.symm h.1]
    | cons c' text' =>
      rw [mem_cons, not_or] at h'
      rw [cons_append, cons_append, cons_prefix_cons, ih h.2 h'.2, List.cons.injEq, and_assoc]

variable {jail : List Name}

/-- Beginnings of texts are beginnings of paths. -/
theorem slashed_isPrefix_iff : slashed jail <+: slashed path ↔ jail <+: path := by
  rw [slashed, slashed, cons_prefix_cons, and_iff_right rfl]
  induction jail generalizing path with
  | nil => simp
  | cons n jail ih =>
    cases path with
    | nil => simp
    | cons m path =>
      rw [flatMap_cons, flatMap_cons, append_assoc, append_assoc,
        singleton_append, singleton_append, isPrefix_append_slash n.2.2.1 m.2.2.1, ih,
        cons_prefix_cons, Subtype.ext_iff]

theorem intercalate_append_slash {texts : List Text} (hne : texts ≠ []) :
    ['/'].intercalate texts ++ ['/'] = texts.flatMap (· ++ ['/']) := by
  obtain ⟨text, texts, rfl⟩ := exists_cons_of_ne_nil hne
  induction texts generalizing text with
  | nil => simp
  | cons next texts ih =>
    rw [intercalate_cons_cons, append_assoc, ih next (cons_ne_nil _ _)]
    rfl

theorem getLast?_render (hne : path ≠ []) : (render path).getLast? ≠ some '/' := by
  obtain ⟨n, path, rfl⟩ := exists_cons_of_ne_nil hne
  rw [render]
  induction path generalizing n with
  | nil =>
    rw [map_singleton, intercalate_singleton, getLast?_cons_of_ne_nil n.2.1]
    exact fun hslash ↦ n.2.2.1 (mem_of_getLast? hslash)
  | cons m path ih =>
    have htail := ih m (cons_ne_nil _ _)
    rw [map_cons] at htail ⊢
    rwa [map_cons, intercalate_cons_cons, append_assoc, singleton_append, ← cons_append,
      getLast?_append_of_ne_nil _ (cons_ne_nil _ _)]

theorem boundary_render (path : List Name) :
    (if (render path).getLast? = some '/' then render path else render path ++ ['/']) =
      slashed path := by
  rcases eq_or_ne path [] with rfl | hne
  · rfl
  · have htexts : path.map Subtype.val ≠ [] := fun h ↦ hne (map_eq_nil_iff.1 h)
    rw [if_neg (getLast?_render hne), render, slashed, cons_append,
      intercalate_append_slash htexts, flatMap_map]

/-- Different paths have different texts. -/
theorem render_injective {path' : List Name} (h : render path = render path') : path = path' := by
  rw [← resolve_render [] path, h, resolve_render]

/-- A path is inside a jail if its names start with those of the jail. -/
theorem isInside_iff : isInside (render jail) (render path) = true ↔ jail <+: path := by
  rw [isInside]
  simp only [boundary_render, Bool.or_eq_true, decide_eq_true_eq, beq_iff_eq, slashed_isPrefix_iff]
  refine ⟨fun h ↦ h.elim id fun heq ↦ ?_, .inl⟩
  rw [render_injective heq]

/-! ### The last piece -/

theorem lastPiece_append (text more : Text) : lastPiece (text ++ '/' :: more) = lastPiece more := by
  have hne := splitOnP_ne_nil (fun c ↦ c == '\x5c' || c == '/') more
  rw [lastPiece, splitOnP_append_cons _ _ (by decide), getLast?_append_of_ne_nil _ hne, lastPiece]

theorem lastPiece_intercalate (texts : List Text) (text : Text) :
    lastPiece (['/'].intercalate (texts ++ [text])) = lastPiece text := by
  induction texts with
  | nil => rw [nil_append, intercalate_singleton]
  | cons first texts ih =>
    have hne : texts ++ [text] ≠ [] := append_ne_nil_of_right_ne_nil _ (cons_ne_nil _ _)
    rw [cons_append, intercalate_cons_of_ne_nil hne, append_assoc,
      singleton_append, lastPiece_append, ih]

theorem lastPiece_of_notMem {text : Text} (hslash : '/' ∉ text) (hback : '\x5c' ∉ text) :
    lastPiece text = text := by
  have hsplit : text.splitOnP (fun c ↦ c == '\x5c' || c == '/') = [text] := by
    refine splitOnP_eq_singleton fun c hc ↦ ?_
    rw [Bool.or_eq_false_iff, beq_eq_false_iff_ne, beq_eq_false_iff_ne]
    exact ⟨fun h ↦ hback (h ▸ hc), fun h ↦ hslash (h ▸ hc)⟩
  rw [lastPiece, hsplit]
  rfl

/-- The last piece of a normalised path is that of its last name, or nothing. -/
theorem lastPiece_text {init : List (Seg Name)} {last : Name}
    (hsegs : n.segs = init ++ [.name last]) :
    lastPiece n.text = if n.trailing then [] else lastPiece last.1 := by
  have hcons (text : Text) : lastPiece ('/' :: text) = lastPiece text := lastPiece_append [] text
  have hne : n.segs ≠ [] := by simp [hsegs]
  have hlast : lastPiece n.body = lastPiece last.1 := by
    rw [Normal.body_of_ne_nil hne, hsegs, map_append]
    exact lastPiece_intercalate (init.map segText) last.1
  have htext : lastPiece (if n.body ≠ [] ∧ n.trailing = true then n.body ++ ['/'] else n.body) =
      if n.trailing then [] else lastPiece last.1 := by
    cases n.trailing with
    | false => simpa using hlast
    | true =>
      rw [if_pos ⟨Normal.body_ne_nil hne, rfl⟩, lastPiece_append]
      rfl
  rw [Normal.text]
  split
  · rw [hcons, htext]
  · exact htext

/-- The parts of a text have no separator, and are in the text. -/
theorem splitOnP_parts (sep : Char → Bool) (text : Text) :
    ∃ first parts, text.splitOnP sep = first :: parts ∧ first <+: text ∧
      (∀ part ∈ first :: parts, part <:+: text ∧ ∀ c ∈ part, sep c = false) := by
  induction text with
  | nil => exact ⟨[], [], rfl, nil_prefix, by simp⟩
  | cons c text ih =>
    obtain ⟨first, parts, hsplit, hfirst, hparts⟩ := ih
    have hin : ∀ part ∈ first :: parts, part <:+: c :: text ∧ ∀ c ∈ part, sep c = false :=
      fun part hpart ↦ ⟨infix_cons (hparts part hpart).1, (hparts part hpart).2⟩
    rw [splitOnP_cons_eq_if_modifyHead, hsplit]
    split
    case isTrue hc =>
      refine ⟨[], first :: parts, rfl, nil_prefix, fun part hpart ↦ ?_⟩
      rcases mem_cons.1 hpart with rfl | hpart
      · exact ⟨⟨[], _, rfl⟩, by simp⟩
      · exact hin part hpart
    case isFalse hc =>
      have hpre : c :: first <+: c :: text := cons_prefix_cons.2 ⟨rfl, hfirst⟩
      refine ⟨c :: first, parts, rfl, hpre, fun part hpart ↦ ?_⟩
      rcases mem_cons.1 hpart with rfl | hpart
      · refine ⟨hpre.isInfix, fun d hd ↦ ?_⟩
        rcases mem_cons.1 hd with rfl | hd
        · exact Bool.eq_false_iff.2 hc
        · exact (hparts first mem_cons_self).2 d hd
      · exact hin part (mem_cons_of_mem _ hpart)

/-- The last piece is in the text, without a slash. -/
theorem lastPiece_spec (text : Text) : lastPiece text <:+: text ∧ '/' ∉ lastPiece text := by
  obtain ⟨first, parts, hsplit, -, hparts⟩ := splitOnP_parts (fun c ↦ c == '\x5c' || c == '/') text
  have hmem : lastPiece text ∈ first :: parts := by
    rw [lastPiece, hsplit]
    exact getLast_mem _
  obtain ⟨hin, hsep⟩ := hparts _ hmem
  exact ⟨hin, fun hslash ↦ absurd (hsep '/' hslash) (by decide)⟩

end Files
