import CounterTerrorist.Files.Paths

/-!
# The path jail

`validatePath` decides whether a path may be used. It is checked as a text first, and then resolved:
all of it if it exists, else its directory, and if that does not exist either, as a text. What comes
out has to be inside one of the jails.

Opening or creating the path denotes where a walk along it leads (`System.location`): a link at the
end is followed also to a target that does not exist. The check looks at something else in four
cases (`System.Unseen`): a link at the end that does not resolve, a link on the way if the directory
does not resolve, a backslash in the last name, which the check takes for a separator, and no jails
at all. In all other cases an accepted path is inside a jail (`path_jail_iff`); a link to a file
that is yet to be created leads out of it (`dangling_link_accepted`).

## Scope

The file system does not change. The directories that are jails are where their paths say. What
`decodeURIComponent` makes of a text is left open.
-/

namespace Files

open Core FileTree List Option FileSystem

/-! ### The check -/

/-- What the check of a path depends on. -/
structure System where
  fs : FileSystem Name
  /-- The number of links that are followed. -/
  limit : ℕ
  cwd : List Name
  cwd_dir : fs.node cwd = some .dir
  /-- `decodeURIComponent`, which throws for some texts. -/
  decodeURIComponent : Text → Option Text

namespace System

variable (s : System)

/-- Where a path starts. -/
def start (path : Text) : List Name := if isAbsolute path then [] else s.cwd

/-- The walk along a path. -/
def walk (path : Text) : Outcome Name := s.fs.walk s.limit (s.start path) (segsOf path)

/-- `Deno.realPathSync`. -/
def realPathSync (path : Text) : Option Text :=
  match s.walk path with
  | .found real _ => some (render real)
  | _ => none

/-- The location that opening or creating a path denotes. -/
def location (path : Text) : Option (List Name) := (s.walk path).place

/-- The text, decoded at most so many times. -/
def decode : ℕ → Text → Text
  | 0, decoded => decoded
  | iterations + 1, previous =>
    match s.decodeURIComponent previous with
    | none => previous
    | some decoded => if decoded = previous then decoded else decode iterations decoded

/-- What is compared with the jails. -/
def realPath (normalized : Normal) : Text :=
  match s.realPathSync normalized.text with
  | some real => real
  | none =>
    match s.realPathSync (dirname normalized).text with
    | some realDir => join realDir (lastPiece normalized.text)
    | none => render (resolve s.cwd normalized.text)

/-- Whether a path is inside one of the jails, if there are any. -/
def insideJails (jailPrefixes : Option (List Text)) (realPath : Text) : Bool :=
  match jailPrefixes with
  | some (jail :: jails) => (jail :: jails).any fun jail ↦
      isInside (render (resolve s.cwd jail)) (render (resolve s.cwd realPath))
  | _ => true

/-- `validatePath`. -/
def validatePath (p : Text) (jailPrefixes : Option (List Text)) : Bool :=
  if p = [] then false else
  let decoded := s.decode 3 p
  if '\x00' ∈ decoded ∨ '\x00' ∈ p then false else
  if ['.', '.'] <:+: decoded ∨ ['.', '.'] <:+: p ∨ ['/', '/'] <+: p ∨ ['\x5c', '\x5c'] <+: p ∨
    ['/', '/'] <+: decoded ∨ ['\x5c', '\x5c'] <+: decoded then false else
  let normalized := normalize p
  if ['.', '.'] <:+: normalized.text then false else
  if !s.insideJails jailPrefixes (s.realPath normalized) then false else
  if ['.', '.'] <:+: normalized.text then false else
  true

/-! ### The jails -/

/-- A directory that is where its path says. -/
structure IsJailDir (jail : Text) : Prop where
  dir : s.fs.node (resolve s.cwd jail) = some .dir
  real : s.location jail = some (resolve s.cwd jail)

/-- A location is inside one of the jails. -/
def InJail (jails : List Text) (loc : List Name) : Prop :=
  ∃ jail ∈ jails, ∃ dir, s.location jail = some dir ∧ dir <+: loc

/-- What is left of a path leads out of the jails from a directory. -/
def LeadsOut (jails : List Text) (left : ℕ) (dir rest : List Name) : Prop :=
  ∃ loc, (s.fs.walk left dir (rest.map .name)).place = some loc ∧ ¬s.InJail jails loc

/-- **What the check does not see.** -/
inductive Unseen (jails : List Text) (p : Text) : Prop
  /-- There are no jails, so that every location is accepted. -/
  | noJails {loc : List Name} (hjails : jails = []) (hloc : s.location p = some loc)
  /-- The path ends in a link that leads out and does not resolve. The link itself is checked. -/
  | lastLink {init : List Name} {last : Name} {dir : List Name} {left : ℕ}
      (hreal : s.realPathSync (normalize p).text = none)
      (hnames : names p = init ++ [last])
      (hdir : s.fs.walk s.limit (s.start p) (init.map .name) = .found dir left)
      (hlink : s.fs.IsLink (dir ++ [last])) (hout : s.LeadsOut jails left dir [last])
  /-- A link on the way leads out, and the directory of the path does not resolve. The path is
  checked as a text. -/
  | earlierLink {before : List Name} {n : Name} {after : List Name}
      (hreal : s.realPathSync (normalize p).text = none)
      (hparent : s.realPathSync (dirname (normalize p)).text = none)
      (hnames : names p = before ++ n :: after)
      (hlink : s.fs.IsLink (s.start p ++ before ++ [n]))
      (hout : s.LeadsOut jails s.limit (s.start p ++ before) (n :: after))
  /-- The last name has a backslash, and its directory is outside. What stands behind the backslash
  is checked. -/
  | backslash {init : List Name} {last : Name} {dir : List Name} {left : ℕ}
      (hreal : s.realPathSync (normalize p).text = none)
      (hnames : names p = init ++ [last])
      (hdir : s.fs.walk s.limit (s.start p) (init.map .name) = .found dir left)
      (hlink : ¬s.fs.IsLink (dir ++ [last])) (hback : '\x5c' ∈ last.1)
      (hout : ¬s.InJail jails dir)

variable {s} {p : Text} {jails : List Text}

variable {loc : List Name} {path real : Text}

theorem inJail_iff (hjails : ∀ jail ∈ jails, s.IsJailDir jail) :
    s.InJail jails loc ↔ ∃ jail ∈ jails, resolve s.cwd jail <+: loc := by
  refine exists_congr fun jail ↦ and_congr_right fun hjail ↦ ?_
  rw [(hjails jail hjail).real]
  simp

variable {dir init : List Name} {n : Normal} {last : Name} {left : ℕ}

theorem InJail.append (h : s.InJail jails dir) (more : List Name) :
    s.InJail jails (dir ++ more) := by
  obtain ⟨jail, hjail, real, hreal, hpre⟩ := h
  exact ⟨jail, hjail, real, hreal, hpre.trans (prefix_append dir more)⟩

/-! ### Walks along normalised paths -/

theorem start_dir (path : Text) : s.fs.node (s.start path) = some .dir := by
  rw [start]
  split
  · exact s.fs.root
  · exact s.cwd_dir

theorem start_normalize (p : Text) : s.start (normalize p).text = s.start p := by
  rw [start, isAbsolute_text]
  rfl

section

variable (hmoves : ∀ seg ∈ n.segs, seg.moves = true)
include hmoves

section

variable (hdir : s.fs.node dir = some .dir) (limit : ℕ)
include hdir limit

theorem walk_body : s.fs.walk limit dir (segsOf n.body) = s.fs.walk limit dir n.segs := by
  rcases eq_or_ne n.segs [] with hnil | hne
  · rw [Normal.body, hnil]
    cases n.absolute with
    | false | true => exact walk_here limit hdir []
  · rw [Normal.body_of_ne_nil hne, segsOf_intercalate hmoves hne]

theorem walk_body_slash :
    s.fs.walk limit dir (segsOf (if n.body ≠ [] ∧ n.trailing = true then n.body ++ ['/']
      else n.body)) =
      if n.trailing then s.fs.resume [.here] (s.fs.walk limit dir n.segs)
      else s.fs.walk limit dir n.segs := by
  cases n.trailing with
  | false => simpa using walk_body hmoves hdir limit
  | true =>
    rcases eq_or_ne n.body [] with hnil | hne
    · have hsegs : n.segs = [] := by_contra fun h ↦ Normal.body_ne_nil h hnil
      rw [hnil, hsegs, ← walk_append]
      rfl
    · rw [if_pos ⟨hne, rfl⟩, segsOf_append, walk_append, walk_body hmoves hdir]
      rfl

end

/-- The walk along a normalised path is that along its segments; a slash at the end asks for a
directory. -/
theorem walk_text : s.walk n.text =
      if n.trailing then s.fs.resume [.here] (s.fs.walk s.limit (s.start n.text) n.segs)
      else s.fs.walk s.limit (s.start n.text) n.segs := by
  have hdir := s.start_dir n.text
  rw [← walk_body_slash hmoves hdir, Normal.text]
  split
  case isTrue habs =>
    exact walk_here s.limit (s.start_dir _) _
  case isFalse => rfl

end

theorem segs_eq_names (hup : .up ∉ segsOf p) : (normalize p).segs = (names p).map .name :=
  (segs_normalize hup).trans (trim_eq_names hup)

section

variable (hup : .up ∉ segsOf p)
include hup

theorem walk_normalize : s.walk (normalize p).text =
      if (normalize p).trailing then
        s.fs.resume [.here] (s.fs.walk s.limit (s.start p) ((names p).map .name))
      else s.fs.walk s.limit (s.start p) ((names p).map .name) := by
  have hsegs := segs_eq_names hup
  rw [walk_text (hsegs ▸ moves_of_mem_names), hsegs, start_normalize]

theorem walk_dirname : s.walk (dirname (normalize p)).text =
      s.fs.walk s.limit (s.start p) ((names p).dropLast.map .name) := by
  have hsegs : (dirname (normalize p)).segs = (names p).dropLast.map .name := by
    rw [map_dropLast, ← segs_eq_names hup]
    rfl
  have hstart : s.start (dirname (normalize p)).text = s.start p := by
    rw [start, isAbsolute_text]
    rfl
  rw [walk_text (hsegs ▸ moves_of_mem_names), hsegs, hstart]
  rfl

/-! ### Where a path leads to -/

theorem location_eq :
    s.location p = (s.fs.walk s.limit (s.start p) ((names p).map .name)).place := by
  rw [location, walk, place_walk_trim, trim_eq_names hup]

/-- A path whose directory exists leads where its last name leads from there. -/
theorem location_of_last (hnames : names p = init ++ [last])
    (hdir : s.fs.walk s.limit (s.start p) (init.map .name) = .found dir left) :
    s.location p = (s.fs.walk left dir [.name last]).place := by
  rw [location_eq hup, hnames, map_append, walk_append, hdir]
  rfl

/-- A path that meets a link leads where the link leads. -/
theorem location_of_link {before after : List Name} {n : Name}
    (hnames : names p = before ++ n :: after)
    (hlink : s.fs.IsLink (s.start p ++ before ++ [n])) :
    s.location p = (s.fs.walk s.limit (s.start p ++ before) ((n :: after).map .name)).place := by
  obtain ⟨absolute, target, hnode⟩ := hlink
  have hdir : s.fs.node (s.start p ++ before) = some .dir := s.fs.parent (hnode ▸ some_ne_none _)
  rw [location_eq hup, hnames, map_append, walk_append, walk_of_dir s.limit hdir]
  rfl

end

/-! ### What is checked -/

theorem realPathSync_eq_some (h : s.realPathSync path = some real) :
    ∃ dir left, s.walk path = .found dir left ∧ real = render dir := by
  rw [realPathSync] at h
  split at h
  case h_1 dir left hwalk => exact ⟨dir, left, hwalk, (some.inj h).symm⟩
  case h_2 => cases h

theorem realPathSync_of_found (h : s.walk path = .found dir left) :
    s.realPathSync path = some (render dir) := by
  rw [realPathSync, h]

theorem insideJails_eq_true {realPath : Text}
    (h : s.insideJails (some jails) realPath = true) (hne : jails ≠ []) :
    ∃ jail ∈ jails, resolve s.cwd jail <+: resolve s.cwd realPath := by
  obtain ⟨first, rest, rfl⟩ := exists_cons_of_ne_nil hne
  obtain ⟨jail, hjail, hinside⟩ := List.any_eq_true.1 h
  exact ⟨jail, hjail, isInside_iff.1 hinside⟩

/-- What an accepted path satisfies. -/
structure Accepted (s : System) (jails : List Text) (p : Text) : Prop where
  noUp : ¬['.', '.'] <:+: p
  noUpText : ¬['.', '.'] <:+: (normalize p).text
  inside : jails ≠ [] →
    ∃ jail ∈ jails, resolve s.cwd jail <+: resolve s.cwd (s.realPath (normalize p))

theorem accepted_of_validatePath (h : s.validatePath p (some jails) = true) :
    s.Accepted jails p := by
  simp only [validatePath, Bool.if_false_left, Bool.and_eq_true, decide_eq_false_iff_not,
    Bool.not_eq_eq_eq_not, Bool.not_true, not_or] at h
  obtain ⟨-, -, ⟨-, hup, -⟩, htext, hinside, -⟩ := h
  exact ⟨hup, htext, insideJails_eq_true (by simpa using hinside)⟩

section

variable (h : s.Accepted jails p)
include h

theorem Accepted.up_notMem : .up ∉ segsOf p := up_notMem_segsOf h.noUp

theorem Accepted.segs : (normalize p).segs = (names p).map .name := segs_eq_names h.up_notMem

/-- A path that does not resolve, with a slash at its end or without, leads to no directory. -/
theorem Accepted.ne_dir (hreal : s.realPathSync (normalize p).text = none)
    (hwalk : s.fs.walk s.limit (s.start p) ((names p).map .name) = .found dir left) :
    s.fs.node dir ≠ some .dir := by
  intro hdir
  have hstay : s.fs.resume [.here] (.found dir left) = .found dir left := by
    rw [resume, walk_here left hdir, walk_nil]
  have hfound : s.walk (normalize p).text = .found dir left := by
    rw [walk_normalize h.up_notMem, hwalk, hstay, ite_self]
  rw [realPathSync_of_found hfound] at hreal
  cases hreal

/-- A path that does not resolve has a last name. -/
theorem Accepted.exists_last (hreal : s.realPathSync (normalize p).text = none) :
    ∃ init last, names p = init ++ [last] := by
  refine (eq_nil_or_concat' (names p)).resolve_left fun hnil ↦ ?_
  have hwalk : s.fs.walk s.limit (s.start p) ((names p).map .name) =
      .found (s.start p) s.limit := by
    rw [hnil]
    exact walk_nil s.limit (s.start p)
  exact h.ne_dir hreal hwalk (start_dir p)

/-! ### The three ways to resolve a path -/

/-- All of the path is resolved. -/
theorem Accepted.resolve_of_real (hreal : s.realPathSync (normalize p).text = some real) :
    s.location p = some (resolve s.cwd (s.realPath (normalize p))) := by
  have hlocation : s.location p = s.location (normalize p).text := by
    rw [location_eq h.up_notMem, location, walk, start_normalize,
      place_walk_trim s.limit _ (segsOf _),
      trim_segsOf_text (h.segs ▸ moves_of_mem_names), h.segs]
  obtain ⟨dir, left, hwalk, rfl⟩ := realPathSync_eq_some hreal
  rw [realPath, hreal, hlocation, location, hwalk]
  exact congrArg some (resolve_render s.cwd dir).symm

/-- The directory is resolved. -/
theorem Accepted.resolve_of_dir (hreal : s.realPathSync (normalize p).text = none)
    (hdir : s.walk (dirname (normalize p)).text = .found dir left) :
    resolve s.cwd (s.realPath (normalize p)) =
      descendOne dir (toSeg (lastPiece (normalize p).text)) := by
  obtain ⟨hin, hslash⟩ := lastPiece_spec (normalize p).text
  have hup : toSeg (lastPiece (normalize p).text) ≠ .up := fun hup ↦
    h.noUpText (toSeg_eq_up hup ▸ hin)
  rw [realPath, hreal, realPathSync_of_found hdir]
  exact resolve_join s.cwd dir hslash hup

/-- Nothing is resolved. -/
theorem Accepted.resolve_of_none (hreal : s.realPathSync (normalize p).text = none)
    (hparent : s.realPathSync (dirname (normalize p)).text = none) :
    resolve s.cwd (s.realPath (normalize p)) = s.start p ++ names p := by
  rw [realPath, hreal, hparent]
  show resolve s.cwd (render (resolve s.cwd (normalize p).text)) = _
  rw [resolve_render, resolve, ← descend_trim, trim_segsOf_text (h.segs ▸ moves_of_mem_names),
    h.segs, descend_names, ← start_normalize]
  rfl

end

/-! ### A path leads out if and only if the check does not see it -/

/-- A file in a directory outside is outside, unless it is a jail itself. -/
theorem not_inJail_concat (hjails : ∀ jail ∈ jails, s.IsJailDir jail) {n : Name}
    (hdir : s.fs.node (dir ++ [n]) ≠ some .dir) (hout : ¬s.InJail jails dir) :
    ¬s.InJail jails (dir ++ [n]) := by
  rw [inJail_iff hjails] at hout ⊢
  rintro ⟨jail, hjail, hpre⟩
  rcases prefix_concat_iff.1 hpre with heq | hpre
  · exact hdir (heq ▸ (hjails jail hjail).dir)
  · exact hout ⟨jail, hjail, hpre⟩

/-- The last name of a path that does not resolve is not the name of a directory. -/
theorem Accepted.last_ne_dir (h : s.Accepted jails p)
    (hreal : s.realPathSync (normalize p).text = none) (hnames : names p = init ++ [last])
    (hdir : s.fs.walk s.limit (s.start p) (init.map .name) = .found dir left) :
    s.fs.node (dir ++ [last]) ≠ some .dir := by
  intro hnode
  have hwalk : s.fs.walk s.limit (s.start p) ((names p).map .name) =
      .found (dir ++ [last]) left := by
    rw [hnames, map_append, walk_append, hdir]
    exact walk_of_dir left hnode
  exact h.ne_dir hreal hwalk hnode

/-- What the check does not see leads out of the jails. -/
theorem Unseen.leads_out (hunseen : s.Unseen jails p) (h : s.Accepted jails p)
    (hjails : ∀ jail ∈ jails, s.IsJailDir jail) :
    ∃ loc, s.location p = some loc ∧ ¬s.InJail jails loc := by
  cases hunseen with
  | noJails hnil hloc =>
    refine ⟨_, hloc, ?_⟩
    rintro ⟨jail, hjail, -⟩
    rw [hnil] at hjail
    cases hjail
  | lastLink _ hnames hdir _ hout =>
    rw [location_of_last h.up_notMem hnames hdir]
    exact hout
  | earlierLink _ _ hnames hlink hout =>
    rw [location_of_link h.up_notMem hnames hlink]
    exact hout
  | backslash hreal hnames hdir hlink _ hout =>
    refine ⟨_, ?_, not_inJail_concat hjails (h.last_ne_dir hreal hnames hdir) hout⟩
    rw [location_of_last h.up_notMem hnames hdir]
    exact place_walk_name _ hlink

/-- What is checked in place of the last name, if it has no backslash. -/
theorem Accepted.piece_cases (h : s.Accepted jails p) (hnames : names p = init ++ [last])
    (hback : '\x5c' ∉ last.1) :
    toSeg (lastPiece (normalize p).text) = .here ∨
      toSeg (lastPiece (normalize p).text) = .name last := by
  have hsegs : (normalize p).segs = init.map .name ++ [.name last] := by
    rw [h.segs, hnames, map_append]
    rfl
  rw [lastPiece_text hsegs]
  split
  · exact .inl rfl
  · rw [lastPiece_of_notMem last.2.2.1 hback]
    exact .inr (dif_pos last.2)

section LeadsOut

variable (h : s.Accepted jails p) {loc : List Name} (hloc : s.location p = some loc)
  (hin : s.InJail jails (resolve s.cwd (s.realPath (normalize p)))) (hout : ¬s.InJail jails loc)
  (hreal : s.realPathSync (normalize p).text = none)
include h hloc hin hout hreal

/-- The directory was resolved, and the last name is a link or has a backslash. -/
theorem Accepted.unseen_of_dir {realDir : Text}
    (hparent : s.realPathSync (dirname (normalize p)).text = some realDir) :
    s.Unseen jails p := by
  obtain ⟨init, last, hnames⟩ := h.exists_last hreal
  obtain ⟨dir, left, hwalk, -⟩ := realPathSync_eq_some hparent
  have hdir : s.fs.walk s.limit (s.start p) (init.map .name) = .found dir left := by
    rw [← hwalk, walk_dirname h.up_notMem, hnames, dropLast_concat]
  have hplace := (location_of_last h.up_notMem hnames hdir).symm.trans hloc
  by_cases hlink : s.fs.IsLink (dir ++ [last])
  · exact .lastLink hreal hnames hdir hlink ⟨loc, hplace, hout⟩
  · obtain rfl := some.inj ((place_walk_name left hlink).symm.trans hplace)
    have houtDir : ¬s.InJail jails dir := fun hdir ↦ hout (hdir.append [last])
    refine .backslash hreal hnames hdir hlink (by_contra fun hback ↦ ?_) houtDir
    rw [h.resolve_of_dir hreal hwalk] at hin
    rcases h.piece_cases hnames hback with hpiece | hpiece
    · rw [hpiece] at hin
      exact houtDir hin
    · rw [hpiece] at hin
      exact hout hin

/-- Nothing was resolved, and there is a link on the way. -/
theorem Accepted.unseen_of_none
    (hparent : s.realPathSync (dirname (normalize p)).text = none) : s.Unseen jails p := by
  rw [h.resolve_of_none hreal hparent] at hin
  by_contra hunseen
  have hlinks : ∀ before n after, names p = before ++ n :: after →
      ¬s.fs.IsLink (s.start p ++ before ++ [n]) := by
    intro before n after hnames hlink
    have hplace := (location_of_link h.up_notMem hnames hlink).symm.trans hloc
    exact hunseen (.earlierLink hreal hparent hnames hlink ⟨loc, hplace, hout⟩)
  rw [location_eq h.up_notMem, place_walk_names s.limit hlinks] at hloc
  obtain rfl := some.inj hloc
  exact hout hin

end LeadsOut

/-- A path that leads out of the jails is one that the check does not see. -/
theorem Accepted.unseen (h : s.Accepted jails p) (hjails : ∀ jail ∈ jails, s.IsJailDir jail)
    (hloc : s.location p = some loc) (hout : ¬s.InJail jails loc) : s.Unseen jails p := by
  rcases eq_or_ne jails [] with hnil | hne
  · exact .noJails hnil hloc
  have hin : s.InJail jails (resolve s.cwd (s.realPath (normalize p))) :=
    (inJail_iff hjails).2 (h.inside hne)
  cases hreal : s.realPathSync (normalize p).text with
  | some real =>
    obtain rfl := some.inj (hloc.symm.trans (h.resolve_of_real hreal))
    exact absurd hin hout
  | none =>
    cases hparent : s.realPathSync (dirname (normalize p)).text with
    | some realDir => exact h.unseen_of_dir hloc hin hout hreal hparent
    | none => exact h.unseen_of_none hloc hin hout hreal hparent

/-- **The path jail.** The location of an accepted path is inside one of the jails if and only if
the path is not one that the check does not see. -/
theorem path_jail_iff (hjails : ∀ jail ∈ jails, s.IsJailDir jail)
    (hvalid : s.validatePath p (some jails) = true) :
    (∀ loc, s.location p = some loc → s.InJail jails loc) ↔ ¬s.Unseen jails p := by
  have h := accepted_of_validatePath hvalid
  constructor
  · intro hinside hunseen
    obtain ⟨loc, hloc, hout⟩ := hunseen.leads_out h hjails
    exact hout (hinside loc hloc)
  · intro hunseen loc hloc
    by_contra hout
    exact hunseen (h.unseen hjails hloc hout)

/-! ### Capture files -/

/-- `SAFE_FILENAME_REGEX`. -/
def safeFilename (text : Text) : Bool :=
  text ≠ [] && text.all fun c ↦ c.isAlphanum || c == '.' || c == '_' || c == '-'

/-- `PCAP_JAIL`. -/
def pcapJail : List Text :=
  ["./volume/storage/captures/".toList, "./volume/storage/forensics/".toList,
    "/var/lib/cts/captures/".toList, "/var/lib/cts/forensics/".toList]

/-- `PcapFilenameSchema`. -/
def pcapFilename (s : System) (f : Text) : Bool :=
  let last := (Text.split f '/').getLast?.getD []
  let basename := (Text.split last '\x5c').getLast?.getD []
  if safeFilename basename = false ∨ basename = ['.'] ∨ basename = ['.', '.'] then false else
  if '/' ∉ f ∧ '\x5c' ∉ f then true else
  s.validatePath f (some pcapJail)

instance (s : System) (jail : Text) : Decidable (s.IsJailDir jail) :=
  decidable_of_iff (s.fs.node (resolve s.cwd jail) = some .dir ∧
    s.location jail = some (resolve s.cwd jail)) ⟨fun h ↦ ⟨h.1, h.2⟩, fun h ↦ ⟨h.dir, h.real⟩⟩

instance (s : System) (jails : List Text) (loc : List Name) : Decidable (s.InJail jails loc) :=
  decidable_of_iff (∃ jail ∈ jails, (s.location jail).any (· <+: loc) = true) <| by
    simp only [InJail, Option.any_eq_true, decide_eq_true_eq]

/-- A host with the jails for captures, in one of which there is a link to a file that is yet to be
created. -/
def captureHost : System where
  fs := .ofEntries
    ((["/app/volume/storage/captures", "/app/volume/storage/forensics", "/var/lib/cts/captures",
      "/var/lib/cts/forensics", "/etc/cron.d"].flatMap fun text ↦
        (resolve [] text.toList).inits.map fun dir ↦ (dir, .dir)) ++
      [(resolve [] "/var/lib/cts/captures/today.pcap".toList,
        .link true (segsOf "/etc/cron.d/evil".toList))]) (by decide +kernel)
  limit := 40
  cwd := resolve [] "/app".toList
  cwd_dir := by decide +kernel
  decodeURIComponent := fun text ↦ if '%' ∈ text then none else some text

theorem isJailDir_captureHost : ∀ jail ∈ pcapJail, captureHost.IsJailDir jail := by
  decide +kernel

/-- A new capture in the same directory is seen. -/
theorem path_jail_iff_newCapture :
    captureHost.validatePath "/var/lib/cts/captures/new.pcap".toList (some pcapJail) = true ∧
      ¬captureHost.Unseen pcapJail "/var/lib/cts/captures/new.pcap".toList := by
  obtain ⟨hvalid, hnew, hin⟩ :
      captureHost.validatePath "/var/lib/cts/captures/new.pcap".toList (some pcapJail) = true ∧
        captureHost.location "/var/lib/cts/captures/new.pcap".toList =
          some (resolve [] "/var/lib/cts/captures/new.pcap".toList) ∧
        captureHost.InJail pcapJail (resolve [] "/var/lib/cts/captures/new.pcap".toList) := by
    decide +kernel
  refine ⟨hvalid, (path_jail_iff isJailDir_captureHost hvalid).1 fun loc hloc ↦ ?_⟩
  rwa [← some.inj (hnew.symm.trans hloc)]

/-- A capture that is written through the link is accepted, and ends up with the tasks of `cron`. -/
theorem dangling_link_accepted :
    (∀ jail ∈ pcapJail, captureHost.IsJailDir jail) ∧
      captureHost.pcapFilename "/var/lib/cts/captures/today.pcap".toList = true ∧
      captureHost.validatePath "/var/lib/cts/captures/today.pcap".toList (some pcapJail) = true ∧
      ∃ loc, captureHost.location "/var/lib/cts/captures/today.pcap".toList = some loc ∧
        render loc = "/etc/cron.d/evil".toList ∧ ¬captureHost.InJail pcapJail loc := by
  obtain ⟨haccepted, hvalid, hloc⟩ :
      captureHost.pcapFilename "/var/lib/cts/captures/today.pcap".toList = true ∧
        captureHost.validatePath "/var/lib/cts/captures/today.pcap".toList (some pcapJail) = true ∧
        (captureHost.location "/var/lib/cts/captures/today.pcap".toList =
            some (resolve [] "/etc/cron.d/evil".toList) ∧
          render (resolve [] "/etc/cron.d/evil".toList) = "/etc/cron.d/evil".toList ∧
          ¬captureHost.InJail pcapJail (resolve [] "/etc/cron.d/evil".toList)) := by
    decide +kernel
  exact ⟨isJailDir_captureHost, haccepted, hvalid, _, hloc⟩

end System

end Files
