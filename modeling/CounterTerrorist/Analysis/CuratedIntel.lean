import CounterTerrorist.Foundations.Run
import CounterTerrorist.Network.PrivateIp

/-!
# Enforcement records

A blocked address has a record `["enforcement", ip]` in the store; after a restart the firewall
blocks what it finds there. `FirewallManager.blockIp` writes records for valid addresses.
`CuratedIntelService.commitIsolation` calls it, ignores the result, and writes the record again,
whatever it is for.

What is committed comes from feeds: a line of an IP feed is an indicator, also if it is a range or
has other fields in it. It is committed once its score is 95, for some feeds at once and for others
after a few sightings. As long as everything that a feed can bring to this score is a valid address,
all records are for such; and if the firewall accepts it, all records are for addresses that it has
blocked (`records_real`).

Scores are counted in half points. What only logs or enriches an indicator is left out.
-/

namespace Analysis

open Core Network

/-! ### Feeds -/

/-- The sources. -/
inductive Source
  | abuseCh | malwareBazaar | urlhaus | greenSnow | torExitNodes | binaryDefense | openPhish
  | emergingThreats | talosIntelligence | fireholL1 | fireholL2 | alienVault | spamhaus
deriving DecidableEq, Repr

/-- What an indicator is. -/
inductive IndicatorType
  | ip | url | hash
deriving DecidableEq, Repr

/-- The type of the indicators of a source. -/
def Source.type : Source → IndicatorType
  | .malwareBazaar => .hash
  | .urlhaus | .openPhish => .url
  | _ => .ip

/-- `SOURCE_WEIGHTS`. -/
def Source.weight : Source → ℕ
  | .malwareBazaar | .spamhaus => 98
  | .abuseCh | .urlhaus => 95
  | .greenSnow | .openPhish | .talosIntelligence => 90
  | .fireholL1 | .binaryDefense => 85
  | .torExitNodes | .emergingThreats => 80
  | .fireholL2 => 60
  | .alienVault => 50

/-- `line.length`: characters outside of the basic plane have two units. -/
def units (line : Text) : ℕ := (line.map fun c ↦ if c.toNat < 2 ^ 16 then 1 else 2).sum

/-- Quotes are taken away. -/
def unquote (field : Text) : Text := field.filter (· != '\x22')

/-- `split(", ")`. -/
def splitFields : Text → List Text
  | [] => [[]]
  | ',' :: ' ' :: text => [] :: splitFields text
  | c :: text => (splitFields text).modifyHead (c :: ·)

/-- A hash in hexadecimal. -/
def isHash (text : Text) : Bool :=
  text.length = 64 &&
    text.all fun c ↦ c.isDigit || ('a' ≤ c && c ≤ 'f') || ('A' ≤ c && c ≤ 'F')

/-- The indicator of a line; `none` is a line that is skipped. -/
def indicatorOf (source : Source) (line : Text) : Option Text :=
  if units line < 5 ∨ line.head? = some '#' then none
  else
    match source with
    | .abuseCh => some (((Text.split line ',')[1]?.map unquote).getD line.trim)
    | .urlhaus => some (((Text.split line ',')[2]?.map (Text.trim ∘ unquote)).getD line.trim)
    | .malwareBazaar =>
      if 8 < (splitFields line).length then
        ((splitFields line)[1]?.map (Text.trim ∘ unquote)).filter isHash
      else none
    | _ => some line.trim

/-! ### The store -/

/-- `IntelIndicator`, without what nothing depends on. -/
structure Indicator where
  type : IndicatorType
  score : ℕ
deriving DecidableEq, Repr

/-- The store, and the addresses for which a call of `blockIp` has succeeded. -/
structure Store where
  threats : Text → Option Indicator
  enforcement : Text → Bool
  accepted : Text → Bool

/-- How a call of `blockIp` ends that is for a valid address. -/
inductive Verdict
  | unlogged
  | failed
  | thrown
  | succeeded
deriving DecidableEq, Repr

/-- A record is written. -/
def Store.enforce (s : Store) (ip : Text) : Store :=
  { s with enforcement := fun k ↦ k == ip || s.enforcement k }

/-- `blockIp`, and whether it throws. -/
def Store.blockIp (s : Store) (ip : Text) (verdict : Verdict) : Store × Bool :=
  if isValidIP ip then
    match verdict with
    | .unlogged => (s, true)
    | .failed => (s.enforce ip, false)
    | .thrown => (s.enforce ip, true)
    | .succeeded => ({ s.enforce ip with accepted := fun k ↦ k == ip || s.accepted k }, false)
  else (s, false)

/-- `commitIsolation`, and whether it throws. -/
def Store.commitIsolation (s : Store) (ip : Text) (verdict : Verdict) : Store × Bool :=
  let (s, threw) := s.blockIp ip verdict
  if threw then (s, true) else (s.enforce ip, false)

/-- The new entry of an indicator. -/
def curate (source : Source) : Option Indicator → Indicator
  | some existing => { existing with score := min 200 (existing.score + source.weight) }
  | none => ⟨source.type, 2 * source.weight⟩

/-- An entry is written. -/
def Store.remember (s : Store) (indicator : Text) (curated : Indicator) : Store :=
  { s with threats := fun k ↦ if k = indicator then some curated else s.threats k }

/-- The indicator of a line, unless it is on the allowlist. -/
def listed (allowlist : List Text) (source : Source) (line : Text) : Option Text :=
  (indicatorOf source line).filter fun i ↦ !allowlist.any (·.isPrefixOf i)

/-- An IP indicator with a score of 95 and no record is isolated; the Boolean says whether this
throws. -/
def Store.autoIsolate (s : Store) (indicator : Text) (curated : Indicator) (verdict : Verdict) :
    Store × Bool :=
  if 190 ≤ curated.score ∧ curated.type = .ip ∧ s.enforcement indicator = false then
    s.commitIsolation indicator verdict
  else (s, false)

/-- The loop of `processSource`. -/
def processLines (allowlist : List Text) (source : Source) (verdict : Text → Verdict) :
    List Text → ℕ → ℕ → Store → Store
  | [], _, _, s => s
  | line :: lines, consecutiveExisting, ingestCount, s =>
    match listed allowlist source line with
    | none => processLines allowlist source verdict lines consecutiveExisting ingestCount s
    | some indicator =>
      let existing := s.threats indicator
      let consecutiveExisting := if existing.isSome then consecutiveExisting + 1 else 0
      if 50 < consecutiveExisting then s
      else
        let curated := curate source existing
        let (s, threw) := s.autoIsolate indicator curated (verdict indicator)
        if threw then s
        else
          let s := s.remember indicator curated
          if 100000 < ingestCount + 1 then s
          else
            processLines allowlist source verdict lines consecutiveExisting (ingestCount + 1) s

/-! ### Operations -/

/-- What happens. Entries of indicators expire by themselves; records are looked at by
`processLifecycle`. -/
inductive Operation
  | processSource (source : Source) (data : Text)
  | commitIsolation (ip : Text)
  | blockIp (ip : Text)
  | unblockIp (ip : Text)
  | processLifecycle (expired : Text → Bool)
  | expire (indicator : Text)

/-- An operation, and how the calls of `blockIp` in it end. -/
structure Event where
  operation : Operation
  verdict : Text → Verdict

/-- The store after an operation. -/
def perform (allowlist : List Text) (s : Store) (ev : Event) : Store :=
  match ev.operation with
  | .processSource source data =>
    processLines allowlist source ev.verdict (Text.split data '\n') 0 0 s
  | .commitIsolation ip => (s.commitIsolation ip (ev.verdict ip)).1
  | .blockIp ip => (s.blockIp ip (ev.verdict ip)).1
  | .unblockIp ip =>
    if isValidIP ip then { s with enforcement := fun k ↦ k != ip && s.enforcement k } else s
  | .processLifecycle expired =>
    -- what has expired is kept for another day if it is still in the ledger with a score of 70
    { s with enforcement := fun k ↦ s.enforcement k &&
        (!expired k || (s.threats k).any (140 ≤ ·.score)) }
  | .expire indicator =>
    { s with threats := fun k ↦ if k = indicator then none else s.threats k }

/-- A step of both services. -/
def step (allowlist : List Text) (s : Store) (ev : Event) : Option Store :=
  some (perform allowlist s ev)

/-! ### Records -/

/-- All records are for valid addresses; if `strict`, for such that the firewall has accepted. -/
def RecordsReal (strict : Bool) (s : Store) : Prop :=
  ∀ k, s.enforcement k = true → isValidIP k = true ∧ (strict = true → s.accepted k = true)

/-- The entry of an indicator after a number of sightings in a feed. -/
def seen (source : Source) (existing : Option Indicator) : ℕ → Option Indicator
  | 0 => existing
  | n + 1 => seen source (some (curate source existing)) n

/-- The lines of a feed are enough to have an indicator isolated. -/
def Isolates (allowlist : List Text) (source : Source) (lines : List Text) (s : Store) (k : Text) :
    Prop :=
  let indicators := lines.filterMap (listed allowlist source)
  k ∈ indicators ∧ s.enforcement k = false ∧
    ∃ c, seen source (s.threats k) (indicators.count k) = some c ∧ 190 ≤ c.score ∧ c.type = .ip

/-- What an operation may commit: what a feed is enough for, what is isolated by hand, and a valid
address that is blocked. -/
def Commits (allowlist : List Text) (s : Store) (ev : Event) (k : Text) : Prop :=
  match ev.operation with
  | .processSource source data => Isolates allowlist source (Text.split data '\n') s k
  | .commitIsolation ip => k = ip
  | .blockIp ip => k = ip ∧ isValidIP ip = true
  | _ => False

/-- A valid address; if `strict`, one that the firewall accepts now or has accepted before, unless
it throws before a record is written. -/
def Acceptable (strict : Bool) (verdict : Text → Verdict) (s : Store) (k : Text) : Prop :=
  isValidIP k = true ∧
    (strict = true → verdict k = .succeeded ∨ verdict k = .unlogged ∨ s.accepted k = true)

/-- Only acceptable addresses are committed. -/
def CommitsReal (strict : Bool) (allowlist : List Text) (s : Store) (ev : Event) : Prop :=
  ∀ k, Commits allowlist s ev k → Acceptable strict ev.verdict s k

section

variable {strict : Bool} {allowlist : List Text} {source : Source} {verdict : Text → Verdict}
  {s t : Store} {ip k : Text} {line : Text} {lines : List Text}

/-- A record for a valid address that the firewall has accepted, if `strict`, is real. -/
theorem RecordsReal.enforce (hs : RecordsReal strict s) (hvalid : isValidIP ip = true)
    (hacc : strict = true → s.accepted ip = true) : RecordsReal strict (s.enforce ip) := by
  intro k hk
  obtain hk | hk := Bool.or_eq_true_iff.1 hk
  · rw [eq_of_beq hk]
    exact ⟨hvalid, hacc⟩
  · exact hs k hk

/-- Blocking an acceptable address keeps the records real. -/
theorem RecordsReal.blockIp (hs : RecordsReal strict s)
    (hip : isValidIP ip = true → Acceptable strict verdict s ip) :
    RecordsReal strict (s.blockIp ip (verdict ip)).1 := by
  unfold Store.blockIp
  split
  · rename_i hvalid
    have haccept := (hip hvalid).2
    cases hv : verdict ip with
    | unlogged => exact hs
    | failed | thrown =>
      refine hs.enforce hvalid fun hstrict ↦ ?_
      simpa [hv] using haccept hstrict
    | succeeded =>
      have hmore : RecordsReal strict { s with accepted := fun k ↦ k == ip || s.accepted k } :=
        fun k hk ↦ ⟨(hs k hk).1, fun hstrict ↦ by simp [(hs k hk).2 hstrict]⟩
      exact hmore.enforce hvalid fun _ ↦ by simp
  · exact hs

/-- So does isolating it. -/
theorem RecordsReal.commitIsolation (hs : RecordsReal strict s)
    (hip : Acceptable strict verdict s ip) :
    RecordsReal strict (s.commitIsolation ip (verdict ip)).1 := by
  have hblocked := hs.blockIp fun _ ↦ hip
  rw [Store.commitIsolation]
  split
  rename_i t threw hblock
  rw [hblock] at hblocked
  split
  · exact hblocked
  · refine hblocked.enforce hip.1 fun hstrict ↦ ?_
    have haccept := hip.2 hstrict
    unfold Store.blockIp at hblock
    rw [if_pos hip.1] at hblock
    cases hv : verdict ip <;> rw [hv] at hblock haccept <;> cases hblock <;>
      simp_all [Store.enforce]

/-- What an isolation leaves and adds. -/
structure Grows (s t : Store) : Prop where
  threats : t.threats = s.threats
  enforcement : ∀ k, s.enforcement k = true → t.enforcement k = true
  accepted : ∀ k, s.accepted k = true → t.accepted k = true

theorem grows_autoIsolate (s : Store) (indicator : Text) (curated : Indicator)
    (verdict : Verdict) : Grows s (s.autoIsolate indicator curated verdict).1 := by
  rw [Store.autoIsolate]
  split
  · by_cases hvalid : isValidIP indicator = true
    · cases verdict <;> constructor <;>
        simp +contextual [Store.commitIsolation, Store.blockIp, hvalid, Store.enforce]
    · constructor <;>
        simp +contextual [Store.commitIsolation, Store.blockIp, hvalid, Store.enforce]
  · exact ⟨rfl, fun _ ↦ id, fun _ ↦ id⟩

/-- Once there are points enough, there are enough after every sighting. -/
theorem exists_seen {c : Indicator} (hscore : 190 ≤ c.score) (htype : c.type = .ip) (n : ℕ) :
    ∃ c', seen source (some c) n = some c' ∧ 190 ≤ c'.score ∧ c'.type = .ip := by
  induction n generalizing c with
  | zero => exact ⟨c, rfl, hscore, htype⟩
  | succ n ih => exact ih (Nat.le_min.2 ⟨by decide, Nat.le_add_right_of_le hscore⟩) htype

variable {indicator : Text}

/-- A line that is listed is one sighting more. -/
theorem Isolates.cons (hline : listed allowlist source line = some indicator) (hgrows : Grows s t)
    (h : Isolates allowlist source lines
      (t.remember indicator (curate source (s.threats indicator))) k) :
    Isolates allowlist source (line :: lines) s k := by
  obtain ⟨hmem, hfree, hseen⟩ := h
  refine ⟨?_, ?_, ?_⟩
  · rw [List.filterMap_cons_some hline]
    exact List.mem_cons_of_mem _ hmem
  · exact Bool.eq_false_of_not_eq_true fun hk ↦ Bool.false_ne_true
      (hfree.symm.trans (hgrows.enforcement k hk))
  · rw [List.filterMap_cons_some hline]
    by_cases hk : k = indicator
    · subst hk
      rw [List.count_cons_self, seen]
      simpa [Store.remember] using hseen
    · rw [List.count_cons_of_ne (Ne.symm hk)]
      simpa [Store.remember, hk, hgrows.threats] using hseen

/-- If all that a feed is enough for is acceptable, the records stay real. -/
theorem RecordsReal.processLines (hs : RecordsReal strict s)
    (hok : ∀ k, Isolates allowlist source lines s k → Acceptable strict verdict s k) (n m : ℕ) :
    RecordsReal strict (processLines allowlist source verdict lines n m s) := by
  induction lines generalizing n m s with
  | nil => exact hs
  | cons line lines ih =>
    rw [Analysis.processLines]
    split
    next hline =>
      refine ih hs (fun k hk ↦ hok k ?_) n m
      rwa [Isolates, List.filterMap_cons_none hline]
    next indicator hline =>
      simp only
      generalize (if (s.threats indicator).isSome then n + 1 else 0) = n'
      split
      · exact hs
      have hgrows := grows_autoIsolate s indicator (curate source (s.threats indicator))
        (verdict indicator)
      have hisolated : RecordsReal strict (s.autoIsolate indicator
          (curate source (s.threats indicator)) (verdict indicator)).1 := by
        rw [Store.autoIsolate]
        split
        next hscore =>
          refine hs.commitIsolation (hok indicator ⟨?_, hscore.2.2, ?_⟩)
          · rw [List.filterMap_cons_some hline]
            exact List.mem_cons_self
          · rw [List.filterMap_cons_some hline, List.count_cons_self]
            exact exists_seen hscore.1 hscore.2.1 _
        next => exact hs
      split
      · exact hisolated
      · split
        · exact hisolated
        · refine ih (s := Store.remember _ _ _) hisolated (fun k hk ↦ ?_) n' (m + 1)
          obtain ⟨hvalid, haccept⟩ := hok k (hk.cons hline hgrows)
          exact ⟨hvalid, fun hstrict ↦ (haccept hstrict).imp_right
            (Or.imp_right (hgrows.accepted k))⟩

/-- What holds of the records is kept by every operation that commits only what is acceptable. -/
theorem RecordsReal.step {ev : Event} (hs : RecordsReal strict s)
    (hok : CommitsReal strict allowlist s ev) (hstep : step allowlist s ev = some t) :
    RecordsReal strict t := by
  obtain rfl := Option.some.inj hstep
  have hfewer {t : Store} (hrecords : ∀ k, t.enforcement k = true → s.enforcement k = true)
      (hacc : t.accepted = s.accepted) : RecordsReal strict t :=
    fun k hk ↦ hacc ▸ hs k (hrecords k hk)
  unfold CommitsReal Commits at hok
  unfold perform
  cases hop : ev.operation <;> simp only [hop] at hok ⊢
  case processSource source data => exact hs.processLines hok 0 0
  case commitIsolation ip => exact hs.commitIsolation (hok ip rfl)
  case blockIp ip => exact hs.blockIp fun hvalid ↦ hok ip ⟨rfl, hvalid⟩
  case unblockIp ip =>
    split
    · exact hfewer (fun k hk ↦ (Bool.and_eq_true_iff.1 hk).2) rfl
    · exact hs
  case processLifecycle expired => exact hfewer (fun k hk ↦ (Bool.and_eq_true_iff.1 hk).1) rfl
  case expire indicator => exact hfewer (fun _ ↦ id) rfl

end

/-- **Enforcement records are real** as long as what is committed is. In every run of operations
that commit only valid addresses, all records are for such; and they are for addresses that
`blockIp` has accepted if it accepts what is committed. -/
theorem records_real (strict : Bool) (allowlist : List Text) {s t : Store} {evs : List Event}
    (hs : RecordsReal strict s)
    (hok : Machine.Guarded (step allowlist) (CommitsReal strict allowlist) s evs)
    (hrun : Machine.run (step allowlist) s evs = some t) : RecordsReal strict t :=
  Machine.run_invariant RecordsReal.step hs hok hrun

/-- There is nothing yet. -/
def emptyStore : Store := ⟨fun _ ↦ none, fun _ ↦ false, fun _ ↦ false⟩

/-- An address that two feeds have, and that the firewall accepts when it is isolated. -/
def twoFeeds : List Event :=
  [⟨.processSource .torExitNodes "# exits\n203.0.113.7".toList, fun _ ↦ .succeeded⟩,
    ⟨.processSource .greenSnow "203.0.113.7".toList, fun _ ↦ .succeeded⟩]

theorem records_real_twoFeeds : ∃ t, Machine.run (step []) emptyStore twoFeeds = some t ∧
    t.enforcement "203.0.113.7".toList = true ∧ RecordsReal true t := by
  obtain ⟨t, hrun⟩ : ∃ t, Machine.run (step []) emptyStore twoFeeds = some t := ⟨_, rfl⟩
  have hone {source : Source} {data : Text} {s : Store} {k : Text}
      (hlisted : (Text.split data '\n').filterMap (listed [] source) = ["203.0.113.7".toList])
      (hk : Isolates [] source (Text.split data '\n') s k) :
      Acceptable true (fun _ ↦ .succeeded) s k := by
    have hmem := hk.1
    rw [hlisted, List.mem_singleton] at hmem
    rw [hmem]
    exact ⟨by decide +kernel, fun _ ↦ .inl rfl⟩
  refine ⟨t, hrun, ?_, records_real true [] (s := emptyStore) nofun ?_ hrun⟩
  · obtain rfl := Option.some.inj hrun
    decide +kernel
  · exact ⟨fun k ↦ hone (by decide +kernel), fun _ _ ↦
      ⟨fun k ↦ hone (by decide +kernel), fun _ _ ↦ trivial⟩⟩

/-- **A record is not real.** A line of a feed has a range in place of an address. -/
theorem range_enforced : ∃ u, Machine.run (step []) emptyStore
      [⟨.processSource .spamhaus "192.0.2.0/24 ; SBL1".toList, fun _ ↦ .succeeded⟩] = some u ∧
    u.enforcement "192.0.2.0/24 ; SBL1".toList = true ∧
    isValidIP "192.0.2.0/24 ; SBL1".toList = false ∧
    u.accepted "192.0.2.0/24 ; SBL1".toList = false := by
  refine ⟨_, rfl, ?_, ?_, ?_⟩ <;> decide +kernel

end Analysis
