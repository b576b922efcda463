import CounterTerrorist.Core.BoundedMap
import CounterTerrorist.Foundations.Sha256
import Mathlib.Data.List.Infix

/-!
# Scans of the analyzer

`perform_path_scan` looks at a file, or at the files directly in a directory. The verdict on a file
comes from its hash and, for a shell script, from its text.

A hash that is less than an hour old is taken from a cache, without a look at the file, so a file
that has changed since is judged by what it was; and the files of a directory are hashed, but the
hashes are not compared with anything. `scan_reports_iff` says when a scan is right all the same.
-/

namespace Analyzer

open Core

/-- What a path leads to. -/
inductive Node
  /-- A regular file, and whether it can be read. -/
  | file (content : List UInt8) (readable : Bool)
  /-- A directory with these paths in it. -/
  | dir (entries : List String)
  | special

/-- `CacheEntry`. -/
structure CacheEntry where
  hash : String
  timestamp : UInt64

/-- `HASH_CACHE`. -/
abbrev Cache := Lru String CacheEntry

/-- The digest of a file, as `hex::encode` writes it. -/
def sha256 (content : List UInt8) : String :=
  .ofList ((Sha256.hash (content.map UInt8.toNat)).flatMap fun b ↦
    [Nat.digitChar (b / 16), Nat.digitChar (b % 16)])

/-- `malicious_hashes`. -/
def maliciousHashes : List String :=
  ["e3b0c44298fc1c149afbf4c8996fb92427ae41e4649b934ca495991b7852b855",
    "cf83e1357eefb8bdf1542850d66d8007d620e4050b5715dc83f4a921d36ce9ce",
    "f345831526487e4975549040337c688f28f322479e4917a161f36b69b61d3345"]

/-- The extension is `sh`, and the text has the pattern of a downloader. -/
def suspicious (path : String) (content : List UInt8) : Bool :=
  let name := (path.toList.splitOn '/').getLast?.getD []
  decide (".sh".toList <:+ name ∧ name ≠ ".sh".toList) &&
    (String.fromUTF8? ⟨content.toArray⟩).any fun text ↦
      decide ("curl".toList <:+: text.toList ∧ "| bash".toList <:+: text.toList)

section

variable (fs : String → Option Node) (now : String → UInt64) (cache : Cache) (path : String)

/-- What `hash_file` returns without a look at the file; the difference of the times may wrap. -/
def cachedHash : Option String :=
  ((cache.lookup path).filter fun entry ↦ now path - entry.timestamp < 3600).map CacheEntry.hash

/-- `hash_file`. -/
def hashFile : Option String × Cache :=
  let used := (Lru.call 5000 cache (.get path)).2
  match cachedHash now cache path with
  | some hash => (some hash, used)
  | none =>
    match fs path with
    | some (.file content true) =>
      if content.length > 100 * 1024 * 1024 then (none, used)
      else
        let hash := sha256 content
        (some hash, (Lru.call 5000 used (.set path ⟨hash, now path⟩)).2)
    | _ => (none, used)

/-- The line on a file that was hashed. -/
def scanned (hash : String) : String := "Scanned " ++ path ++ ": " ++ hash ++ "\n"

/-- `perform_path_scan`: whether there is anything, the log, and whether a threat was found. -/
def performPathScan : (Bool × String × Bool) × Cache :=
  match fs path with
  | none => ((false, "Path '" ++ path ++ "' does not exist", false), cache)
  | some .special => ((true, "", false), cache)
  | some (.file content readable) =>
    match hashFile fs now cache path with
    | (none, cache) => ((true, "", false), cache)
    | (some hash, cache) =>
      let known := decide (hash ∈ maliciousHashes)
      let script := readable && suspicious path content
      ((true, scanned path hash ++
        (if known then "!!! NATIVE THREAT MATCH: Malicious file hash identified in CTS database.\n"
          else "") ++
        (if script then "!!! HEURISTIC TRIGGER: Suspicious pipe-to-bash downloader pattern.\n"
          else ""), known || script), cache)
  | some (.dir entries) =>
    let after := entries.foldl (fun after path ↦
      match fs path with
      | some (.file ..) =>
        let hashed := hashFile fs now after.2 path
        (after.1 ++ (hashed.1.map (scanned path)).getD "", hashed.2)
      | _ => after) ("", cache)
    ((true, after.1, false), after.2)

/-- The path is a file that is a threat as it is now. -/
def FileThreat : Prop :=
  ∃ content readable, fs path = some (.file content readable) ∧
    content.length ≤ 100 * 1024 * 1024 ∧
    (sha256 content ∈ maliciousHashes ∨ suspicious path content = true)

/-- The path is a threat, or a directory with one directly in it. -/
def Threat : Prop :=
  FileThreat fs path ∨ ∃ entries, fs path = some (.dir entries) ∧ ∃ p ∈ entries, FileThreat fs p

/-- **When a scan is right.** A directory has no threat in it. If the hash of a file comes from the
cache, it is as well known as the hash that the file has now; a script that is suspicious can be
read, or the cached hash is known; and of a file that is too large, neither the cached hash nor the
text is taken for a threat. Without a cached hash, the file can be read, or there is nothing to
report. -/
def Sees : Prop :=
  match fs path with
  | some (.dir entries) => ∀ p ∈ entries, ¬FileThreat fs p
  | some (.file content readable) =>
    match cachedHash now cache path with
    | some hash =>
      if content.length > 100 * 1024 * 1024 then
        hash ∉ maliciousHashes ∧ ¬(readable = true ∧ suspicious path content = true)
      else if suspicious path content = true then readable = true ∨ hash ∈ maliciousHashes
      else hash ∈ maliciousHashes ↔ sha256 content ∈ maliciousHashes
    | none => readable = true ∨ content.length > 100 * 1024 * 1024 ∨
        sha256 content ∉ maliciousHashes ∧ suspicious path content = false
  | _ => True

/-- **Scans report current threats exactly then**, for all files, in every state of the cache and at
all times. -/
theorem scan_reports_iff :
    ((performPathScan fs now cache path).1.2.2 = true ↔ Threat fs path) ↔
      Sees fs now cache path := by
  rw [performPathScan, Sees, Threat]
  rcases hnode : fs path with - | ⟨content, readable⟩ | entries | -
  · simp [FileThreat, hnode]
  · have hthreat : FileThreat fs path ↔ content.length ≤ 100 * 1024 * 1024 ∧
        (sha256 content ∈ maliciousHashes ∨ suspicious path content = true) := by
      simp [FileThreat, hnode]
    rw [hashFile]
    rcases Nat.lt_or_ge (100 * 1024 * 1024) content.length with hlarge | hsmall
    · -- what is too large is no threat, whatever the cache says
      cases cachedHash now cache path with
      | some hash => simp [hthreat, Nat.not_le.2 hlarge]
      | none => cases readable <;> simp [hnode, hthreat, hlarge, Nat.not_le.2 hlarge]
    · cases cachedHash now cache path with
      | some hash => by_cases hscript : suspicious path content = true <;>
          simp [hthreat, hsmall, Nat.not_lt.2 hsmall, hscript, or_comm]
      | none => cases readable <;> simp [hnode, hthreat, hsmall, Nat.not_lt.2 hsmall]
  · simp [FileThreat, hnode]
  · simp [FileThreat, hnode]

end

/-- A directory with one file. -/
def storage (content : List UInt8) : String → Option Node
  | "/srv" => some (.dir ["/srv/a.bin"])
  | "/srv/a.bin" => some (.file content true)
  | _ => none

/-- A file becomes one of the known ones ten minutes after it was scanned. The next scan does not
see it, and neither does a scan of its directory. -/
theorem threat_missed :
    let first := performPathScan (storage [0x61]) (fun _ ↦ 1000) [] "/srv/a.bin"
    let second := performPathScan (storage []) (fun _ ↦ 1600) first.2 "/srv/a.bin"
    let third := performPathScan (storage []) (fun _ ↦ 1600) [] "/srv"
    Threat (storage []) "/srv/a.bin" ∧ second.1.2.2 = false ∧
      Threat (storage []) "/srv" ∧ third.1.2.2 = false := by
  have hthreat : FileThreat (storage []) "/srv/a.bin" :=
    ⟨[], true, rfl, by decide, .inl (by decide +kernel)⟩
  exact ⟨.inl hthreat, by decide +kernel, .inr ⟨_, rfl, _, .head _, hthreat⟩, by decide +kernel⟩

end Analyzer
