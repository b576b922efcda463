import CounterTerrorist.Audit.Queries
import CounterTerrorist.Audit.Sync
import CounterTerrorist.Core.JsonText

/-!
# Evidence bundles

`ForensicService.generateEvidenceBundle` writes the latest events of the ledger and the process tree
to a file, piece by piece, and signs it with the key of the mesh's root authority.

What it signs is a summary: the id of the bundle, the time, the node, and the number of events. The
signature says nothing else about the events, and nothing about the process tree
(`evidence_never_bound`), however good it is. So the content of a file can be exchanged, and the
signature stays valid (`edited_evidence_valid`).

The signature scheme is assumed to be perfect (`Signer`): a text has one signature, no other is
accepted for it, and no two texts share one. How `JSON.stringify` prints an event or a process is
left to the runtime (`Printer`); the text that is signed is spelled out.
-/

namespace Audit

open Core List

/-! ### The file -/

/-- An entry of the process tree. -/
structure ProcessNode where
  pid : ℤ
  ppid : ℤ
  comm : String
  exe : Option String
  children : List ℤ
  isGhost : Option Bool
deriving Repr, DecidableEq

/-- `JSON.stringify` of the records of a bundle. -/
structure Printer where
  event : AuditEvent → List Char
  process : ProcessNode → List Char

/-- Signatures with the key of the root authority. -/
structure Signer where
  sign : List Char → String
  verify : List Char → String → Bool
  /-- Only the signature of a text is accepted for it. -/
  verify_iff : ∀ {text signature}, verify text signature = true ↔ signature = sign text
  injective : ∀ {text text'}, sign text = sign text' → text = text'

/-- What a bundle file says. -/
structure EvidenceBundle where
  bundleId : String
  timestamp : String
  node : String
  logs : List AuditEvent
  processTree : List ProcessNode
  /-- `null` if there was no key to sign with. -/
  signature : Option String

namespace EvidenceBundle

/-- The elements of an array, one a line. -/
def elements (texts : List (List Char)) : List (List Char) :=
  texts.mapIdx fun i text ↦
    "      ".toList ++ text ++ (if i < texts.length - 1 then [','] else []) ++ ['\n']

/-- `JSON.stringify` of a string or `null`. -/
def nullable : Option String → List Char
  | some s => quote s
  | none => "null".toList

/-- What is written first. -/
def headerWrites (b : EvidenceBundle) : List (List Char) :=
  ["\x7b\n".toList,
    "  \x22version\x22: \x221.4\x22,\n".toList,
    "  \x22id\x22: ".toList ++ quote b.bundleId ++ ",\n".toList,
    "  \x22timestamp\x22: ".toList ++ quote b.timestamp ++ ",\n".toList,
    "  \x22node\x22: ".toList ++ quote b.node ++ ",\n".toList,
    "  \x22data\x22: \x7b\n".toList]

/-- An array. -/
def arrayWrites (name : List Char) (texts : List (List Char)) : List (List Char) :=
  ["    ".toList ++ name ++ ": [\n".toList] ++ elements texts ++ ["    ],\n".toList]

/-- What is written last. -/
def footerWrites (b : EvidenceBundle) : List (List Char) :=
  ["    \x22networkSnapshot\x22: []\n".toList,
    "  \x7d,\n".toList,
    "  \x22signature\x22: ".toList ++ nullable b.signature ++ ",\n".toList,
    "  \x22signer\x22: \x22MeshRootCA\x22\n".toList,
    "\x7d\n".toList]

/-- What is written to the file, one piece after the other. -/
def writes (print : Printer) (b : EvidenceBundle) : List (List Char) :=
  b.headerWrites ++
    arrayWrites "\x22logs\x22".toList (b.logs.map print.event) ++
    arrayWrites "\x22processTree\x22".toList (b.processTree.map print.process) ++
    b.footerWrites

/-- The file. -/
def file (print : Printer) (b : EvidenceBundle) : List Char := (b.writes print).flatten

/-- `signingPayload`: `JSON.stringify` of an object with these four fields. -/
def signingPayload (bundleId timestamp node : String) (logCount : ℕ) : List Char :=
  "\x7b\x22bundleId\x22:".toList ++ quote bundleId ++
  ",\x22timestamp\x22:".toList ++ quote timestamp ++
  ",\x22node\x22:".toList ++ quote node ++
  ",\x22logCount\x22:".toList ++ decimal.text logCount ++ "\x7d".toList

/-- The text that the signature of this file should be for. -/
def payload (b : EvidenceBundle) : List Char :=
  signingPayload b.bundleId b.timestamp b.node b.logs.length

/-- The file has a valid signature. -/
def Valid (S : Signer) (b : EvidenceBundle) : Prop :=
  ∃ signature, b.signature = some signature ∧ S.verify b.payload signature = true

/-- Two files claim to be the same bundle. -/
structure SameBundle (b' b : EvidenceBundle) : Prop where
  bundleId : b'.bundleId = b.bundleId
  timestamp : b'.timestamp = b.timestamp
  node : b'.node = b.node

/-- The signature determines what is in the file. -/
def Bound (S : Signer) (b : EvidenceBundle) : Prop :=
  ∀ b' : EvidenceBundle, b'.SameBundle b → b'.Valid S →
    b'.logs = b.logs ∧ b'.processTree = b.processTree

end EvidenceBundle

/-- `generateEvidenceBundle`, with what it reads: an id, the time, the name of the host, the ledger,
the process tree and the key, if there is one that can be used. -/
def generateEvidenceBundle (signer : Option Signer) (bundleId timestamp node : String)
    (audit : AuditService) (processTree : List ProcessNode) (limit : ℕ) : EvidenceBundle :=
  let logs := audit.getRecentEvents limit
  { bundleId := bundleId
    timestamp := timestamp
    node := node
    logs := logs
    processTree := processTree
    signature := signer.map fun S ↦
      S.sign (EvidenceBundle.signingPayload bundleId timestamp node logs.length) }

/-! ### What the signature covers -/

namespace EvidenceBundle

variable {S : Signer} {b b' : EvidenceBundle}

theorem signingPayload_inj {bundleId timestamp node : String} {m n : ℕ}
    (h : signingPayload bundleId timestamp node m = signingPayload bundleId timestamp node n) :
    m = n := by
  exact Int.ofNat.inj (decimal.injective (append_cancel_left (append_cancel_right h)))

/-- What is generated with a key is valid. -/
theorem valid_generateEvidenceBundle (S : Signer) (bundleId timestamp node : String)
    (audit : AuditService) (processTree : List ProcessNode) (limit : ℕ) :
    (generateEvidenceBundle (some S) bundleId timestamp node audit processTree limit).Valid S :=
  ⟨_, rfl, S.verify_iff.2 rfl⟩

/-- **What a valid signature says.** A file that goes by the same id, time, node and signature is
valid if it has the same number of events. -/
theorem Valid.iff_length_eq (hvalid : b.Valid S) (hsame : b'.SameBundle b)
    (hsig : b'.signature = b.signature) :
    b'.Valid S ↔ b'.logs.length = b.logs.length := by
  obtain ⟨signature, hb, hver⟩ := hvalid
  obtain rfl := S.verify_iff.1 hver
  have hpayload : b'.payload = signingPayload b.bundleId b.timestamp b.node b'.logs.length := by
    rw [payload, hsame.bundleId, hsame.timestamp, hsame.node]
  constructor
  · rintro ⟨signature, hb', hverify'⟩
    obtain rfl : S.sign b.payload = signature :=
      Option.some.inj (hb.symm.trans (hsig.symm.trans hb'))
    have htext : b.payload = b'.payload := S.injective (S.verify_iff.1 hverify')
    exact (signingPayload_inj (htext.trans hpayload)).symm
  · intro hlen
    refine ⟨_, hsig.trans hb, S.verify_iff.2 ?_⟩
    rw [hpayload, hlen, payload]

/-- The first element of an array, and the others. -/
theorem exists_elements_cons (text : List Char) (texts : List (List Char)) :
    ∃ first, first ≠ [] ∧ elements (text :: texts) = first :: elements texts := by
  rw [elements, mapIdx_cons]
  refine ⟨_, append_ne_nil_of_right_ne_nil _ (cons_ne_nil _ _), congrArg _ ?_⟩
  -- a comma follows the same elements as before
  have hidx (i : ℕ) : i + 1 < (text :: texts).length - 1 ↔ i < texts.length - 1 := by
    rw [length_cons]
    omega
  simp only [hidx, elements]

/-- An array with one more element is another text. -/
theorem arrayWrites_ne (name text : List Char) (texts : List (List Char)) :
    (arrayWrites name (text :: texts)).flatten ≠ (arrayWrites name texts).flatten := by
  obtain ⟨first, hfirst, heq⟩ := exists_elements_cons text texts
  rw [arrayWrites, arrayWrites, heq, flatten_append, flatten_append, flatten_append, flatten_append]
  intro h
  exact hfirst (append_left_eq_self.1 (append_cancel_left (append_cancel_right h)))

/-- The place of the process tree. -/
theorem file_eq (print : Printer) (b : EvidenceBundle) : b.file print =
      (b.headerWrites ++ arrayWrites "\x22logs\x22".toList (b.logs.map print.event)).flatten ++
        (arrayWrites "\x22processTree\x22".toList (b.processTree.map print.process)).flatten ++
        b.footerWrites.flatten := by
  rw [file, writes, flatten_append, flatten_append]

/-- A bundle with one more process is another file. -/
theorem file_ne (print : Printer) (b : EvidenceBundle) (process : ProcessNode) :
    { b with processTree := process :: b.processTree }.file print ≠ b.file print := by
  rw [file_eq, file_eq]
  intro h
  exact arrayWrites_ne _ _ _ (append_cancel_left (append_cancel_right h))

/-- **Evidence is never bound by its signature.** Whatever bundle is valid: its signature stays
valid for every file with as many events and any process tree, and there is such a file with another
content. -/
theorem evidence_never_bound (print : Printer) (hvalid : b.Valid S) :
    (∀ b' : EvidenceBundle, b'.SameBundle b → b'.signature = b.signature →
      (b'.Valid S ↔ b'.logs.length = b.logs.length)) ∧
    (∃ b' : EvidenceBundle, b'.SameBundle b ∧ b'.signature = b.signature ∧ b'.Valid S ∧
      b'.file print ≠ b.file print) ∧
    ¬b.Bound S := by
  -- one more process
  let process : ProcessNode := ⟨1, 0, "init", none, [], none⟩
  let edited : EvidenceBundle := { b with processTree := process :: b.processTree }
  have hsame : edited.SameBundle b := ⟨rfl, rfl, rfl⟩
  have hedited : edited.Valid S := (hvalid.iff_length_eq hsame rfl).2 rfl
  refine ⟨fun b' hb' hsignature ↦ hvalid.iff_length_eq hb' hsignature,
    ⟨edited, hsame, rfl, hedited, file_ne print b process⟩, fun hbound ↦ ?_⟩
  exact cons_ne_self _ _ (hbound edited hsame hedited).2

end EvidenceBundle

/-! ### Sample values -/

/-- A scheme that signs a text with itself. -/
def Signer.plain : Signer where
  sign := String.ofList
  verify text signature := signature == String.ofList text
  verify_iff := beq_iff_eq
  injective h := String.ofList_injective h

/-- The bundle of a node with one event. -/
def oneLogin : EvidenceBundle :=
  generateEvidenceBundle (some .plain) "7f" "2026-01-01T00:00:00.000Z" "n1"
    AuditService.oneStored [] 5000

/-- The same file after somebody has rewritten the event. -/
def oneLogout : EvidenceBundle :=
  { oneLogin with logs := [AuditService.remoteEvent "a" "logout" "GENESIS"] }

/-- **An edited bundle is valid.** -/
theorem edited_evidence_valid :
    oneLogin.Valid .plain ∧ oneLogout.Valid .plain ∧ oneLogout.SameBundle oneLogin ∧
      oneLogout.signature = oneLogin.signature ∧
      oneLogin.logs.map (·.message) = ["login"] ∧ oneLogout.logs.map (·.message) = ["logout"] ∧
      oneLogout.logs ≠ oneLogin.logs := by
  have hlogin : oneLogin.Valid .plain := EvidenceBundle.valid_generateEvidenceBundle ..
  have hsame : oneLogout.SameBundle oneLogin := ⟨rfl, rfl, rfl⟩
  refine ⟨hlogin, (hlogin.iff_length_eq hsame rfl).2 rfl, hsame, rfl, rfl, rfl, fun h ↦ ?_⟩
  have hmessages := congrArg (List.map fun e : AuditEvent ↦ e.message) h
  exact absurd hmessages (by decide)

theorem evidence_never_bound_oneLogin : oneLogin.Valid .plain ∧ ¬oneLogin.Bound .plain := by
  have hlogin : oneLogin.Valid .plain := EvidenceBundle.valid_generateEvidenceBundle ..
  exact ⟨hlogin, (EvidenceBundle.evidence_never_bound ⟨fun _ ↦ [], fun _ ↦ []⟩ hlogin).2.2⟩

end Audit
