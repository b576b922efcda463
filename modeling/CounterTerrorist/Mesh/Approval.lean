import CounterTerrorist.Mesh.Consensus

/-!
# Approvals

`requestApproval` asks the verified nodes one after the other, and counts those that approve. How
many are needed can be given by the caller; otherwise it is more than half of all nodes, this one
among them.

Two things are different from what the number means. The node itself is one of the nodes, but it is
not counted. And an approval without a signature counts like one with a valid signature; moreover a
signature only has to fit the payload that comes with it, not the request. So the answer is the one
for the signed approvals and the node itself, unless the threshold lies between their number and the
number of approvals without a signature, with one that is not for the request, or with one for the
request and the payload (`approval_iff`).
-/

namespace Mesh

open Core

/-- A call of `requestApproval`, with what it finds outside. -/
structure ApprovalCall where
  env : SigningEnv
  mesh : MeshManager
  /-- `String(value)`, which `atob` uses on a signature that is no text. -/
  string : JsTree → String
  action : String
  data : JsTree
  threshold : Option JsNum
  now : ℤ
  nodes : List Peer

namespace ApprovalCall

variable (c : ApprovalCall)

/-! ### The function -/

/-- `verifiedNodes`. -/
def verifiedNodes : List Peer := c.nodes.filter (·.node.verified)

/-- `totalNodes`. -/
def totalNodes : ℕ := c.verifiedNodes.length + 1

/-- `targetThreshold`. -/
def targetThreshold : JsNum := c.threshold.getD (.nat (c.totalNodes / 2 + 1))

/-- `requestPayload`. -/
def requestPayload : JsTree :=
  .obj [("action", .str c.action), ("data", c.data), ("nodeId", .str c.mesh.nodeId),
    ("timestamp", .num c.now)]

/-- `verifySignature`, for a signature that need not be a text. With node keys, a value without
`startsWith` makes it throw. -/
def verifySignature (payload signature : JsTree) (peerId : String) : Except String Bool :=
  match signature with
  | .str signature => c.mesh.verifySignature c.env payload signature (some peerId)
  | signature =>
    if c.mesh.tpmMode then .error "signature.startsWith is not a function"
    else
      match c.mesh.secret with
      | none => .ok false
      | some secret => .ok (c.env.toCrypto.verifySignature payload (c.string signature) secret)

/-- The signature is valid; an exception is caught. -/
def isValid (payload signature : JsTree) (peerId : String) : Bool :=
  match c.verifySignature payload signature peerId with
  | .ok valid => valid
  | .error _ => false

/-- The reply of a node is counted. -/
def counts (p : Peer) : Bool :=
  match p.reply with
  | none => false
  | some res =>
    if (res.get "approved").truthy then
      if (res.get "signature").truthy then
        c.isValid (res.get "payload") (res.get "signature") p.node.id
      else true
    else false

/-- `requestApproval`. -/
def requestApproval : Except String Bool :=
  if (JsNum.nat c.totalNodes).lt c.targetThreshold then .ok false
  else do
    let _ ← c.mesh.signPayload c.env c.requestPayload
    let approvals := c.verifiedNodes.foldl (fun n p ↦ if c.counts p then n + 1 else n) 0
    .ok (c.targetThreshold.le (.nat approvals))

/-! ### Kinds of replies -/

/-- An approval whose signature is valid for a payload. -/
def signsFor (payload : JsTree → JsTree) (p : Peer) : Bool :=
  match p.reply with
  | none => false
  | some res =>
    (res.get "approved").truthy && (res.get "signature").truthy &&
      c.isValid (payload res) (res.get "signature") p.node.id

/-- An approval with a valid signature of the request. -/
def signs : Peer → Bool := c.signsFor fun _ ↦ c.requestPayload

/-- An approval with a valid signature of the payload that it returns. -/
def signsReturned : Peer → Bool := c.signsFor (·.get "payload")

/-- An approval without a signature. -/
def bare (p : Peer) : Bool :=
  match p.reply with
  | none => false
  | some res => (res.get "approved").truthy && !(res.get "signature").truthy

/-- The number of verified nodes whose approvals are signed. -/
def signed : ℕ := c.verifiedNodes.countP c.signs

/-- The number of those whose approvals have no signature, or one that is valid for the payload that
they return, but not for the request. -/
def unsigned : ℕ :=
  c.verifiedNodes.countP fun p ↦ bare p || c.signsReturned p && !c.signs p

/-- The number of those whose approvals are signed, but return another payload. -/
def missed : ℕ := c.verifiedNodes.countP fun p ↦ c.signs p && !c.signsReturned p

/-- The threshold is above one number, and not above the other. -/
def Between (m n : ℕ) : Prop :=
  (JsNum.nat m).lt c.targetThreshold = true ∧ c.targetThreshold.le (.nat n) = true

variable {c}

/-- What is counted has no signature, or one for the payload that it returns. -/
theorem counts_eq (p : Peer) : c.counts p = (bare p || c.signsReturned p) := by
  rw [counts, bare, signsReturned, signsFor]
  rcases p.reply with - | res
  · rfl
  · dsimp only
    cases (res.get "approved").truthy <;> cases (res.get "signature").truthy <;> simp

/-- What is signed has a signature. -/
theorem bare_eq_false {p : Peer} (h : c.signs p = true) : bare p = false := by
  rw [signs, signsFor] at h
  rw [bare]
  rcases hreply : p.reply with - | res
  · rfl
  · rw [hreply] at h
    simp only [Bool.and_eq_true] at h
    simp [h.1.2]

/-- What is counted: the signed approvals, without those that are missed, and the unsigned ones. -/
theorem countP_counts : c.verifiedNodes.countP c.counts = c.signed + c.unsigned - c.missed := by
  have hsplit := Tally.countP_add_countP_not c.counts c.signs c.verifiedNodes
  have hunsigned : c.unsigned = c.verifiedNodes.countP fun p ↦ c.counts p && !c.signs p := by
    refine List.countP_congr fun p _ ↦ ?_
    rw [counts_eq]
    cases hsigns : c.signs p with
    | true => simp [bare_eq_false hsigns]
    | false => simp
  have hmissed : c.missed = c.verifiedNodes.countP fun p ↦ c.signs p && !c.counts p := by
    refine List.countP_congr fun p _ ↦ ?_
    rw [counts_eq]
    cases hsigns : c.signs p with
    | true => simp [bare_eq_false hsigns]
    | false => simp
  rw [signed]
  omega

/-- **The answer is `true` if as many approvals are counted as are needed.** -/
theorem requestApproval_eq_true_iff : c.requestApproval = .ok true ↔
      (c.mesh.signPayload c.env c.requestPayload).isOk = true ∧
        c.targetThreshold.le (.nat (c.signed + c.unsigned - c.missed)) = true := by
  have hcnt : c.signed + c.unsigned - c.missed ≤ c.totalNodes := by
    rw [← countP_counts]
    exact List.countP_le_length.trans (Nat.le_succ _)
  rw [requestApproval, Tally.foldl_count, Nat.zero_add, countP_counts]
  split_ifs with himp
  · -- More are needed than there are.
    refine ⟨fun h ↦ Bool.noConfusion (Except.ok.inj h), fun h ↦ ?_⟩
    have hnum : c.targetThreshold ≠ .nan := fun hnan ↦ by
      rw [hnan] at himp
      exact Bool.false_ne_true himp
    have hle := JsNum.le_nat_of_le hcnt h.2
    rw [JsNum.le_eq_not_lt JsNum.noConfusion hnum, himp] at hle
    exact absurd hle Bool.false_ne_true
  · cases c.mesh.signPayload c.env c.requestPayload with
    | ok signature => exact ⟨fun h ↦ ⟨rfl, Except.ok.inj h⟩, fun h ↦ congrArg Except.ok h.2⟩
    | error message => exact ⟨fun h ↦ (nomatch h), fun h ↦ absurd h.1 Bool.false_ne_true⟩

/-- Two numbers are on the same side of the threshold exactly if it is not between them. -/
theorem le_iff_le_iff {m n : ℕ} :
    (c.targetThreshold.le (.nat m) = true ↔ c.targetThreshold.le (.nat n) = true) ↔
      ¬(c.Between m n ∨ c.Between n m) := by
  rcases eq_or_ne c.targetThreshold .nan with hnan | hnum
  · simp [Between, hnan]
  · have hlt (k : ℕ) : (JsNum.nat k).lt c.targetThreshold = !c.targetThreshold.le (.nat k) := by
      rw [JsNum.le_eq_not_lt JsNum.noConfusion hnum, Bool.not_not]
    rw [Between, Between, hlt, hlt]
    cases c.targetThreshold.le (.nat m) <;> cases c.targetThreshold.le (.nat n) <;> simp

/-! ### The result -/

end ApprovalCall

/-- Node `me` asks the nodes `a` and `b` about a lockdown. -/
def lockdownApproval (threshold : Option JsNum) (reply : String → JsTree) : ApprovalCall where
  env := plainSigning
  mesh := .named "me" true
  string := fun _ ↦ ""
  action := "LOCKDOWN"
  data := .null
  threshold := threshold
  now := 0
  nodes := [⟨numberedPeer "a", some (reply "a")⟩, ⟨numberedPeer "b", some (reply "b")⟩]

/-- The canonical text of the request. -/
def lockdownText : String :=
  "\x7b\x22action\x22:\x22LOCKDOWN\x22,\x22data\x22:null," ++
    "\x22nodeId\x22:\x22me\x22,\x22timestamp\x22:0\x7d"

/-- A node sends back the request, with its signature. -/
def signedApproval (id : String) : JsTree :=
  .obj [("approved", .bool true),
    ("payload", (lockdownApproval none fun _ ↦ .null).requestPayload),
    ("signature", .str (nodeKeySignature id lockdownText))]

/-- A node only says yes. -/
def bareApproval (_id : String) : JsTree := .obj [("approved", .bool true)]

end Mesh
