import CounterTerrorist.Foundations.Scanning
import CounterTerrorist.Mesh.Signing

/-!
# Discovery

A node announces itself in a datagram, and every node that hears one registers its sender. The
announcement is one line of text. It has a hash in place of the name of the node, the port, the
time, and a signature of name, port and time. The listener takes the fields out of the text with
regular expressions, and checks the signature.

What was signed and what is checked differ: the sender signs its name, and the listener has only the
hash to put in its place. So the signature is accepted only if it happens to be that of the other
text, too (`announcement_discovered_iff`).

The listener asks for `id=`, with `oid=` as an alternative. The alternative is never needed, because
the first expression also finds its field inside `oid=`.
-/

namespace Mesh

open Core Scanning List Option MeshManager

/-- What is known of another node. -/
structure MeshNode where
  id : String
  hostname : String
  address : String
  port : ℕ
  lastSeen : ℤ
  verified : Bool
deriving Repr, DecidableEq

/-- The fields of an announcement, as they are read. -/
structure Announced where
  id : String
  port : ℕ
  ts : ℕ
  sig : String
deriving Repr, DecidableEq

/-- What is signed. -/
def signedFields (id : String) (port ts : ℕ) : JsTree :=
  .obj [("id", .str id), ("port", .num port), ("ts", .num ts)]

/-- A number in a text. -/
def digits (n : ℕ) : String := String.ofList (Nat.toDigits 10 n)

/-- `parseInt`, on digits. -/
def parseInt (ds : List Char) : ℕ := Nat.ofDigitChars 10 ds 0

/-- `[^,|]`. -/
def isPlain (c : Char) : Bool := c != ',' && c != '|'

/-- The text of an announcement. -/
def announcement (discoveryId : String) (port timestamp : ℕ) (signature : String) : String :=
  let txt := "oid=" ++ discoveryId ++ ",port=" ++ digits port ++ ",ts=" ++ digits timestamp
  "_ct-orchestrator._tcp.local|" ++ txt ++ "|sig=" ++ signature

/-- The fields of a message. -/
def readAnnouncement (msg : List Char) : Option Announced := do
  let oidMatch := search "oid=".toList isPlain msg
  let idMatch ← (search "id=".toList isPlain msg).or oidMatch
  let portMatch ← search "port=".toList Char.isDigit msg
  let tsMatch ← search "ts=".toList Char.isDigit msg
  let sigMatch ← search "sig=".toList (· != '|') msg
  some ⟨String.ofList idMatch, parseInt portMatch, parseInt tsMatch, String.ofList sigMatch⟩

namespace MeshManager

variable (c : Crypto) (node : MeshManager)

/-- What stands for the node in its announcements. -/
def discoveryId : String :=
  match node.secret with
  | none => node.nodeId
  | some secret => (c.computeHash (.str (node.nodeId ++ ":" ++ secret))).toOption.getD ""

/-- What `scanNetwork` sends. -/
def scanNetwork (timestamp : ℕ) : Except String String := do
  let signature ← match node.secret with
    | none => .ok "unsigned"
    | some secret => c.signPayload (signedFields node.nodeId node.port timestamp) secret
  .ok (announcement (node.discoveryId c) node.port timestamp signature)

/-- Whether the signature of an announcement is taken. -/
def trusts (a : Announced) : Bool :=
  match node.secret with
  | none => true
  | some secret => c.verifySignature (signedFields a.id a.port a.ts) a.sig secret

/-- The node that `listenForDiscovery` hands to `validateAndRegisterNode`, if any. -/
def listenForDiscovery (now : ℤ) (address msg : String) : Option MeshNode :=
  if msg.utf8ByteSize > 2048 then none
  else if "_ct-orchestrator._tcp.local".toList <:+: msg.toList then
    match readAnnouncement msg.toList with
    | none => none
    | some a =>
      if |now - a.ts| > 300000 then none
      else if !node.trusts c a then none
      else if a.id ≠ node.discoveryId c ∧ a.id ≠ node.nodeId then
        some ⟨a.id, "discovered-peer", address, a.port, now, false⟩
      else none
  else none

end MeshManager

/-! ### Reading an announcement -/

section

variable {did sig : String} {port ts : ℕ}

theorem toList_announcement (did sig : String) (port ts : ℕ) :
    (announcement did port ts sig).toList =
      "_ct-orchestrator._tcp.local".toList ++ '|' :: ("oid=".toList ++ did.toList ++
        ',' :: ("port=".toList ++ Nat.toDigits 10 port ++
          ',' :: ("ts=".toList ++ Nat.toDigits 10 ts ++
            '|' :: ("sig=".toList ++ sig.toList)))) := by
  have hname : "_ct-orchestrator._tcp.local|".toList =
      "_ct-orchestrator._tcp.local".toList ++ ['|'] := by simp
  have hport : ",port=".toList = ',' :: "port=".toList := by simp
  have hts : ",ts=".toList = ',' :: "ts=".toList := by simp
  have hsig : "|sig=".toList = '|' :: "sig=".toList := by simp
  unfold announcement
  simp only [digits, String.toList_append, String.toList_ofList, hname, hport, hts,
    hsig, append_assoc, cons_append, nil_append]

variable {key : List Char}

/-- There is no field in the name of the service. -/
theorem search_name (hkey : '=' ∈ key) (cls : Char → Bool) :
    search key cls "_ct-orchestrator._tcp.local".toList = none :=
  search_eq_none hkey (by decide)

/-- The fields that end at a comma or a bar are looked for part by part. -/
theorem search_announcement {cls : Char → Bool} (hkey : '=' ∈ key ∧ ',' ∉ key ∧ '|' ∉ key)
    (hcls : cls ',' = false ∧ cls '|' = false) (did sig : String) (port ts : ℕ) :
    search key cls (announcement did port ts sig).toList =
      (search key cls ("oid=".toList ++ did.toList)).or
        ((search key cls ("port=".toList ++ Nat.toDigits 10 port)).or
          ((search key cls ("ts=".toList ++ Nat.toDigits 10 ts)).or
            (search key cls ("sig=".toList ++ sig.toList)))) := by
  obtain ⟨hequals, hcomma, hbar⟩ := hkey
  rw [toList_announcement, search_append hbar hcls.2, search_append hcomma hcls.1,
    search_append hcomma hcls.1, search_append hbar hcls.2, search_name hequals, none_or]

theorem isDigit_of_digits (n : ℕ) : ∀ d ∈ Nat.toDigits 10 n, d.isDigit = true :=
  fun _ ↦ isDigit_of_mem_toDigits

theorem search_digits (key : List Char) (n : ℕ) :
    search key Char.isDigit (key ++ Nat.toDigits 10 n) = some (Nat.toDigits 10 n) :=
  search_key_append Nat.toDigits_ne_nil (isDigit_of_digits n)

section

variable (hhex : ∀ d ∈ did.toList, isHex d = true)
include hhex

theorem search_id (hne : did ≠ "") :
    search "id=".toList isPlain (announcement did port ts sig).toList = some did.toList := by
  have hplain : ∀ d ∈ did.toList, isPlain d = true := by
    intro d hd
    have hd := hhex d hd
    refine Bool.and_eq_true_iff.2 ⟨bne_iff_ne.2 ?_, bne_iff_ne.2 ?_⟩ <;> rintro rfl <;> cases hd
  have hfield : search "id=".toList isPlain ("oid=".toList ++ did.toList) = some did.toList := by
    refine (search_cons_of_ne (by decide) ("id=".toList ++ did.toList)).trans ?_
    exact search_key_append (mt String.toList_eq_nil_iff.1 hne) hplain
  rw [search_announcement (by decide) (by decide), hfield, some_or]

theorem search_port : search "port=".toList Char.isDigit (announcement did port ts sig).toList =
      some (Nat.toDigits 10 port) := by
  have hname : search "port=".toList Char.isDigit ("oid=".toList ++ did.toList) = none :=
    search_eq_none (c := 'p') (by decide) (notMem_append (by decide) hhex rfl)
  rw [search_announcement (by decide) (by decide), hname, search_digits, none_or, some_or]

theorem search_ts : search "ts=".toList Char.isDigit (announcement did port ts sig).toList =
      some (Nat.toDigits 10 ts) := by
  have hname : search "ts=".toList Char.isDigit ("oid=".toList ++ did.toList) = none :=
    search_eq_none (c := 't') (by decide) (notMem_append (by decide) hhex rfl)
  have hport : search "ts=".toList Char.isDigit ("port=".toList ++ Nat.toDigits 10 port) = none :=
    search_eq_none (c := 's') (by decide) (notMem_append (by decide) (isDigit_of_digits port) rfl)
  rw [search_announcement (by decide) (by decide), hname, hport, search_digits, none_or,
    none_or, some_or]

theorem search_sig (hbase64 : ∀ d ∈ sig.toList, isBase64 d = true) (hne : sig ≠ "") :
    search "sig=".toList (· != '|') (announcement did port ts sig).toList = some sig.toList := by
  have hbar : ∀ d ∈ sig.toList, (d != '|') = true := by
    intro d hd
    have hd := hbase64 d hd
    refine bne_iff_ne.2 ?_
    rintro rfl
    cases hd
  have hfield : search "sig=".toList (· != '|') ("sig=".toList ++ sig.toList) = some sig.toList :=
    search_key_append (mt String.toList_eq_nil_iff.1 hne) hbar
  -- Here the commas do not end a field, and all that stands before the last bar is one part.
  let txt := "oid=".toList ++ did.toList ++ ',' :: ("port=".toList ++ Nat.toDigits 10 port ++
    ',' :: ("ts=".toList ++ Nat.toDigits 10 ts))
  have hparts : (announcement did port ts sig).toList =
      "_ct-orchestrator._tcp.local".toList ++ '|' ::
        (txt ++ '|' :: ("sig=".toList ++ sig.toList)) := by
    rw [toList_announcement]
    simp only [txt, append_assoc, cons_append]
  have htxt : search "sig=".toList (· != '|') txt = none := by
    refine search_eq_none (c := 'g') (by decide) fun hmem ↦ ?_
    rcases mem_append.1 hmem with hmem | hmem
    · exact notMem_append (by decide) hhex rfl hmem
    rcases mem_append.1 (mem_of_ne_of_mem (by decide) hmem) with hmem | hmem
    · exact notMem_append (by decide) (isDigit_of_digits port) rfl hmem
    · have hmem := mem_of_ne_of_mem (by decide) hmem
      exact notMem_append (by decide) (isDigit_of_digits ts) rfl hmem
  rw [hparts, search_append (by decide) rfl, search_append (by decide) rfl,
    search_name (by decide), htxt, hfield, none_or, none_or]

end

/-- What the sender has put into an announcement is what the listener takes out. -/
theorem readAnnouncement_eq (port ts : ℕ) (hhex : ∀ d ∈ did.toList, isHex d = true)
    (hdid : did ≠ "") (hbase64 : ∀ d ∈ sig.toList, isBase64 d = true) (hsig : sig ≠ "") :
    readAnnouncement (announcement did port ts sig).toList = some ⟨did, port, ts, sig⟩ := by
  have hparse (n : ℕ) : parseInt (Nat.toDigits 10 n) = n := Nat.ofDigitChars_ten_toDigits
  rw [readAnnouncement, search_id hhex hdid, search_port hhex, search_ts hhex,
    search_sig hhex hbase64 hsig]
  show some (Announced.mk _ _ _ _) = _
  rw [String.ofList_toList, String.ofList_toList, hparse, hparse]

/-- With digest, signature and two numbers an announcement fits into a datagram. -/
theorem utf8ByteSize_announcement_le (hdid : did.utf8ByteSize ≤ 64) (hsig : sig.utf8ByteSize ≤ 44)
    (hport : port < 10 ^ 21) (hts : ts < 10 ^ 21) :
    (announcement did port ts sig).utf8ByteSize ≤ 2048 := by
  have hdig {n : ℕ} (hn : n < 10 ^ 21) : (digits n).utf8ByteSize ≤ 4 * 21 :=
    (utf8ByteSize_ofList_le _).trans (Nat.mul_le_mul_left 4
      ((Nat.length_toDigits_le_iff (by decide) (by decide)).2 hn))
  have hport := hdig hport
  have hts := hdig hts
  have htexts : "_ct-orchestrator._tcp.local|".utf8ByteSize = 28 ∧ "oid=".utf8ByteSize = 4 ∧
      ",port=".utf8ByteSize = 6 ∧ ",ts=".utf8ByteSize = 4 ∧ "|sig=".utf8ByteSize = 5 := by
    decide
  unfold announcement
  simp only [String.utf8ByteSize_append]
  omega

theorem isInfix_announcement (did sig : String) (port ts : ℕ) :
    "_ct-orchestrator._tcp.local".toList <:+: (announcement did port ts sig).toList := by
  rw [toList_announcement]
  exact (prefix_append _ _).isInfix

end

/-! ### Who is discovered -/

/-- The announcement that the sender makes at the time `ts` gets as far as `validateAndRegisterNode`
of the listener, with the port of the sender. -/
def Discovered (c : Crypto) (sender listener : MeshManager) (ts : ℕ) (now : ℤ) (address : String) :
    Prop :=
  ∃ msg node, sender.scanNetwork c ts = .ok msg ∧
    listener.listenForDiscovery c now address msg = some node ∧ node.port = sender.port

section

variable {c : Crypto} {sender listener : MeshManager} {secret : String}

theorem exists_discoveryId_eq (hset : sender.secret = some secret) :
    ∃ text, sender.discoveryId c = c.sha256 text := by
  rw [discoveryId, hset]
  exact ⟨_, rfl⟩

theorem exists_scanNetwork_eq (hset : sender.secret = some secret) (ts : ℕ) :
    ∃ sig, c.signPayload (signedFields sender.nodeId sender.port ts) secret = .ok sig ∧
      sender.scanNetwork c ts = .ok (announcement (sender.discoveryId c) sender.port ts sig) := by
  have hret : canonicalStringifyReturns 11 (signedFields sender.nodeId sender.port ts) = true :=
    rfl
  obtain ⟨sig, hsig⟩ := c.exists_signPayload secret hret
  refine ⟨sig, hsig, ?_⟩
  rw [scanNetwork, hset]
  dsimp only
  rw [hsig]
  rfl

/-- What the listener makes of an announcement that says `a`, apart from its age. -/
theorem listenForDiscovery_eq (c : Crypto) (listener : MeshManager) {now : ℤ} (address : String)
    {msg : String} {a : Announced}
    (hsize : msg.utf8ByteSize ≤ 2048) (hname : "_ct-orchestrator._tcp.local".toList <:+: msg.toList)
    (hread : readAnnouncement msg.toList = some a) (hfresh : |now - a.ts| ≤ 300000) :
    listener.listenForDiscovery c now address msg =
      if listener.trusts c a = true ∧ a.id ≠ listener.discoveryId c ∧ a.id ≠ listener.nodeId then
        some ⟨a.id, "discovered-peer", address, a.port, now, false⟩
      else none := by
  rw [listenForDiscovery, if_neg (Nat.not_lt.2 hsize), if_pos hname, hread]
  dsimp only
  rw [if_neg (not_lt.2 hfresh)]
  cases listener.trusts c a with
  | true => simp only [Bool.not_true, Bool.false_eq_true, if_false, true_and]
  | false => simp only [Bool.not_false, Bool.false_eq_true, if_true, false_and, if_false]

/-- For all nodes with the same secret and for every announcement of one of them that the other one
hears within five minutes: the sender is discovered exactly if its signature, which is one of its
name, is also that of its digest, and the digest is neither the listener's nor its name. -/
theorem announcement_discovered_iff (c : Crypto) (sender listener : MeshManager) (ts : ℕ) (now : ℤ)
    (address : String) {secret : String} (hsecret : sender.meshSecret = listener.meshSecret)
    (hset : sender.secret = some secret) (hport : sender.port < 10 ^ 21) (hts : ts < 10 ^ 21)
    (hfresh : |now - ts| ≤ 300000) :
    Discovered c sender listener ts now address ↔
      c.signPayload (signedFields (sender.discoveryId c) sender.port ts) secret =
          c.signPayload (signedFields sender.nodeId sender.port ts) secret ∧
        sender.discoveryId c ≠ listener.discoveryId c ∧
        sender.discoveryId c ≠ listener.nodeId := by
  obtain ⟨sig, hsigned, hsent⟩ := exists_scanNetwork_eq (c := c) hset ts
  obtain ⟨text, htext⟩ := exists_discoveryId_eq (c := c) hset
  obtain ⟨signed, -, rfl⟩ := Crypto.signPayload_eq_ok.1 hsigned
  have hsize := utf8ByteSize_announcement_le (htext ▸ c.sha256_size text)
    (c.hmac_size secret signed) hport hts
  have hread := readAnnouncement_eq sender.port ts (htext ▸ c.sha256_hex text)
    (htext ▸ c.sha256_ne text) (c.hmac_base64 secret signed) (c.hmac_ne secret signed)
  have htrusts : listener.trusts c ⟨sender.discoveryId c, sender.port, ts, c.hmac secret signed⟩ =
      true ↔ c.signPayload (signedFields (sender.discoveryId c) sender.port ts) secret =
        c.signPayload (signedFields sender.nodeId sender.port ts) secret := by
    have hlistener : listener.secret = some secret := by
      rw [MeshManager.secret, ← hsecret]
      exact hset
    rw [MeshManager.trusts, hlistener, hsigned]
    exact Crypto.verifySignature_iff hsigned
  have hheard := listenForDiscovery_eq c listener address hsize (isInfix_announcement _ _ _ _)
    hread hfresh
  rw [← htrusts]
  constructor
  · rintro ⟨msg, node, hmsg, hnode, -⟩
    obtain rfl := Except.ok.inj (hsent.symm.trans hmsg)
    rw [hheard] at hnode
    by_contra hcond
    rw [if_neg hcond] at hnode
    cases hnode
  · intro hcond
    exact ⟨_, _, hsent, hheard.trans (if_pos hcond), rfl⟩

end

/-- The node `n2` hears `n1`, reads the announcement as it was meant, and takes it for a forgery. -/
theorem honest_announcement_rejected :
    ∃ msg, (MeshManager.named "n1" false).scanNetwork .transparent 0 = .ok msg ∧
      readAnnouncement msg.toList = some ⟨"f1", 8000, 0, "sidn1port80"⟩ ∧
      (MeshManager.named "n2" false).listenForDiscovery .transparent 0 "10.0.0.1" msg = none := by
  have hsent : (named "n1" false).scanNetwork .transparent 0 =
    .ok (announcement "f1" 8000 0 "sidn1port80") := rfl
  exact ⟨_, hsent, by decide +kernel, by decide +kernel⟩

/-- A node whose name is its own digest is discovered. -/
theorem announcement_discovered_iff_digest :
    Discovered .transparent (.named "f1" false) (.named "n2" false) 0 0 "10.0.0.1" := by
  refine (announcement_discovered_iff .transparent (.named "f1" false) (.named "n2" false) 0 0 _
    rfl rfl (by decide) (by decide) (by decide)).2 ?_
  exact ⟨rfl, by decide, by decide⟩

end Mesh
