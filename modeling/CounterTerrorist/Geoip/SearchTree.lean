import CounterTerrorist.Foundations.BitTree
import CounterTerrorist.Geoip.Encoding
import CounterTerrorist.Geoip.Ipv4InIpv6

/-!
# Lookups are prefix matches

The search tree of a database, as the MaxMind format stores it: which bytes a node is (`nodeBytes`),
and when a tree is stored in a file under the number of a node (`StoredAt`). Nodes may be numbered
in any way, as long as the root is the node 0. A record is the number of a node, the number of nodes
for nothing, or that number and 16 and the place in the data section.

A lookup in a database that holds a table of prefixes finds the data of the prefix that the address
starts with, and otherwise nothing (`lookup_eq_find`).
-/

namespace Geoip

open Core ByteMemory BigEndian Reader

/-! ### The format of the tree -/

/-- The bytes of a node. Records of 28 bits share the byte in the middle. -/
def nodeBytes : RecordSize → ℕ → ℕ → List UInt8
  | .r24, left, right => bigEndian 3 left ++ bigEndian 3 right
  | .r28, left, right =>
    bigEndian 3 left ++ (UInt8.ofNat (left / 2 ^ 24 * 16 + right / 2 ^ 24) :: bigEndian 3 right)
  | .r32, left, right => bigEndian 4 left ++ bigEndian 4 right

/-- The tree is stored in the file under a record. Data is a place in the data section. -/
def StoredAt (buf : Mem) (size : RecordSize) (nodeCount : ℕ) : BitTree ℕ → ℕ → Prop
  | .empty, record => record = nodeCount
  | .data d, record => record = nodeCount + 16 + d
  | .node zero one, record =>
    record < nodeCount ∧ ∃ left right, left < 2 ^ size.bits ∧ right < 2 ^ size.bits ∧
      HoldsAt buf (record * size.nodeByteSize) (nodeBytes size left right) ∧
      StoredAt buf size nodeCount zero left ∧ StoredAt buf size nodeCount one right

/-! ### Records of a node -/

variable {rt : Runtime} {r : Reader}

/-- Three bytes and the four bits above them, joined. -/
theorem join_four_of_holdsAt {buf : Mem} {c n high : ℕ} (h : HoldsAt buf c (bigEndian 3 n))
    (hhigh : high = n / 2 ^ 24) :
    high <<< 24 ||| bitsAt buf c <<< 16 ||| bitsAt buf (c + 1) <<< 8 ||| bitsAt buf (c + 2) =
      n := by
  rw [bigEndian_three] at h
  rw [join_four (bitsAt_lt _) (bitsAt_lt _) (bitsAt_lt _), bitsAt_head h,
    bitsAt_of_holdsAt (i := 1) h rfl, bitsAt_of_holdsAt (i := 2) h rfl, toNat_ofNat, toNat_ofNat,
    toNat_ofNat]
  omega

/-- **Both records of a node are read back.** -/
theorem readRecord_of_holdsAt {node left right : ℕ} (hleft : left < 2 ^ r.metadata.recordSize.bits)
    (hright : right < 2 ^ r.metadata.recordSize.bits)
    (h : HoldsAt r.buf (node * r.metadata.recordSize.nodeByteSize)
      (nodeBytes r.metadata.recordSize left right)) (which : Bool) :
    r.readRecord (some node) which = some (if which then right else left) := by
  generalize hbase : node * r.metadata.recordSize.nodeByteSize = base at h
  unfold readRecord
  dsimp only
  rw [hbase]
  generalize r.metadata.recordSize = size at hleft hright h
  cases size with
  | r24 =>
    obtain ⟨hl, hr⟩ := holdsAt_append.1 h
    cases which with
    | false => exact congrArg some (join_three_of_holdsAt hl hleft)
    | true => exact congrArg some (join_three_of_holdsAt hr hright)
  | r28 =>
    obtain ⟨hl, hrest⟩ := holdsAt_append.1 h
    obtain ⟨hmid, hr⟩ :=
      holdsAt_append.1 (show HoldsAt r.buf _ ([_] ++ bigEndian 3 right) from hrest)
    have hmid := bitsAt_head hmid
    rw [toNat_ofNat, length_bigEndian] at hmid
    rw [RecordSize.bits] at hleft hright
    cases which with
    | false =>
      refine congrArg some (join_four_of_holdsAt (n := left) hl ?_)
      omega
    | true =>
      refine congrArg some (join_four_of_holdsAt (n := right) hr ?_)
      rw [show (0x0f : ℕ) = 2 ^ 4 - 1 from rfl, Nat.and_two_pow_sub_one_eq_mod]
      omega
  | r32 =>
    obtain ⟨hl, hr⟩ := holdsAt_append.1 h
    cases which with
    | false => exact sum_four_of_holdsAt hl hleft
    | true => exact sum_four_of_holdsAt hr hright

/-! ### Walks -/

/-- The data at a place of the data section. -/
def dataAt (rt : Runtime) (r : Reader) (nodeCount d : ℕ) : Traced Call Value := do
  let found ← decode rt r.buf (r.dataSectionStart rt) (maxDecodeDepth + 1)
    (.index (nodeCount * r.metadata.recordSize.nodeByteSize + dataSectionSeparator + d))
  pure found.1

section

variable {nodeCount : ℕ} (hcount : r.metadata.nodeCount = .nat nodeCount)
include hcount

/-- A record above the number of nodes leads to its place. -/
theorem recordAt_data {d : ℕ} (hlt : nodeCount + 16 + d < 2 ^ 32) :
    r.recordAt rt (some (nodeCount + 16 + d)) = dataAt rt r nodeCount d := by
  have hsize : r.metadata.recordSize.nodeByteSize ≤ 8 := by
    cases r.metadata.recordSize <;> decide
  have hproduct : nodeCount * r.metadata.recordSize.nodeByteSize ≤ 2 ^ 32 * 8 :=
    Nat.mul_le_mul (by omega) hsize
  have htree : r.searchTreeSize rt = .nat (nodeCount * r.metadata.recordSize.nodeByteSize) := by
    rw [searchTreeSize, hcount]
    exact Rounding.mul_nat (by omega)
  have hoff : rt.add (rt.sub (nodeNum (some (nodeCount + 16 + d))) (.nat nodeCount))
        (r.searchTreeSize rt) =
      .nat (nodeCount * r.metadata.recordSize.nodeByteSize + dataSectionSeparator + d) := by
    rw [nodeNum, Rounding.sub_nat (by omega) (by omega), htree, Rounding.add_nat (by omega),
      dataSectionSeparator]
    congr 1
    omega
  rw [recordAt, hcount, hoff]
  dsimp only
  rw [ofNum_nat, nodeNum, JsNum.eq_nat, JsNum.lt_nat, decide_eq_false (by omega),
    decide_eq_true (by omega), if_neg Bool.false_ne_true, if_pos rfl, dataAt]

/-- A record that is not above the number of nodes leads to nothing. -/
theorem recordAt_of_le {node : ℕ} (hle : node ≤ nodeCount) :
    r.recordAt rt (some node) = pure .null := by
  rw [recordAt, hcount, nodeNum, JsNum.lt_nat, decide_eq_false (by omega : ¬nodeCount < node)]
  split <;> rfl

/-- At a record that is not a node the walk is over. -/
theorem walk_of_le {node : ℕ} (hle : nodeCount ≤ node) (bits : List Bool) :
    r.walk bits (some node) = some node := by
  cases bits with
  | nil => rfl
  | cons bit bits =>
    rw [walk, hcount, nodeNum, JsNum.le_nat, decide_eq_true hle, if_pos rfl]

/-- **A walk through a stored tree finds what the tree has.** -/
theorem walkFrom_of_storedAt {t : BitTree ℕ} {record : ℕ} (hlt : record < 2 ^ 32)
    (h : StoredAt r.buf r.metadata.recordSize nodeCount t record) (bits : List Bool) :
    r.walkFrom rt (some record) bits =
      match t.find bits with
      | some d => dataAt rt r nodeCount d
      | none => pure .null := by
  induction t generalizing record bits with
  | empty =>
    cases h
    rw [walkFrom, walk_of_le hcount (Nat.le_refl _), recordAt_of_le hcount (Nat.le_refl _)]
    rfl
  | data d =>
    cases h
    rw [walkFrom, walk_of_le hcount (by omega), recordAt_data hcount hlt]
    rfl
  | node zero one ihZero ihOne =>
    obtain ⟨hnode, left, right, hleft, hright, hholds, hzero, hone⟩ := h
    cases bits with
    | nil =>
      -- The address ends inside the tree.
      rw [walkFrom, walk, recordAt_of_le hcount (Nat.le_of_lt hnode)]
      rfl
    | cons bit bits =>
      have hbits : 2 ^ r.metadata.recordSize.bits ≤ 2 ^ 32 := by
        cases r.metadata.recordSize <;> decide
      have hread := readRecord_of_holdsAt hleft hright hholds bit
      rw [walkFrom, walk, hcount, nodeNum, JsNum.le_nat, decide_eq_false (by omega), hread]
      cases bit with
      | false => exact ihZero (hleft.trans_le hbits) hzero bits
      | true => exact ihOne (hright.trans_le hbits) hone bits

end

/-! ### Lookups -/

/-- The address is one of those that the database is about. -/
def OfFamily (r : Reader) (addr : List UInt8) : Prop :=
  (r.metadata.ipVersion = .nat 4 ∧ addr.length = 4) ∨
    (r.metadata.ipVersion = .nat 6 ∧ addr.length = 16)

/-- An address of the family of the database is looked up from the root. -/
theorem lookup_of_family {ip : Text} {addr : List UInt8} (hip : parseIp ip = some addr)
    (hfamily : OfFamily r addr) :
    (r.lookup rt ip).1 = r.walkFrom rt (some 0) (bytesToBits addr) := by
  rw [lookup_of_parseIp hip]
  rcases hfamily with ⟨hver, hlen⟩ | ⟨hver, hlen⟩
  · rw [if_pos hlen, if_pos hver]
  · rw [if_neg (by omega), if_neg (by rw [hver]; decide)]

/-- **A lookup is a prefix match.** The file holds a table of prefixes as a tree whose root is the
node 0, with records of 24, 28 or 32 bits. Then the lookup of an address of the right family,
whatever was looked up before, decodes the data of the prefix that the address starts with; and if
there is no such prefix, the answer is `null`. -/
theorem lookup_eq_find (rt : Runtime) {buf : Mem} {r : Reader}
    (hopen : Reader.fromBuffer rt buf = .ok r) {nodeCount : ℕ}
    (hcount : r.metadata.nodeCount = .nat nodeCount) {zero one : BitTree ℕ}
    (hstored : StoredAt buf r.metadata.recordSize nodeCount (.node zero one) 0)
    (table : PrefixTable ℕ) (htable : (BitTree.node zero one).Represents table)
    (before : List Text) {ip : Text} {addr : List UInt8} (hip : parseIp ip = some addr)
    (hfamily : OfFamily r addr) :
    ((Machine.replay (Reader.lookup rt) r before).2.lookup rt ip).1.result =
      match table.find (bytesToBits addr) with
      | some d =>
        (decode rt buf (r.dataSectionStart rt) (maxDecodeDepth + 1)
          (.index (nodeCount * r.metadata.recordSize.nodeByteSize + dataSectionSeparator + d))
          ).result.map Prod.fst
      | none => .ok .null := by
  have hsame := same_replay hopen before
  have hbuf := buf_of_fromBuffer hopen
  have hfamily' : OfFamily (Machine.replay (lookup rt) r before).2 addr := by
    rw [OfFamily, hsame.metadata]
    exact hfamily
  rw [lookup_of_family hip hfamily', hsame.walkFrom,
    walkFrom_of_storedAt hcount (by decide) (hbuf ▸ hstored),
    BitTree.find_eq_of_represents htable]
  cases table.find (bytesToBits addr) with
  | none => rfl
  | some d =>
    dsimp only
    rw [dataAt, hbuf, Traced.result_bind]
    cases (decode rt buf _ _ _).result <;> rfl

/-- Two nodes: `00` and `1` have data, `01` has none. -/
def twoPrefixes : PrefixTable ℕ where
  entries := [([false, false], 0), ([true], 2)]
  disjoint := by decide
  pos := by decide

def twoNodeDatabase : Mem :=
  smallDatabase 2 4 [0, 0, 1, 0, 0, 20, 0, 0, 18, 0, 0, 2] [0x41, 0x61, 0x41, 0x62]

theorem fromBuffer_twoNodeDatabase : fromBuffer plainRuntime twoNodeDatabase =
      .ok ⟨twoNodeDatabase, ⟨.nat 2, .r24, .nat 4, "unknown".toList, .nat 0⟩, none⟩ := by
  decide +kernel

theorem storedAt_twoNodeDatabase :
    StoredAt twoNodeDatabase .r24 2 (.node (.node (.data 0) .empty) (.data 2)) 0 :=
  ⟨by decide, 1, 20, by decide, by decide, by decide +kernel,
    ⟨by decide, 18, 2, by decide, by decide, by decide +kernel, rfl, rfl⟩, rfl⟩

theorem lookup_eq_find_twoNodes :
    ∃ r, Reader.fromBuffer plainRuntime twoNodeDatabase = .ok r ∧
      ((Machine.replay (Reader.lookup plainRuntime) r ["9.9.9.9".toList]).2.lookup plainRuntime
          (Network.Ipv4.text ⟨200, 1, 2, 3⟩)).1.result =
        (decode plainRuntime twoNodeDatabase (r.dataSectionStart plainRuntime) (maxDecodeDepth + 1)
          (.index 30)).result.map Prod.fst :=
  ⟨_, fromBuffer_twoNodeDatabase, lookup_eq_find plainRuntime fromBuffer_twoNodeDatabase rfl
    storedAt_twoNodeDatabase twoPrefixes (fun _ ↦ Iff.rfl) _ (parseIp_text _) (.inl ⟨rfl, rfl⟩)⟩

end Geoip
