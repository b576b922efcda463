import CounterTerrorist.Foundations.Run
import CounterTerrorist.Geoip.Ipv6Parsers

/-!
# IPv4 addresses in an IPv6 database

An IPv4 address is looked up from the node below 96 zeros, which is kept once it has been found. The
same address, written as an IPv6 address with 96 zeros before it, is looked up from the root. Both
come to the same end, whatever the file is (`ipv4_lookup_eq`).

Going down the zeros, the reader goes on while the node is smaller than the number of nodes.
Following an address, it stops when the node is not smaller. With `NaN` these differ. But a walk
that meets `NaN` stays there, because only four-byte records give `NaN`, and finds nothing in the
end.
-/

namespace Geoip

open Core List Network Reader

variable {rt : Runtime}

namespace Reader

/-! ### What is kept -/

/-- A reader that looked up addresses since it was opened: the same file, and the node is kept or
not. -/
structure Same (r r' : Reader) : Prop where
  buf : r'.buf = r.buf
  metadata : r'.metadata = r.metadata
  start : ∀ node, r'.ipv4StartNode = some node → node = r.descend 96 (some 0)

theorem Same.readRecord {r r' : Reader} (h : Same r r') : r'.readRecord = r.readRecord := by
  funext node which
  unfold Reader.readRecord
  rw [h.buf, h.metadata]

theorem Same.descend {r r' : Reader} (h : Same r r') (n : ℕ) (node : Node) :
    r'.descend n node = r.descend n node := by
  induction n generalizing node with
  | zero => rfl
  | succ n ih => rw [Reader.descend, Reader.descend, h.metadata, h.readRecord, ih]

theorem Same.walk {r r' : Reader} (h : Same r r') (bits : List Bool) (node : Node) :
    r'.walk bits node = r.walk bits node := by
  induction bits generalizing node with
  | nil => rfl
  | cons bit bits ih => rw [Reader.walk, Reader.walk, h.metadata, h.readRecord, ih]

theorem Same.recordAt {r r' : Reader} (h : Same r r') (node : Node) :
    r'.recordAt rt node = r.recordAt rt node := by
  have hsize : r'.searchTreeSize rt = r.searchTreeSize rt := by
    rw [searchTreeSize, searchTreeSize, h.metadata]
  have hstart : r'.dataSectionStart rt = r.dataSectionStart rt := by
    rw [dataSectionStart, dataSectionStart, hsize]
  rw [Reader.recordAt, Reader.recordAt, h.metadata, h.buf, hsize, hstart]

theorem Same.walkFrom {r r' : Reader} (h : Same r r') (node : Node) (bits : List Bool) :
    r'.walkFrom rt node bits = r.walkFrom rt node bits := by
  rw [Reader.walkFrom, Reader.walkFrom, h.walk, h.recordAt]

/-- The node below the zeros is the same, kept or not. -/
theorem Same.ipv4Start {r r' : Reader} (h : Same r r') :
    r'.ipv4Start.1 = r.descend 96 (some 0) ∧ Same r r'.ipv4Start.2 := by
  rw [Reader.ipv4Start]
  split
  · rename_i node hkept
    exact ⟨h.start _ hkept, h⟩
  · refine ⟨h.descend 96 (some 0), h.buf, h.metadata, ?_⟩
    rintro node hkept
    cases hkept
    exact h.descend 96 (some 0)

theorem Same.lookup {r r' : Reader} (h : Same r r') (ip : Text) :
    Same r (r'.lookup rt ip).2 := by
  rw [Reader.lookup]
  split
  · exact h
  · split_ifs
    · exact h
    · exact h.ipv4Start.2
    · exact h
    · exact h

/-- **The reader stays the same, whatever is looked up.** -/
theorem same_replay {buf : ByteMemory.Mem} {r : Reader} (hopen : fromBuffer rt buf = .ok r)
    (before : List Text) : Same r (Machine.replay (lookup rt) r before).2 := by
  obtain ⟨metadata, -, rfl⟩ := eq_of_fromBuffer hopen
  have hself : Same ⟨buf, metadata, none⟩ ⟨buf, metadata, none⟩ := ⟨rfl, rfl, nofun⟩
  exact Machine.replay_invariant (P := Same _) (fun ip h ↦ h.lookup ip) before hself

/-! ### `NaN` -/

variable (r : Reader)

/-- With an unknown number of nodes nothing is found. -/
theorem recordAt_of_nan (h : r.metadata.nodeCount = .nan) (node : Node) :
    r.recordAt rt node = pure .null := by
  rw [recordAt, h, JsNum.eq_nan]
  rfl

/-- In a file with four-byte records, nothing leads back from `NaN`. -/
theorem walk_none (h : r.metadata.recordSize = .r32) (bits : List Bool) :
    r.walk bits none = none := by
  induction bits with
  | nil => rfl
  | cons bit bits ih =>
    have hread : r.readRecord none bit = none := by rw [readRecord, h]
    rw [walk, nodeNum, JsNum.le_nan, if_neg Bool.false_ne_true, hread, ih]

/-- Only four-byte records give `NaN`. -/
theorem recordSize_of_readRecord {node : ℕ} {which : Bool}
    (h : r.readRecord (some node) which = none) : r.metadata.recordSize = .r32 := by
  rw [readRecord] at h
  split at h
  · cases h
  · assumption
  · split at h <;> cases h

/-! ### Zeros -/

/-- **Going down the zeros first makes no difference.** -/
theorem recordAt_walk_zeros {node : Node} (hnode : node = none → r.metadata.recordSize = .r32)
    (n : ℕ) (bits : List Bool) :
    r.recordAt rt (r.walk (List.replicate n false ++ bits) node) =
      r.recordAt rt (r.walk bits (r.descend n node)) := by
  rcases eq_or_ne r.metadata.nodeCount .nan with hcnt | hcnt
  · rw [recordAt_of_nan r hcnt, recordAt_of_nan r hcnt]
  induction n generalizing node with
  | zero => rfl
  | succ n ih =>
    cases node with
    | none =>
      have hstay : r.descend (n + 1) none = none := by
        rw [descend, nodeNum, JsNum.nan_lt, if_neg Bool.false_ne_true]
      rw [hstay, walk_none r (hnode rfl), walk_none r (hnode rfl)]
    | some node =>
      have hnum : nodeNum (some node) ≠ .nan := JsNum.noConfusion
      rw [replicate_succ, cons_append, walk, descend, JsNum.le_eq_not_lt hnum hcnt]
      cases hlt : (nodeNum (some node)).lt r.metadata.nodeCount with
      | true =>
        exact ih fun hnone ↦ recordSize_of_readRecord r hnone
      | false =>
        -- The walk is over, and stays over.
        have hover : r.walk bits (some node) = some node := by
          cases bits with
          | nil => rfl
          | cons bit bits =>
            rw [walk, JsNum.le_eq_not_lt hnum hcnt, hlt]
            rfl
        rw [if_pos (by decide), if_neg (by decide), hover]

end Reader

/-! ### Spellings -/

/-- The bytes of an address. -/
def addressBytes (q : Network.Ipv4) : List UInt8 := [q.a, q.b, q.c, q.d].map fun n ↦ UInt8.ofNat n

/-- The address in hexadecimal notation, with zeros before it. -/
def compatibleText (q : Network.Ipv4) : Text :=
  ':' :: ':' :: [':'].intercalate [Network.hex q.high, Network.hex q.low]

theorem isOctet_toDigits {n : ℕ} (h : n < 256) : isOctet (Nat.toDigits 10 n) = true := by
  have hlen : (Nat.toDigits 10 n).length ≤ 3 :=
    (Nat.length_toDigits_le_iff (by decide) (by decide)).2 (by omega)
  rw [isOctet, isDigits_toDigits, decide_eq_true hlen]
  rfl

/-- **The usual spelling of an IPv4 address is understood.** -/
theorem parseIp_text (q : Ipv4) : parseIp q.text = some (addressBytes q) := by
  have hcolon : q.text.contains ':' = false := by
    rw [contains_eq_mem, decide_eq_false_iff_not]
    exact colon_notMem_of_quad q.quad_text
  have hpart (n : Fin 256) : (if isOctet (Nat.toDigits 10 n) then
        if Nat.ofDigitChars 10 (Nat.toDigits 10 n) 0 > 255 then none
        else some (UInt8.ofNat (Nat.ofDigitChars 10 (Nat.toDigits 10 n) 0))
      else none) = some (UInt8.ofNat n) := by
    rw [if_pos (isOctet_toDigits n.isLt), Nat.ofDigitChars_ten_toDigits, if_neg (by omega)]
  rw [parseIp, hcolon, parseIpv4, Ipv4.text, split_dotted]
  simp only [map_cons, mapM_cons, hpart]
  rfl

/-- Digits in lower case are read as they are there. -/
theorem hexDigit_of_isSome {c : Char} (h : (hexValue c).isSome = true) :
    hexDigit c = hexValue c := by
  rw [hexDigit, if_neg]
  rintro ⟨hA, hF⟩
  rw [hexValue] at h
  split at h
  · rename_i hdigit
    have := UInt32.le_iff_toNat_le.1 hA
    have := UInt32.le_iff_toNat_le.1 (of_decide_eq_true (Bool.and_eq_true_iff.1 hdigit).2)
    have : ('A').val.toNat = 65 := rfl
    have : ('9').val.toNat = 57 := rfl
    omega
  · split at h
    · rename_i hlower
      have := UInt32.le_iff_toNat_le.1 hlower.1
      have := UInt32.le_iff_toNat_le.1 hF
      have : ('a').val.toNat = 97 := rfl
      have : ('F').val.toNat = 70 := rfl
      omega
    · cases h

theorem hextet_hex {n : ℕ} (h : n < 65536) : hextet (hex n) = some n := by
  have hlen : (hex n).length ≤ 4 :=
    (Nat.length_toDigits_le_iff (by decide) (by decide)).2 (by omega)
  have hne : hex n ≠ [] := Nat.toDigits_ne_nil
  have hgroup : isGroup (hex n) = true := by
    simpa [isGroup, hne, hlen] using fun c hc ↦ isSome_of_mem_hex hc
  rw [hextet_eq fun c hc ↦ hexDigit_of_isSome (isSome_of_mem_hex hc), if_pos hgroup, parseGroup_hex]

theorem groupBytes_eq (a b : Fin 256) :
    groupBytes ((a : ℕ) * 256 + (b : ℕ)) = [UInt8.ofNat a, UInt8.ofNat b] := by
  rw [groupBytes_eq_bigEndian, BigEndian.bigEndian_two, show ((a : ℕ) * 256 + b) / 256 = a by omega]
  exact congrArg ([UInt8.ofNat a, ·]) (UInt8.toNat_inj.1 (by simp))

/-- **So is the same address in hexadecimal notation, below 96 zeros.** -/
theorem parseIp_compatibleText (q : Ipv4) :
    parseIp (compatibleText q) = some (List.replicate 12 0 ++ addressBytes q) := by
  have hgs : ∀ g ∈ [hex q.high, hex q.low], g ≠ [] ∧ ':' ∉ g := by
    simp only [forall_mem_cons, not_mem_nil, false_imp_iff, implies_true, and_true]
    exact ⟨⟨Nat.toDigits_ne_nil, colon_notMem_hex _⟩, Nat.toDigits_ne_nil, colon_notMem_hex _⟩
  have hdot : (compatibleText q).contains '.' = false := by
    rw [compatibleText]
    have hhex (n : ℕ) : '.' ∉ hex n := fun h ↦
      absurd (isSome_of_mem_hex h) (by decide)
    simp [hhex]
  have hback : hextets ([':'].intercalate [hex q.high, hex q.low]) = some [q.high, q.low] := by
    have hsplit := splitOn_intercalate ':' (fun g hg ↦ (hgs g hg).2) (cons_ne_nil _ _)
    rw [hextets, if_neg (by simp [intercalate_cons_cons]), Text.split, hsplit]
    simp only [mapM_cons, hextet_hex q.high_lt, hextet_hex q.low_lt]
    rfl
  rw [parseIp, parseIpv6, hdot, compatibleText, splitDouble, Ipv4.splitDouble_intercalate hgs]
  dsimp only
  rw [hback]
  show some ((List.replicate 6 0 ++ [q.high, q.low]).flatMap groupBytes) = _
  rw [flatMap_append, flatMap_cons, flatMap_cons, Ipv4.high, Ipv4.low, groupBytes_eq, groupBytes_eq]
  rfl

/-! ### The result -/

/-- **An IPv4 address is looked up like the IPv6 address with 96 zeros before it.** In every file
that opens as an IPv6 database, whatever was looked up before either of them, and in whichever way
the two are written (`parseIp_text`, `parseIp_compatibleText`), the lookups return the same record,
or both nothing, or both throw; they even decode the same values on the way. -/
theorem ipv4_lookup_eq (rt : Runtime) {buf : ByteMemory.Mem} {r : Reader}
    (hopen : Reader.fromBuffer rt buf = .ok r) (hversion : r.metadata.ipVersion ≠ .nat 4)
    (before before' : List Text) (q : Network.Ipv4) {ip ip' : Text}
    (hip : parseIp ip = some (addressBytes q))
    (hip' : parseIp ip' = some (List.replicate 12 0 ++ addressBytes q)) :
    ((Machine.replay (Reader.lookup rt) r before).2.lookup rt ip).1 =
      ((Machine.replay (Reader.lookup rt) r before').2.lookup rt ip').1 := by
  have hsame := same_replay hopen before
  have hsame' := same_replay hopen before'
  have hshort : (addressBytes q).length = 4 := rfl
  have hlong : (List.replicate 12 0 ++ addressBytes q).length ≠ 4 := by
    rw [length_append, length_replicate]
    omega
  rw [lookup_of_parseIp hip, lookup_of_parseIp hip', if_pos hshort, if_neg hlong, hsame.metadata,
    hsame'.metadata, if_neg hversion, if_neg hversion, hsame'.walkFrom, hsame.ipv4Start.2.walkFrom,
    hsame.ipv4Start.1]
  exact (r.recordAt_walk_zeros (by rintro ⟨⟩) 96 _).symm

/-- A database with one node: the first half of the addresses has a record, the other half none. -/
def halfDatabase : ByteMemory.Mem :=
  smallDatabase 1 6 [0x00, 0x00, 0x11, 0x00, 0x00, 0x01] [0x41, 0x61]

theorem fromBuffer_halfDatabase : fromBuffer plainRuntime halfDatabase =
      .ok ⟨halfDatabase, ⟨.nat 1, .r24, .nat 6, "unknown".toList, .nat 0⟩, none⟩ := by
  decide +kernel

theorem ipv4_lookup_eq_half :
    ∃ r, Reader.fromBuffer plainRuntime halfDatabase = .ok r ∧
      ((Machine.replay (Reader.lookup plainRuntime) r ["9.9.9.9".toList]).2.lookup plainRuntime
          (Network.Ipv4.text ⟨1, 2, 3, 4⟩)).1 =
        ((Machine.replay (Reader.lookup plainRuntime) r []).2.lookup plainRuntime
          (compatibleText ⟨1, 2, 3, 4⟩)).1 :=
  ⟨_, fromBuffer_halfDatabase, ipv4_lookup_eq plainRuntime fromBuffer_halfDatabase (by decide) _ _
    ⟨1, 2, 3, 4⟩ (parseIp_text _) (parseIp_compatibleText _)⟩

end Geoip
