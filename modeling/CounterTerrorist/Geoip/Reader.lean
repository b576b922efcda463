import CounterTerrorist.Geoip.Decode
import CounterTerrorist.Network.Ipv6

/-!
# The reader of the database

A database is a search tree, the records and a map with the metadata. The reader takes the size of
the tree from the metadata. To look up an address, it follows its bits from the root of the tree:
each node has two records, and a record is the number of another node, the number of nodes (which
stands for nothing), or a larger number (which leads to a record in the file).

The nodes that are followed are natural numbers, or `NaN` where a node of four-byte records lies
behind the end of the file. A database for IPv6 has the IPv4 addresses in it, below 96 zeros. The
node that is found there is kept for the next time.
-/

namespace Geoip

open Core ByteMemory

/-! ### Addresses -/

/-- `/^\d{1,3}$/`. -/
def isOctet (part : Text) : Bool := Network.isDigits part && part.length ≤ 3

/-- `parseIpv4`. -/
def parseIpv4 (ip : Text) : Option (List UInt8) :=
  let parts := Text.split ip '.'
  if parts.length ≠ 4 then none
  else parts.mapM fun part ↦
    if isOctet part then
      let n := Nat.ofDigitChars 10 part 0
      if n > 255 then none else some (UInt8.ofNat n)
    else none

/-- The value of a hexadecimal digit in either case. -/
def hexDigit (c : Char) : Option ℕ :=
  if 'A' ≤ c ∧ c ≤ 'F' then some (c.toNat - 55) else Network.hexValue c

/-- `hextet`. -/
def hextet (h : Text) : Option ℕ :=
  if h ≠ [] ∧ h.length ≤ 4 ∧ h.all (hexDigit · |>.isSome) then
    some (h.foldl (fun n c ↦ 16 * n + (hexDigit c).getD 0) 0)
  else none

/-- The groups of one half of an address. -/
def hextets (half : Text) : Option (List ℕ) :=
  if half = [] then some [] else (Text.split half ':').mapM hextet

/-- The two bytes of a group. -/
def groupBytes (group : ℕ) : List UInt8 := [UInt8.ofNat (group >>> 8), UInt8.ofNat (group &&& 0xff)]

/-- `parseIpv6`. -/
def parseIpv6 (ip : Text) : Option (List UInt8) :=
  if ip.contains '.' then none
  else
    let groups : Option (List ℕ) :=
      match Network.splitDouble ip with
      | [whole] => hextets whole
      | [front, back] =>
        (hextets front).bind fun head ↦ (hextets back).bind fun tail ↦
          if 8 < head.length + tail.length then none
          else some (head ++ List.replicate (8 - head.length - tail.length) 0 ++ tail)
      | _ => none
    groups.bind fun groups ↦ if groups.length ≠ 8 then none else some (groups.flatMap groupBytes)

/-- `parseIp`. -/
def parseIp (ip : Text) : Option (List UInt8) :=
  if ip.contains ':' then parseIpv6 ip else parseIpv4 ip

/-- The bits of a byte, the highest one first. -/
def byteBits (byte : UInt8) : List Bool := (List.range 8).map fun b ↦ byte.toNat.testBit (7 - b)

/-- `bytesToBits`. -/
def bytesToBits (bytes : List UInt8) : List Bool := bytes.flatMap byteBits

/-! ### Metadata -/

/-- `METADATA_MARKER`. -/
def metadataMarker : List UInt8 :=
  [0xab, 0xcd, 0xef, 0x4d, 0x61, 0x78, 0x4d, 0x69, 0x6e, 0x64, 0x2e, 0x63, 0x6f, 0x6d]

/-- The marker at a position, or before it. -/
def findMarker (buf : Mem) : ℕ → Option ℕ
  | 0 => if metadataMarker.isPrefixOf buf then some metadataMarker.length else none
  | i + 1 =>
    if metadataMarker.isPrefixOf (buf.drop (i + 1)) then some (i + 1 + metadataMarker.length)
    else findMarker buf i

/-- `findMetadataStart`: what comes after the last marker. -/
def findMetadataStart (buf : Mem) : Except String ℕ :=
  let found :=
    if buf.length < metadataMarker.length then none
    else findMarker buf (buf.length - metadataMarker.length)
  match found with
  | some start => .ok start
  | none => .error "mmdb: metadata marker not found — not a MaxMind database"

/-- The number of bits of a record. -/
inductive RecordSize
  | r24
  | r28
  | r32
deriving Repr, DecidableEq

namespace RecordSize

def bits : RecordSize → ℕ
  | r24 => 24
  | r28 => 28
  | r32 => 32

/-- The record size that a number is. -/
def ofNum (n : JsNum) : Option RecordSize := [r24, r28, r32].find? fun size ↦ n = .nat size.bits

/-- `nodeByteSize`. -/
def nodeByteSize (size : RecordSize) : ℕ := size.bits * 2 / 8

end RecordSize

/-- `MmdbMetadata`. -/
structure Metadata where
  nodeCount : JsNum
  recordSize : RecordSize
  ipVersion : JsNum
  databaseType : Text
  buildEpoch : JsNum
deriving DecidableEq

/-- `DATA_SECTION_SEPARATOR`. -/
def dataSectionSeparator : ℕ := 16

/-- The properties of a value. Those of `null` cannot be asked for. -/
def property (m : Value) (name : Text) : Except String (Option Value) :=
  match m with
  | .null =>
    .error ("Cannot read properties of null (reading '" ++ String.ofList name ++ "')")
  | m => .ok (m.get name)

/-- The value, or a default in place of `null` and `undefined`. -/
def orElse (value : Option Value) (default : Value) : Value :=
  match value with
  | none | some .null => default
  | some value => value

/-- `readMetadata`. Pointers count from the start of the map. -/
def readMetadata (rt : Runtime) (buf : Mem) : Except String Metadata := do
  let start ← findMetadataStart buf
  let found ← (decode rt buf (.nat start) (maxDecodeDepth + 1) (.index start)).result
  let m := found.1
  let size ← rt.number (← property m "record_size".toList)
  match RecordSize.ofNum size with
  | none =>
    let text ← rt.string (.num size)
    .error ("mmdb: unsupported record_size " ++ String.ofList text)
  | some recordSize =>
    let nodeCount ← rt.number (← property m "node_count".toList)
    let ipVersion ← rt.number (← property m "ip_version".toList)
    let databaseType ←
      rt.string (orElse (← property m "database_type".toList) (.str "unknown".toList))
    let buildEpoch ←
      rt.number (some (orElse (← property m "build_epoch".toList) (.num (.nat 0))))
    .ok ⟨nodeCount, recordSize, ipVersion, databaseType, buildEpoch⟩

/-! ### The search tree -/

/-- The number of a node; `none` is `NaN`. -/
abbrev Node := Option ℕ

/-- The number as it is compared. -/
def nodeNum : Node → JsNum
  | some n => .nat n
  | none => .nan

/-- `MmdbReader`. -/
structure Reader where
  buf : Mem
  metadata : Metadata
  /-- The node below 96 zeros, once it is known. Before that it is `-1` in the source. -/
  ipv4StartNode : Option Node
deriving DecidableEq

namespace Reader

variable (rt : Runtime) (r : Reader)

/-- `MmdbReader.fromBuffer`. -/
def fromBuffer (buf : Mem) : Except String Reader := do
  let metadata ← readMetadata rt buf
  .ok ⟨buf, metadata, none⟩

/-- `searchTreeSize`. -/
def searchTreeSize : JsNum :=
  rt.mul r.metadata.nodeCount (.nat r.metadata.recordSize.nodeByteSize)

/-- `dataSectionStart`. -/
def dataSectionStart : JsNum := rt.add (r.searchTreeSize rt) (.nat dataSectionSeparator)

/-- The record of four bytes at a place. The first and the last byte have to be there. -/
def record32 (buf : Mem) (o : ℕ) : Node :=
  (byteAt buf o).bind fun first ↦ (byteAt buf (o + 3)).map fun last ↦
    first * 0x1000000 + bitsAt buf (o + 1) <<< 16 + bitsAt buf (o + 2) <<< 8 + last

/-- `readRecord`. -/
def readRecord (node : Node) (which : Bool) : Node :=
  let buf := r.buf
  match node with
  | none =>
    match r.metadata.recordSize with
    | .r32 => none
    | .r24 | .r28 => some 0
  | some node =>
    let base := node * r.metadata.recordSize.nodeByteSize
    match r.metadata.recordSize with
    | .r24 =>
      let o := base + which.toNat * 3
      some (bitsAt buf o <<< 16 ||| bitsAt buf (o + 1) <<< 8 ||| bitsAt buf (o + 2))
    | .r32 => record32 buf (base + which.toNat * 4)
    | .r28 =>
      let mid := bitsAt buf (base + 3)
      match which with
      | false =>
        some ((mid >>> 4) <<< 24 ||| bitsAt buf base <<< 16 ||| bitsAt buf (base + 1) <<< 8 |||
          bitsAt buf (base + 2))
      | true =>
        some ((mid &&& 0x0f) <<< 24 ||| bitsAt buf (base + 4) <<< 16 |||
          bitsAt buf (base + 5) <<< 8 ||| bitsAt buf (base + 6))

/-- The loop of `ipv4Start`. -/
def descend : ℕ → Node → Node
  | 0, node => node
  | n + 1, node =>
    if (nodeNum node).lt r.metadata.nodeCount then descend n (r.readRecord node false) else node

/-- `ipv4Start`. -/
def ipv4Start : Node × Reader :=
  match r.ipv4StartNode with
  | some (some node) => (some node, r)
  | _ =>
    let node := r.descend 96 (some 0)
    (node, { r with ipv4StartNode := some node })

/-- The loop of `walkFrom`. -/
def walk : List Bool → Node → Node
  | [], node => node
  | bit :: bits, node =>
    if r.metadata.nodeCount.le (nodeNum node) then node else walk bits (r.readRecord node bit)

/-- The record that a node leads to. -/
def recordAt (node : Node) : Traced Call Value :=
  if (nodeNum node).eq r.metadata.nodeCount then pure .null
  else if r.metadata.nodeCount.lt (nodeNum node) then do
    let offset := rt.add (rt.sub (nodeNum node) r.metadata.nodeCount) (r.searchTreeSize rt)
    let found ← decode rt r.buf (r.dataSectionStart rt) (maxDecodeDepth + 1) (.ofNum r.buf offset)
    pure found.1
  else pure .null

/-- `walkFrom`. -/
def walkFrom (startNode : Node) (bits : List Bool) : Traced Call Value :=
  r.recordAt rt (r.walk bits startNode)

/-- `lookup`. A node is never negative, so the test for it is left out. -/
def lookup (ip : Text) : Traced Call Value × Reader :=
  match parseIp ip with
  | none => (pure .null, r)
  | some addr =>
    let bits := bytesToBits addr
    if addr.length = 4 then
      if r.metadata.ipVersion = .nat 4 then (r.walkFrom rt (some 0) bits, r)
      else
        let start := r.ipv4Start
        (start.2.walkFrom rt start.1 bits, start.2)
    else if r.metadata.ipVersion = .nat 4 then (pure .null, r)
    else (r.walkFrom rt (some 0) bits, r)

variable {rt r}

/-- What a file that opens gives. -/
theorem eq_of_fromBuffer {buf : Mem} (hopen : fromBuffer rt buf = .ok r) :
    ∃ metadata, readMetadata rt buf = .ok metadata ∧ r = ⟨buf, metadata, none⟩ := by
  rw [fromBuffer] at hopen
  cases hread : readMetadata rt buf with
  | error message =>
    rw [hread] at hopen
    cases hopen
  | ok metadata =>
    rw [hread] at hopen
    cases hopen
    exact ⟨metadata, rfl, rfl⟩

theorem buf_of_fromBuffer {buf : Mem} (hopen : fromBuffer rt buf = .ok r) : r.buf = buf := by
  obtain ⟨metadata, -, rfl⟩ := eq_of_fromBuffer hopen
  rfl

theorem lookup_of_parseIp {ip : Text} {addr : List UInt8} (h : parseIp ip = some addr) :
    r.lookup rt ip =
      if addr.length = 4 then
        if r.metadata.ipVersion = .nat 4 then (r.walkFrom rt (some 0) (bytesToBits addr), r)
        else (r.ipv4Start.2.walkFrom rt r.ipv4Start.1 (bytesToBits addr), r.ipv4Start.2)
      else if r.metadata.ipVersion = .nat 4 then (pure .null, r)
      else (r.walkFrom rt (some 0) (bytesToBits addr), r) := by
  rw [lookup, h]

end Reader

/-! ### A small database -/

/-- The bytes of a text in ASCII, with its head. -/
def shortText (text : String) : List UInt8 :=
  UInt8.ofNat (0x40 + text.length) :: text.toList.map fun c ↦ UInt8.ofNat c.toNat

/-- A database with records of three bytes and the smallest possible metadata. -/
def smallDatabase (nodeCount ipVersion : UInt8) (tree data : List UInt8) : Mem :=
  tree ++ List.replicate dataSectionSeparator 0 ++ data ++ metadataMarker ++ [0xe3] ++
    shortText "node_count" ++ [0xa1, nodeCount] ++ shortText "record_size" ++ [0xa1, 24] ++
    shortText "ip_version" ++ [0xa1, ipVersion]

end Geoip
