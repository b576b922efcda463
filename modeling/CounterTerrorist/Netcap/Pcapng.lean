import CounterTerrorist.Foundations.ByteMemory

/-!
# Capture files

`PcapngWriter` writes a section header, one interface block, and a block for each packet. Every
block has its length twice, after its type and at its end, and a reader gets from block to block by
it.

The length of the interface block is computed without the two words that end it: the end of its
options and the second length. So a reader is eight bytes off when it looks for the first packet,
and no capture file can be read back (`capture_unreadable`).
-/

namespace Netcap

open ByteMemory List Option

/-! ### The writer -/

/-- `SHB_TYPE`. -/
def shbType : UInt32 := 0x0A0D0D0A

/-- `IDB_TYPE`. -/
def idbType : UInt32 := 0x00000001

/-- `EPB_TYPE`. -/
def epbType : UInt32 := 0x00000006

/-- `(n + 3) & !3`. -/
def pad4 (n : ℕ) : ℕ := (n + 3) / 4 * 4

/-- The zeros up to the next word. -/
def padding (n : ℕ) : List UInt8 := List.replicate ((4 - n % 4) % 4) 0

/-- A packet and its time. -/
structure Packet where
  data : List UInt8
  timestampNs : UInt64
deriving DecidableEq, Repr

/-- The section header block. -/
def sectionHeader : List UInt8 :=
  toLeBytes shbType ++ toLeBytes 28 ++ toLeBytes 0x1A2B3C4D ++ [1, 0] ++ [0, 0] ++
    List.replicate 8 0xFF ++ toLeBytes 28

/-- The interface description block, with the name as its only option. -/
def interfaceBlock (interface : List UInt8) : List UInt8 :=
  let idbLen := UInt32.ofNat (pad4 (20 + interface.length))
  toLeBytes idbType ++ toLeBytes idbLen ++ [1, 0] ++ [0, 0] ++ toLeBytes 0 ++
    [2, 0] ++ [UInt8.ofNat interface.length, UInt8.ofNat (interface.length / 2 ^ 8)] ++
    interface ++ padding interface.length ++ [0, 0] ++ [0, 0] ++ toLeBytes idbLen

/-- `write_packet`: an enhanced packet block. -/
def writePacket (packet : Packet) : List UInt8 :=
  let packetLen := packet.data.length
  let blockLen := UInt32.ofNat (32 + pad4 packetLen)
  toLeBytes epbType ++ toLeBytes blockLen ++ toLeBytes 0 ++
    toLeBytes (UInt32.ofNat (packet.timestampNs.toNat / 2 ^ 32)) ++
    toLeBytes (UInt32.ofNat packet.timestampNs.toNat) ++ toLeBytes (UInt32.ofNat packetLen) ++
    toLeBytes (UInt32.ofNat packetLen) ++ packet.data ++ padding packetLen ++ toLeBytes blockLen

/-- The file of `PcapngWriter::new` and the calls of `write_packet` after it. -/
def capture (interface : List UInt8) (packets : List Packet) : List UInt8 :=
  sectionHeader ++ (interfaceBlock interface ++ packets.flatMap writePacket)

/-! ### A reader -/

/-- The blocks of a file, by their total lengths. -/
def splitBlocks : ℕ → List UInt8 → Option (List (List UInt8))
  | _, [] => some []
  | 0, _ :: _ => none
  | fuel + 1, b :: bs =>
    let n := (loadU32 (b :: bs) 4).toNat
    if 12 ≤ n ∧ n ≤ (b :: bs).length then
      (splitBlocks fuel ((b :: bs).drop n)).map ((b :: bs).take n :: ·)
    else none

/-- A block of this type, with its size in both length fields. -/
def IsBlock (type : UInt32) (block : List UInt8) : Prop :=
  loadU32 block 0 = type ∧ (loadU32 block 4).toNat = block.length ∧
    (loadU32 block (block.length - 4)).toNat = block.length

instance (type : UInt32) (block : List UInt8) : Decidable (IsBlock type block) :=
  inferInstanceAs (Decidable (_ ∧ _))

/-- The packet of an enhanced packet block without options. -/
def parsePacket (block : List UInt8) : Option Packet :=
  let packetLen := (loadU32 block 20).toNat
  if IsBlock epbType block ∧ block.length = 32 + pad4 packetLen then
    some ⟨slice block 28 packetLen,
      UInt64.ofNat ((loadU32 block 12).toNat * 2 ^ 32 + (loadU32 block 16).toNat)⟩
  else none

/-- The packets of a file: a section header, an interface block, and then only packets. -/
def readCapture (file : List UInt8) : Option (List Packet) :=
  match splitBlocks file.length file with
  | some (shb :: idb :: epbs) =>
    if IsBlock shbType shb ∧ IsBlock idbType idb then epbs.mapM parsePacket else none
  | _ => none

/-! ### Sizes -/

theorem length_add_padding (n : ℕ) : n + (padding n).length = pad4 n := by
  rw [padding, length_replicate, pad4]
  omega

theorem length_interfaceBlock (interface : List UInt8) :
    (interfaceBlock interface).length = 28 + pad4 interface.length := by
  have h := length_add_padding interface.length
  simp only [interfaceBlock, length_append, length_toLeBytes, length_cons, length_nil]
  omega

theorem length_writePacket (packet : Packet) :
    (writePacket packet).length = 32 + pad4 packet.data.length := by
  have h := length_add_padding packet.data.length
  simp only [writePacket, length_append, length_toLeBytes]
  omega

variable {blocks : List (List UInt8)}

variable {fuel : ℕ} {file block : List UInt8}

/-- The first block is as long as it says. -/
theorem splitBlocks_cons (h : splitBlocks fuel file = some (block :: blocks)) :
    block.length = (loadU32 file 4).toNat ∧
      ∃ rest fuel', file = block ++ rest ∧ splitBlocks fuel' rest = some blocks := by
  match fuel, file, h with
  | 0, [], h | 0, _ :: _, h | _ + 1, [], h => cases h
  | fuel + 1, b :: bs, h =>
    rw [splitBlocks] at h
    split at h
    next hn =>
      obtain ⟨blocks', hblocks, hcons⟩ := map_eq_some_iff.1 h
      obtain ⟨rfl, rfl⟩ := List.cons.inj hcons
      exact ⟨by rw [length_take, Nat.min_eq_left hn.2], _, fuel,
        (take_append_drop _ _).symm, hblocks⟩
    next => cases h

/-- Blocks make up the file. -/
theorem sum_length_of_splitBlocks (h : splitBlocks fuel file = some blocks) :
    (blocks.map List.length).sum = file.length := by
  induction blocks generalizing fuel file with
  | nil =>
    match fuel, file, h with
    | _, [], _ => rfl
    | fuel + 1, b :: bs, h =>
      rw [splitBlocks] at h
      split at h
      · obtain ⟨blocks, -, hcons⟩ := map_eq_some_iff.1 h
        cases hcons
      · cases h
  | cons block blocks ih =>
    obtain ⟨-, rest, fuel', rfl, hrest⟩ := splitBlocks_cons h
    rw [map_cons, sum_cons, ih hrest, length_append]

/-- A block is as long as that of its packet. -/
theorem length_of_parsePacket {packet : Packet} (h : parsePacket block = some packet) :
    block.length = (writePacket packet).length := by
  rw [parsePacket] at h
  split at h
  next hblock =>
    cases h
    have hle : (loadU32 block 20).toNat ≤ pad4 (loadU32 block 20).toNat := by
      rw [pad4]
      omega
    rw [length_writePacket, slice, length_take, length_drop, Nat.min_eq_left (by omega)]
    exact hblock.2
  next => cases h

theorem sum_length_of_mapM {packets : List Packet} (h : blocks.mapM parsePacket = some packets) :
    (blocks.map List.length).sum = (packets.flatMap writePacket).length := by
  induction blocks generalizing packets with
  | nil => cases h; rfl
  | cons block blocks ih =>
    rw [mapM_cons] at h
    obtain ⟨packet, hpacket, h⟩ := bind_eq_some_iff.1 h
    obtain ⟨packets, hpackets, h⟩ := bind_eq_some_iff.1 h
    cases h
    rw [map_cons, sum_cons, ih hpackets, length_of_parsePacket hpacket, flatMap_cons, length_append]

/-- **No capture file can be read back.** With the packets at their sizes, the interface block would
have to be eight bytes longer than it says. -/
theorem capture_unreadable (interface : List UInt8) (packets : List Packet) :
    readCapture (capture interface packets) ≠ some packets := by
  intro h
  rw [readCapture] at h
  split at h
  next shb idb epbs hsplit =>
    split at h
    next =>
      have hpackets := sum_length_of_mapM h
      obtain ⟨hshb, rest, fuel, hfile, hrest⟩ := splitBlocks_cons hsplit
      have hlen : shb.length = sectionHeader.length := hshb
      obtain ⟨rfl, rfl⟩ := append_inj hfile hlen.symm
      have hidb : idb.length = (UInt32.ofNat (pad4 (20 + interface.length))).toNat :=
        (splitBlocks_cons hrest).1.trans (congrArg _ (fromLeBytes_toLeBytes _))
      have hsum := sum_length_of_splitBlocks hrest
      rw [map_cons, sum_cons, length_append, length_interfaceBlock, hidb, UInt32.toNat_ofNat', pad4,
        pad4] at hsum
      omega
    next => cases h
  next => cases h

/-- **A capture file cannot be read**: no block after the interface block is found. -/
theorem empty_capture_unreadable :
    readCapture (capture [0x65, 0x74, 0x68, 0x30] []) = none := by
  decide +kernel

-- the two length fields are all that is wrong
example : let packet : Packet := ⟨[1, 2, 3], 0x100000002⟩
    let file := capture [0x65, 0x74, 0x68, 0x30] [packet]
    readCapture (splice (splice file 32 (toLeBytes 32)) 56 (toLeBytes 32)) = some [packet] := by
  decide +kernel

end Netcap
