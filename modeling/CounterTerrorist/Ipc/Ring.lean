import CounterTerrorist.Foundations.ByteMemory

/-!
# The shared-memory ring: producer and consumer calls

The two ends of the telemetry ring, as the two crates write them. The producer (`cts_ipc`) attaches
with `IpcRingBuffer.new` and appends with `IpcRingBuffer.push`; the consumer (`cts_sec`) looks at
the next record with `shmemRingPull` and releases it with `shmemRingCommit`. They share no Rust
type, only this layout of the mapping:

```
[0..4]   head       written by the producer
[4..8]   tail       written by the consumer
[8..12]  capacity   published by the producer
[12..16] reserved
[16..]   data
```

## What a call can do besides returning

Rust slice indexing panics out of range, and both crates are built with `panic = "abort"`: such a
call never returns. A call is an `Option`, and `none` is the abort. Words are `UInt32`, and
additions that the source leaves unchecked wrap as in a release build; `checked_add` is
`checkedAdd`.

The loads and stores of the header words are single atomic accesses; they are read in the byte
order of the targets the agents are built for (little endian), like the record lengths.
-/

open ByteMemory

namespace Ipc

/-- Offset of the data section. -/
def dataOffset : ℕ := 16

/-- The length word that sends the reader back to the start of the data section. -/
def skipMarker : UInt32 := 0xFFFFFFFF

/-! ### The producer -/

/-- An attached producer. `head`, `tail` and `data` of the source are views of the mapping, so the
capacity is all a handle carries of its own. -/
structure IpcRingBuffer where
  /-- Length of the data section, as the producer computed it from its mapping. -/
  capacity : UInt32
deriving Repr, DecidableEq

/-- Attach to a mapping and publish the capacity. `none` is a segment that is too small. -/
def IpcRingBuffer.new (m : Mem) : Option (IpcRingBuffer × Mem) :=
  if m.length < 32 then none
  else
    let capacity := UInt32.ofNat (m.length - 16)
    some (⟨capacity⟩, splice m 8 (toLeBytes capacity))

/-- Bytes a producer may still fill. One byte stays empty to tell full from empty. -/
def freeSpace (capacity head tail : UInt32) : UInt32 :=
  let used := if head ≥ tail then head - tail else capacity - (tail - head)
  capacity - used - 1

/-- The two `copy_from_slice` calls that lay a record down at offset `off`: the length word, then
the message into the `msgLen` bytes after it. The second one panics unless that range exists and is
exactly as long as the message. -/
def copyRecord (m : Mem) (off : ℕ) (msgLen : UInt32) (msg : List UInt8) : Option Mem := do
  let m ← writeAt m off (toLeBytes msgLen)
  let _ ← readAt m (off + 4) msgLen.toNat
  if msgLen.toNat = msg.length then writeAt m (off + 4) msg else none

/-- Append one message. The Boolean is the return value; `none` is an abort. -/
def IpcRingBuffer.push (ring : IpcRingBuffer) (m : Mem) (msg : List UInt8) :
    Option (Bool × Mem) :=
  -- `msg.len() as u32` truncates
  let msgLen := UInt32.ofNat msg.length
  let totalLen := 4 + msgLen
  if ring.capacity < 8 ∨ totalLen > ring.capacity - 4 then some (false, m)
  else
    let head := loadU32 m 0
    let tail := loadU32 m 4
    if freeSpace ring.capacity head tail < totalLen then some (false, m)
    else if head + totalLen + 4 > ring.capacity then
      if tail > totalLen then do
        let m ← writeAt m (dataOffset + head.toNat) (toLeBytes skipMarker)
        let m ← copyRecord m dataOffset msgLen msg
        return (true, splice m 0 (toLeBytes totalLen))
      else some (false, m)
    else do
      let m ← copyRecord m (dataOffset + head.toNat) msgLen msg
      return (true, splice m 0 (toLeBytes (head + totalLen)))

/-! ### The consumer -/

/-- The declared capacity, if it fits the mapping that is actually held. -/
def validatedCapacity (m : Mem) (declared : UInt32) : Option UInt32 :=
  if m.length < 16 then none
  else
    let usable := m.length - 16
    let max : UInt32 := if usable < 2 ^ 32 then UInt32.ofNat usable else 0xFFFFFFFF
    if declared = 0 ∨ declared > max then none else some declared

/-- The next record, as its offset in the mapping and its length. The inner `none` is the null
pointer, the outer one an abort. -/
def shmemRingPull (m : Mem) : Option (Option (ℕ × UInt32)) :=
  if m.length < 32 then some none
  else
    let head := loadU32 m 0
    let tail := loadU32 m 4
    match validatedCapacity m (loadU32 m 8) with
    | none => some none
    | some capacity =>
      if head = tail then some none
      else if (checkedAdd tail 4).all (· > capacity) then some none
      else do
        let lenBytes ← readAt m (dataOffset + tail.toNat) 4
        let msgLen := fromLeBytes lenBytes
        if msgLen = skipMarker then
          if capacity < 4 then return none
          let lenBytes ← readAt m dataOffset 4
          let msgLen := fromLeBytes lenBytes
          if msgLen = 0 ∨ msgLen = skipMarker then return none
          finish capacity 0 msgLen
        else finish capacity tail msgLen
where
  /-- The final bounds check of the source, at the effective tail. -/
  finish (capacity effectiveTail msgLen : UInt32) : Option (Option (ℕ × UInt32)) :=
    if msgLen = 0 ∨ msgLen > capacity - 4 ∨
        ((checkedAdd effectiveTail 4).bind (checkedAdd · msgLen)).all (· > capacity) then
      some none
    else some (some (dataOffset + effectiveTail.toNat + 4, msgLen))

/-- Release the record at the tail. `none` is an abort. -/
def shmemRingCommit (m : Mem) : Option Mem :=
  if m.length < 32 then some m
  else
    let head := loadU32 m 0
    let tail := loadU32 m 4
    match validatedCapacity m (loadU32 m 8) with
    | none => some m
    | some capacity =>
      if head = tail then some m
      else if (checkedAdd tail 4).all (· > capacity) then some m
      else do
        let lenBytes ← readAt m (dataOffset + tail.toNat) 4
        let msgLen := fromLeBytes lenBytes
        if msgLen = skipMarker then
          if capacity < 4 then return m
          let lenBytes ← readAt m dataOffset 4
          let wrappedMsgLen := fromLeBytes lenBytes
          if wrappedMsgLen ≠ 0 ∧ wrappedMsgLen ≠ skipMarker ∧
              (checkedAdd wrappedMsgLen 4).any (· ≤ capacity) then
            return splice m 4 (toLeBytes (4 + wrappedMsgLen))
          else return m
        else
          match (checkedAdd tail 4).bind (checkedAdd · msgLen) with
          | some next => if next ≤ capacity then return splice m 4 (toLeBytes next) else return m
          | none => return m

end Ipc
