import CounterTerrorist.Foundations.ByteMemory
import CounterTerrorist.Foundations.Channel
import CounterTerrorist.Ipc.Obfuscation

/-!
# The command slot

Commands go to an agent through a second mapping that holds one of them at a time:

```
[0..4]  length of the command, 0 when the slot is free
[4..8]  unused
[8..]   the command, XORed with the shared key
```

The orchestrator writes when the length word is zero (`writeShmem`, on top of `shmem_write` of
`cts_sec`). The agent copies the command out, hands it to the decoder and clears the word
(`poll_command` of `cts_ipc`).

## Refinement

`CommandSlot.Refines` relates the two ends to a `Channel` with at most one pending command. As long
as a 32-bit word can describe the commands, every interleaving of whole calls is a run of that
channel (`CommandSlot.Refines.step`, `command_slot_delivers`).

`shmem_write` truncates the length when it stores it, so a command of `2 ^ 32` bytes, in a slot of
that size, is lost (`long_command_lost`).
-/

open ByteMemory Machine

namespace Ipc

open List Option

/-! ### The two calls -/

/-- `shmem_write` on a live buffer. The buffer exists, so `len + 8` does not overflow and the
checked addition of the source is an addition. -/
def shmemWrite (m : Mem) (data : List UInt8) : Bool × Mem :=
  if m.length < 8 ∨ data.length + 8 > m.length then (false, m)
  else if loadU32 m 0 ≠ 0 then (false, m)
  else
    let m := splice m 8 data
    -- `len as u32` truncates
    (true, splice m 0 (toLeBytes (UInt32.ofNat data.length)))

/-- `writeShmem` of the bridge. -/
def writeShmem (target : Target) (m : Mem) (data : List UInt8)
    (obfuscationKey : Option (List UInt8)) : Bool × Mem :=
  shmemWrite m (bridgeXor target obfuscationKey data)

/-- What a call of `poll_command` returned and what it did. -/
structure Polled (T : Type*) where
  /-- The returned command. -/
  command : Option T
  /-- The bytes that were handed to the decoder. -/
  handed : Option (List UInt8)
  /-- The slot afterwards. -/
  mem : Mem
deriving Repr, DecidableEq

/-- `poll_command`, for an agent that has a slot. -/
def pollCommand {T : Type*} (fromSlice : List UInt8 → Option T)
    (obfuscationKey : Option (List UInt8)) (m : Mem) : Polled T :=
  if m.length < 8 then ⟨none, none, m⟩
  else
    let currentLen := (loadU32 m 0).toNat
    if currentLen > 0 then
      if currentLen + 8 ≤ m.length then
        let data := agentXor obfuscationKey (slice m 8 currentLen)
        ⟨fromSlice data, some data, splice m 0 (toLeBytes 0)⟩
      else ⟨none, none, splice m 0 (toLeBytes 0)⟩
    else ⟨none, none, m⟩

/-! ### What they do to the slot -/

section Calls

variable {T : Type*} {fromSlice : List UInt8 → Option T} {target : Target}
  {key : Option (List UInt8)} {m : Mem} {data : List UInt8}

/-- The slot after a successful write. -/
def stored (m : Mem) (key : Option (List UInt8)) (data : List UInt8) : Mem :=
  splice (splice m 8 (masked key data)) 0 (toLeBytes (UInt32.ofNat data.length))

/-- A write succeeds when the command fits and the slot is free; otherwise it does nothing. -/
theorem writeShmem_eq : writeShmem target m data key =
    if 8 ≤ m.length ∧ data.length + 8 ≤ m.length ∧ loadU32 m 0 = 0 then (true, stored m key data)
    else (false, m) := by
  rw [writeShmem, shmemWrite, bridgeXor_eq, length_masked]
  by_cases hfits : m.length < 8 ∨ data.length + 8 > m.length
  · rw [if_pos hfits, if_neg (by omega)]
  · rw [if_neg hfits]
    by_cases hfree : loadU32 m 0 = 0
    · rw [if_neg (not_not_intro hfree), if_pos ⟨by omega, by omega, hfree⟩]
      rfl
    · rw [if_pos hfree, if_neg (by tauto)]

section

variable (hfits : data.length + 8 ≤ m.length)
include hfits

theorem writeShmem_of_free (hfree : loadU32 m 0 = 0) :
    writeShmem target m data key = (true, stored m key data) := by
  rw [writeShmem_eq, if_pos ⟨by omega, hfits, hfree⟩]

theorem length_stored : (stored m key data).length = m.length := by
  have hbody : (splice m 8 (masked key data)).length = m.length :=
    length_splice (by rw [length_masked]; omega)
  rw [stored, length_splice (by rw [hbody, length_toLeBytes]; omega), hbody]

theorem loadU32_stored : loadU32 (stored m key data) 0 = UInt32.ofNat data.length := by
  refine loadU32_splice_self ?_
  rw [length_splice (by rw [length_masked]; omega)]
  omega

theorem holdsAt_stored : HoldsAt (stored m key data) 8 (masked key data) := by
  have hbody : 8 + (masked key data).length ≤ m.length := by rw [length_masked]; omega
  refine (holdsAt_splice_self hbody).splice ?_ (.inr (by rw [length_toLeBytes]; omega))
  rw [length_splice hbody, length_toLeBytes]
  omega

end

/-- A poll of a free slot does nothing. -/
theorem pollCommand_of_free (hfree : loadU32 m 0 = 0) :
    pollCommand fromSlice key m = ⟨none, none, m⟩ := by
  rw [pollCommand, hfree]
  simp

/-- A poll of a slot that holds a command hands it over and frees the slot. -/
theorem pollCommand_of_holdsAt (hne : data ≠ []) (hlen : data.length < 2 ^ 32)
    (hfits : data.length + 8 ≤ m.length) (hword : loadU32 m 0 = UInt32.ofNat data.length)
    (hdata : HoldsAt m 8 (masked key data)) :
    pollCommand fromSlice key m = ⟨fromSlice data, some data, splice m 0 (toLeBytes 0)⟩ := by
  have hn : (loadU32 m 0).toNat = data.length := by rw [hword, toNat_ofNat_of_lt hlen]
  have hslice : slice m 8 data.length = masked key data := by
    rw [← length_masked key data]
    exact slice_eq_of_holdsAt hdata
  rw [pollCommand, hn, if_neg (by omega), if_pos (length_pos_iff.2 hne), if_pos hfits, hslice,
    agentXor_eq, masked_masked]

end Calls

/-! ### Interleavings -/

/-- The two ends of a slot, with the history of both. -/
structure CommandSlot where
  /-- The shared mapping. -/
  mem : Mem
  /-- The commands for which `writeShmem` returned `true`, in order. -/
  written : List (List UInt8)
  /-- The byte strings that `poll_command` handed to the decoder, in order. -/
  handed : List (List UInt8)
deriving Repr, DecidableEq

/-- Whole calls of either end. -/
inductive SlotCall
  /-- `writeShmem` of the orchestrator. -/
  | write (data : List UInt8)
  /-- `poll_command` of the agent. -/
  | poll
deriving Repr, DecidableEq

namespace CommandSlot

variable {T : Type*} {fromSlice : List UInt8 → Option T} {target : Target}
  {key : Option (List UInt8)}

/-- One call. Only non-empty commands are written. -/
def step (fromSlice : List UInt8 → Option T) (target : Target) (key : Option (List UInt8))
    (s : CommandSlot) : SlotCall → Option CommandSlot
  | .write data =>
    if data = [] then none
    else
      match writeShmem target s.mem data key with
      | (true, mem) => some { s with mem, written := s.written ++ [data] }
      | (false, mem) => some { s with mem }
  | .poll =>
    let r := pollCommand fromSlice key s.mem
    some { s with mem := r.mem, handed := s.handed ++ r.handed.toList }

/-- A slot before either end did anything. -/
def start (m : Mem) : CommandSlot := ⟨m, [], []⟩

/-- Every command that is written can be described by a 32-bit word. -/
def Describable : SlotCall → Prop
  | .write data => data.length < 2 ^ 32
  | .poll => True

/-- The slot is free and nothing is pending, or it holds the pending command. -/
inductive Holds (m : Mem) (key : Option (List UInt8)) : List (List UInt8) → Prop
  /-- The length word is zero. -/
  | free (hword : loadU32 m 0 = 0) : Holds m key []
  /-- The length word and the masked bytes of one command. -/
  | full {data : List UInt8} (hne : data ≠ []) (hlen : data.length < 2 ^ 32)
    (hfits : data.length + 8 ≤ m.length) (hword : loadU32 m 0 = UInt32.ofNat data.length)
    (hdata : HoldsAt m 8 (masked key data)) : Holds m key [data]

variable {m : Mem}

/-- A command that is held is not empty, so its length word is not zero. -/
theorem Holds.eq_nil {q : List (List UInt8)} (h : Holds m key q) (hfree : loadU32 m 0 = 0) :
    q = [] := by
  cases h with
  | free hword => rfl
  | full hne hlen _ hword _ =>
    have hzero := congrArg UInt32.toNat (hword.symm.trans hfree)
    rw [toNat_ofNat_of_lt hlen] at hzero
    exact absurd (length_eq_zero_iff.1 hzero) hne

/-- The two ends implement the channel `c`. -/
structure Refines (key : Option (List UInt8)) (s : CommandSlot) (c : Channel (List UInt8)) :
    Prop where
  written : s.written = c.sent
  handed : s.handed = c.received
  size : 8 ≤ s.mem.length
  slot : Holds s.mem key c.pending

namespace Refines

variable {s t : CommandSlot} {c : Channel (List UInt8)}

theorem init {m : Mem} (hsize : 8 ≤ m.length) (hfree : loadU32 m 0 = 0) :
    Refines key (start m) Channel.empty :=
  ⟨rfl, rfl, hsize, .free hfree⟩

/-- A write sends its command, when nothing is pending and the command fits, or changes nothing. -/
theorem write {data : List UInt8} (h : Refines key s c) (hlen : data.length < 2 ^ 32)
    (hs : step fromSlice target key s (.write data) = some t) :
    t = s ∨ ∃ d, c.step (.send data) = some d ∧ Refines key t d := by
  rw [step, ite_none_left_eq_some] at hs
  obtain ⟨hne, hs⟩ := hs
  rw [writeShmem_eq] at hs
  by_cases hcond : 8 ≤ s.mem.length ∧ data.length + 8 ≤ s.mem.length ∧ loadU32 s.mem 0 = 0
  · rw [if_pos hcond] at hs
    obtain rfl := some.inj hs
    obtain ⟨-, hfits, hfree⟩ := hcond
    obtain ⟨hsent, hrecv, hpend⟩ := Channel.step_send (c := c) (x := data) rfl
    have hnil : c.pending = [] := h.slot.eq_nil hfree
    refine .inr ⟨_, rfl, by rw [hsent, ← h.written], by rw [hrecv]; exact h.handed,
      by rw [length_stored hfits]; exact h.size, ?_⟩
    rw [hpend, hnil]
    exact .full hne hlen (by rw [length_stored hfits]; exact hfits) (loadU32_stored hfits)
      (holdsAt_stored hfits)
  · rw [if_neg hcond] at hs
    exact .inl (some.inj hs).symm

/-- A poll hands over the pending command, if there is one. -/
theorem poll (fromSlice : List UInt8 → Option T) (h : Refines key s c) :
    (c.pending = [] ∧ pollCommand fromSlice key s.mem = ⟨none, none, s.mem⟩) ∨
      ∃ data mem d, c.pending = [data] ∧
        pollCommand fromSlice key s.mem = ⟨fromSlice data, some data, mem⟩ ∧
        c.step .take = some d ∧ Refines key { s with mem, handed := s.handed ++ [data] } d := by
  generalize hq : c.pending = q
  have hslot := h.slot
  rw [hq] at hslot
  cases hslot with
  | free hword => exact .inl ⟨rfl, pollCommand_of_free hword⟩
  | @full data hne hlen hfits hword hdata =>
    obtain ⟨d, hd, hsent, hrecv, hpend⟩ := Channel.step_take hq
    have hbound : 0 + (toLeBytes 0).length ≤ s.mem.length := by
      have hsize := h.size
      rw [length_toLeBytes]
      omega
    refine .inr ⟨data, _, d, rfl, pollCommand_of_holdsAt hne hlen hfits hword hdata, hd,
      by rw [hsent]; exact h.written, by rw [hrecv, ← h.handed],
      by rw [length_splice hbound]; exact h.size, ?_⟩
    rw [hpend]
    exact .free (loadU32_splice_self (by simpa using hbound))

/-- Every call is matched by at most one operation of the channel. -/
theorem step {a : SlotCall} (h : Refines key s c) (ha : Describable a)
    (hs : step fromSlice target key s a = some t) :
    ∃ ops d, run Channel.step c ops = some d ∧ Refines key t d := by
  cases a with
  | write data =>
    obtain rfl | ⟨d, hd, ht⟩ := h.write ha hs
    · exact ⟨[], c, rfl, h⟩
    · exact ⟨[.send data], d, by rw [run, hd]; rfl, ht⟩
  | poll =>
    obtain rfl := some.inj hs
    obtain ⟨-, hpoll⟩ | ⟨data, mem, d, -, hpoll, hd, ht⟩ := h.poll fromSlice
    · refine ⟨[], c, rfl, ?_⟩
      rw [hpoll]
      simpa using h
    · refine ⟨[.take], d, by rw [run, hd]; rfl, ?_⟩
      rw [hpoll]
      exact ht

end Refines

/-- Every run of the two ends is a run of the channel. -/
theorem run_refines (hsize : 8 ≤ m.length) (hfree : loadU32 m 0 = 0) {calls : List SlotCall}
    (hcalls : ∀ a ∈ calls, Describable a) {s : CommandSlot}
    (hr : run (step fromSlice target key) (start m) calls = some s) : ∃ c, Refines key s c := by
  refine run_invariant (P := fun s ↦ ∃ c, Refines key s c) ?_ ⟨_, Refines.init hsize hfree⟩
    (guarded_of_forall hcalls) hr
  rintro s a t ⟨c, h⟩ ha hs
  obtain ⟨-, d, -, ht⟩ := h.step ha hs
  exact ⟨d, ht⟩

/-- For every interleaving of whole calls, on a slot of any size of at least 8 bytes that starts out
free, with commands shorter than `2 ^ 32` bytes: what was handed to the decoder and the one command
that may still wait in the slot are, in this order, what was written; the next poll hands over the
one that waits; and a write that returns `false` leaves the slot as it is. -/
theorem command_slot_delivers (fromSlice : List UInt8 → Option T) (target : Target)
    (key : Option (List UInt8)) {m : Mem} (hsize : 8 ≤ m.length) (hfree : loadU32 m 0 = 0)
    {calls : List SlotCall} (hcalls : ∀ a ∈ calls, Describable a) {s : CommandSlot}
    (hr : run (step fromSlice target key) (start m) calls = some s) :
    (∃ waiting : Option (List UInt8), s.written = s.handed ++ waiting.toList ∧
      (pollCommand fromSlice key s.mem).handed = waiting) ∧
    ∀ data, (writeShmem target s.mem data key).1 = false →
      (writeShmem target s.mem data key).2 = s.mem := by
  obtain ⟨c, h⟩ := run_refines hsize hfree hcalls hr
  refine ⟨?_, fun data hfalse ↦ ?_⟩
  · have hsplit : s.written = s.handed ++ c.pending := by
      rw [h.written, h.handed, c.received_append_pending]
    rcases h.poll fromSlice with ⟨hnil, hpoll⟩ | ⟨data, mem, d, hq, hpoll, -⟩
    · exact ⟨none, by rw [hsplit, hnil]; rfl, by rw [hpoll]⟩
    · exact ⟨some data, by rw [hsplit, hq]; rfl, by rw [hpoll]⟩
  · rw [writeShmem_eq] at hfalse ⊢
    split at hfalse
    · cases hfalse
    · rename_i hcond
      rw [if_neg hcond]

/-- Two commands are written one after the other, and a third one while the second still waits. -/
def threeWrites : List SlotCall :=
  [.write [1, 2, 3], .poll, .write [4, 5], .write [6], .poll, .poll, .write [7]]

theorem command_slot_delivers_threeWrites :
    ∃ s, run (step (fun _ ↦ some ()) .aarch64 (some [9, 8])) (start (List.replicate 16 0))
        threeWrites = some s ∧
      s.written = [[1, 2, 3], [4, 5], [7]] ∧ s.handed = [[1, 2, 3], [4, 5]] ∧
      ∃ waiting : Option (List UInt8), s.written = s.handed ++ waiting.toList := by
  have heval : (run (step (fun _ ↦ some ()) .aarch64 (some [9, 8])) (start (List.replicate 16 0))
      threeWrites).map (fun s ↦ (s.written, s.handed)) =
        some ([[1, 2, 3], [4, 5], [7]], [[1, 2, 3], [4, 5]]) := by decide +kernel
  obtain ⟨s, hs, hend⟩ := map_eq_some_iff.1 heval
  obtain ⟨hwritten, hhanded⟩ := Prod.mk.inj hend
  obtain ⟨⟨waiting, hsplit, -⟩, -⟩ := command_slot_delivers _ _ _ (by decide) (by decide)
    (by simp [threeWrites, Describable]) hs
  exact ⟨s, hs, hwritten, hhanded, waiting, hsplit⟩

/-! ### A command that is too long -/

/-- A command of `2 ^ 32` bytes is accepted and leaves the slot free. The next command overwrites
it, and is the only one that is handed over. -/
theorem run_long_command (fromSlice : List UInt8 → Option T) (target : Target)
    (key : Option (List UInt8)) {data next : List UInt8} (hfree : loadU32 m 0 = 0)
    (hdata : data.length = 2 ^ 32) (hfits : data.length + 8 ≤ m.length) (hne : next ≠ [])
    (hnext : next.length < 2 ^ 32) :
    ∃ s, run (step fromSlice target key) (start m) [.write data, .write next, .poll] = some s ∧
      s.written = [data, next] ∧ s.handed = [next] := by
  have hdne : data ≠ [] := by
    rintro rfl
    cases hdata
  -- the stored length word is zero
  have hword : loadU32 (stored m key data) 0 = 0 := by
    rw [loadU32_stored hfits, hdata]
    rfl
  have hfits' : next.length + 8 ≤ (stored m key data).length := by
    rw [length_stored hfits]
    omega
  have hpoll : pollCommand fromSlice key (stored (stored m key data) key next) =
      ⟨fromSlice next, some next, splice (stored (stored m key data) key next) 0 (toLeBytes 0)⟩ :=
    pollCommand_of_holdsAt hne hnext (by rw [length_stored hfits']; exact hfits')
      (loadU32_stored hfits') (holdsAt_stored hfits')
  refine ⟨⟨splice (stored (stored m key data) key next) 0 (toLeBytes 0), [data, next], [next]⟩,
    ?_, rfl, rfl⟩
  simp only [run, step, start, if_neg hdne, if_neg hne, writeShmem_of_free hfits hfree,
    writeShmem_of_free hfits' hword, hpoll, bind_some]
  rfl

/-- In a slot of `2 ^ 32 + 8` bytes, two commands are written and only the second one is handed
over, so that what was handed over is no initial part of what was written. -/
theorem long_command_lost : ∃ (data : List UInt8) (s : CommandSlot),
    run (step (fun _ ↦ some ()) .other none) (start (List.replicate (2 ^ 32 + 8) 0))
        [.write data, .write [1], .poll] = some s ∧
      s.written = [data, [1]] ∧ s.handed = [[1]] ∧ ¬s.handed <+: s.written := by
  have hlen : (List.replicate (2 ^ 32) (2 : UInt8)).length = 2 ^ 32 := length_replicate
  obtain ⟨s, hs, hwritten, hhanded⟩ := run_long_command (fun _ ↦ some ()) .other none
    (loadU32_replicate_zero (n := 2 ^ 32 + 8) (by omega)) hlen (by rw [hlen, length_replicate])
    (cons_ne_nil 1 []) (by simp)
  refine ⟨_, s, hs, hwritten, hhanded, ?_⟩
  rw [hwritten, hhanded]
  rintro ⟨rest, heq⟩
  have hhead : [1] = List.replicate (2 ^ 32) (2 : UInt8) := (List.cons.inj heq).1
  have hone := congrArg List.length hhead
  rw [hlen] at hone
  simp at hone

end CommandSlot

end Ipc
