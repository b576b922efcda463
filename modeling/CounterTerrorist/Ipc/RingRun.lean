import CounterTerrorist.Foundations.Channel
import CounterTerrorist.Ipc.RingConsumer

/-!
# Every interleaving of the two ends is a channel

The system: one mapping, a producer that attaches and pushes, a consumer that pulls and commits,
whole calls in any order. The consumer is zero-copy. A pull hands out a position in the mapping, so
the system remembers the position and the bytes found there, and the bytes have to be still there
when the record is released.

## Refinement

`Refines` relates a system state to a `Channel`: what was accepted is what was sent, what was
delivered is what was taken, and the ring holds exactly the pending messages (`Layout`). Every call
is matched by at most one channel operation (`step_refines`), so every run is a run of the channel
(`run_refines`) and inherits its prefix property.
-/

open ByteMemory Machine

namespace Ipc

open Option

/-- A record the consumer has pulled and not released: where it stands, its length, and the bytes
that were there when it was pulled. -/
structure Pulled where
  /-- Offset in the mapping. -/
  offset : ℕ
  /-- The length the consumer was given. -/
  length : UInt32
  /-- The bytes at the time of the pull. -/
  bytes : List UInt8
deriving Repr, DecidableEq

/-- The two ends and their mapping, with the history of both. -/
structure System where
  /-- The shared mapping. -/
  mem : Mem
  /-- The producer's handle, once it has attached. -/
  ring : Option IpcRingBuffer
  /-- The record in the consumer's hands. -/
  held : Option Pulled
  /-- Messages for which `push` returned `true`, in order. -/
  accepted : List (List UInt8)
  /-- Byte strings of the committed pulls, in order. -/
  delivered : List (List UInt8)
deriving Repr, DecidableEq

/-- Whole calls of either end. -/
inductive Call
  /-- `IpcRingBuffer::new`. -/
  | attach
  /-- `push` on the attached ring. -/
  | push (msg : List UInt8)
  /-- `shmem_ring_pull`. -/
  | pull
  /-- `shmem_ring_commit`, after a pull that returned a record. -/
  | commit
deriving Repr, DecidableEq

/-- One call. A call that aborts never returns, so it is not a step; neither is a push of an empty
message or without a handle, nor a commit without a pulled record. -/
def step (s : System) : Call → Option System
  | .attach =>
    match IpcRingBuffer.new s.mem with
    | some (ring, mem) => some { s with mem, ring := some ring }
    | none => some s
  | .push msg =>
    if msg = [] then none
    else do
      let ring ← s.ring
      match ← ring.push s.mem msg with
      | (true, mem) => some { s with mem, accepted := s.accepted ++ [msg] }
      | (false, mem) => some { s with mem }
  | .pull => do
    match ← shmemRingPull s.mem with
    | some (offset, length) =>
      some { s with held := some ⟨offset, length, slice s.mem offset length.toNat⟩ }
    | none => some { s with held := none }
  | .commit => do
    let record ← s.held
    let mem ← shmemRingCommit s.mem
    some { s with mem, held := none, delivered := s.delivered ++ [record.bytes] }

/-- A zeroed segment of `len` bytes, before either end did anything. -/
def System.init (len : ℕ) : System := ⟨List.replicate len 0, none, none, [], []⟩

/-! ### Refinement -/

/-- The system state `s` implements the channel `c`. The capacity word is either published, or the
producer never attached and nothing was sent. -/
structure Refines (cap : ℕ) (s : System) (c : Channel (List UInt8)) : Prop where
  accepted : s.accepted = c.sent
  delivered : s.delivered = c.received
  layout : ∃ head tail, Layout s.mem cap head tail c.pending ∧
    ∀ record, s.held = some record → ∃ q, c.pending = record.bytes :: q ∧
      record.offset = dataOffset + effectiveTail s.mem tail + 4 ∧
      record.length = UInt32.ofNat record.bytes.length
  published : (∃ ring, s.ring = some ring) ∨ c.pending ≠ [] → loadU32 s.mem 8 = UInt32.ofNat cap
  handle : ∀ ring, s.ring = some ring → ring.capacity = UInt32.ofNat cap

variable {len : ℕ}

theorem refines_init (h₁ : 32 ≤ len) (h₂ : len < 2 ^ 31) :
    Refines (len - 16) (System.init len) Channel.empty where
  accepted := rfl
  delivered := rfl
  layout := ⟨0, 0, Layout.zeroed h₁ h₂, by simp [System.init]⟩
  published := by simp [System.init]
  handle := by simp [System.init]

variable {cap : ℕ} {s t : System} {c : Channel (List UInt8)}

/-- A pull tells the consumer exactly what is pending. -/
theorem Refines.pull (h : Refines cap s c) : (c.pending = [] ∧ shmemRingPull s.mem = some none) ∨
      ∃ msg q offset, c.pending = msg :: q ∧
        shmemRingPull s.mem = some (some (offset, UInt32.ofNat msg.length)) ∧
        slice s.mem offset (UInt32.ofNat msg.length).toNat = msg ∧
        ∃ head tail, Layout s.mem cap head tail c.pending ∧
          offset = dataOffset + effectiveTail s.mem tail + 4 := by
  obtain ⟨head, tail, hl, -⟩ := h.layout
  rcases hq : c.pending with - | ⟨msg, q⟩
  · rw [hq] at hl
    exact .inl ⟨rfl, layout_pull_nil hl⟩
  · rw [hq] at hl
    have hpub := h.published (.inr (by rw [hq]; simp))
    have hlen : (UInt32.ofNat msg.length).toNat = msg.length :=
      toNat_ofNat_of_lt (by have := (hl.fits msg (by simp)).2; have := hl.cap_lt; omega)
    refine .inr ⟨msg, q, _, rfl, layout_pull hl hpub, ?_, head, tail, hl, rfl⟩
    rw [hlen]
    exact slice_eq_of_holdsAt hl.front.1.bytes

/-- The pulled record is still in place, however many pushes happened since. -/
theorem Refines.held_intact (h : Refines cap s c) {record : Pulled} (hr : s.held = some record) :
    slice s.mem record.offset record.length.toNat = record.bytes ∧
      ∃ q, c.pending = record.bytes :: q := by
  obtain ⟨head, tail, hl, hheld⟩ := h.layout
  obtain ⟨q, hq, hoff, hlen⟩ := hheld record hr
  rw [hq] at hl
  have hn : record.length.toNat = record.bytes.length := by
    rw [hlen, toNat_ofNat_of_lt]
    have := (hl.fits record.bytes (by simp)).2
    have := hl.cap_lt
    omega
  rw [hn, hoff]
  exact ⟨slice_eq_of_holdsAt hl.front.1.bytes, q, hq⟩

theorem attach_refines (h : Refines cap s c) (hs : step s .attach = some t) : Refines cap t c := by
  obtain ⟨head, tail, hl, hheld⟩ := h.layout
  obtain ⟨mem, hnew, hl', hpub⟩ := layout_new hl
  rw [step, hnew] at hs
  obtain rfl := some.inj hs
  refine ⟨h.accepted, h.delivered, ⟨head, tail, hl', fun record hr ↦ ?_⟩, fun _ ↦ hpub, ?_⟩
  · obtain ⟨q, hq, hoff, hlen⟩ := hheld record hr
    refine ⟨q, hq, ?_, hlen⟩
    have hm : mem = splice s.mem 8 (toLeBytes (UInt32.ofNat (s.mem.length - 16))) := by
      have hge := hl.length_ge
      rw [IpcRingBuffer.new, if_neg (by omega)] at hnew
      exact ((Prod.mk.inj (some.inj hnew)).2).symm
    have hfront : loadU32 mem (dataOffset + tail) = loadU32 s.mem (dataOffset + tail) := by
      have hge := hl.length_ge
      rw [hm, loadU32_splice_of_disjoint (by rw [length_toLeBytes]; omega)
        (by simp [dataOffset]; omega)]
    rw [hoff, effectiveTail, effectiveTail, hfront]
  · rintro ring hring
    obtain rfl := some.inj hring
    rfl

theorem push_refines (h : Refines cap s c) {msg : List UInt8} (hs : step s (.push msg) = some t) :
    Refines cap t c ∨ ∃ d, c.step (.send msg) = some d ∧ Refines cap t d := by
  obtain ⟨head, tail, hl, hheld⟩ := h.layout
  rw [step] at hs
  split at hs
  · cases hs
  rename_i hne
  simp only [bind_eq_bind, bind_eq_some_iff] at hs
  obtain ⟨⟨capacity⟩, hring, ⟨b, mem⟩, hpush, hs⟩ := hs
  obtain rfl : capacity = UInt32.ofNat cap := h.handle _ hring
  have hpub := h.published (.inl ⟨_, hring⟩)
  obtain ⟨rfl, rfl⟩ | ⟨rfl, hcap, head', hl', hfront⟩ := layout_push hl hne hpush
  · obtain rfl := some.inj hs
    exact .inl h
  · obtain rfl := some.inj hs
    obtain ⟨hsent, hrecv, hpend⟩ := Channel.step_send (c := c) (x := msg) rfl
    refine .inr ⟨_, rfl, by rw [hsent]; simp only [h.accepted], by rw [hrecv]; exact h.delivered,
      ⟨head', tail, by rw [hpend]; exact hl', fun record hr ↦ ?_⟩, fun _ ↦ by rw [hcap, hpub],
      h.handle⟩
    obtain ⟨q, hq, hoff, hlen⟩ := hheld record hr
    refine ⟨q ++ [msg], by rw [hpend, hq]; rfl, ?_, hlen⟩
    rw [hoff, effectiveTail, effectiveTail, hfront (by rw [hq]; simp)]

theorem pull_refines (h : Refines cap s c) (hs : step s .pull = some t) : Refines cap t c := by
  rw [step] at hs
  obtain ⟨hnil, hpull⟩ | ⟨msg, q, offset, hq, hpull, hslice, head, tail, hl, hoff⟩ := h.pull
  · rw [hpull] at hs
    obtain rfl := some.inj hs
    obtain ⟨head, tail, hl, -⟩ := h.layout
    exact ⟨h.accepted, h.delivered, ⟨head, tail, hl, by simp⟩, h.published, h.handle⟩
  · rw [hpull] at hs
    obtain rfl := some.inj hs
    refine ⟨h.accepted, h.delivered, ⟨head, tail, hl, fun record hr ↦ ?_⟩, h.published, h.handle⟩
    obtain rfl := some.inj hr
    refine ⟨q, ?_, hoff, ?_⟩
    · rw [hq, hslice]
    · simp only [hslice]

theorem commit_refines (h : Refines cap s c) (hs : step s .commit = some t) :
    ∃ d, c.step .take = some d ∧ Refines cap t d := by
  rw [step] at hs
  simp only [bind_eq_bind, bind_eq_some_iff] at hs
  obtain ⟨record, hheld, mem, hcom, hs⟩ := hs
  obtain rfl := some.inj hs
  obtain ⟨-, q, hq⟩ := h.held_intact hheld
  obtain ⟨head, tail, hl, -⟩ := h.layout
  have hpub := h.published (.inr (by rw [hq]; simp))
  rw [hq] at hl
  obtain ⟨mem', tail', hmem, hl', hpub'⟩ := layout_commit hl hpub
  obtain rfl := some.inj (hcom.symm.trans hmem)
  obtain ⟨d, hd, hsent, hrecv, hpend⟩ := Channel.step_take hq
  refine ⟨d, hd, by rw [hsent]; exact h.accepted, by rw [hrecv, ← h.delivered],
    ⟨head, tail', by rw [hpend]; exact hl', by simp⟩, fun _ ↦ hpub', h.handle⟩

/-- Every call is matched by at most one operation of the channel. -/
theorem step_refines {a : Call} (h : Refines cap s c) (hs : step s a = some t) :
    ∃ ops d, run Channel.step c ops = some d ∧ Refines cap t d := by
  cases a with
  | attach => exact ⟨[], c, rfl, attach_refines h hs⟩
  | push msg =>
    obtain ht | ⟨d, hd, ht⟩ := push_refines h hs
    · exact ⟨[], c, rfl, ht⟩
    · exact ⟨[.send msg], d, by rw [run, hd]; rfl, ht⟩
  | pull => exact ⟨[], c, rfl, pull_refines h hs⟩
  | commit =>
    obtain ⟨d, hd, ht⟩ := commit_refines h hs
    exact ⟨[.take], d, by rw [run, hd]; rfl, ht⟩

variable {calls : List Call}

/-- Every run of the two ends is a run of the channel. -/
theorem run_refines (h₁ : 32 ≤ len) (h₂ : len < 2 ^ 31)
    (hr : run step (System.init len) calls = some s) :
    ∃ ops c, run Channel.step Channel.empty ops = some c ∧ Refines (len - 16) s c :=
  run_simulates step_refines (refines_init h₁ h₂) hr

/-! ### The ring end to end -/

/-- In every state that whole calls of the two ends can reach from a zeroed segment, the committed
byte strings are a prefix of the accepted messages. A pulled record still stands where it was
found, and is the next message of that prefix. A pull returns the null pointer when everything
accepted was committed, and the next message otherwise. -/
theorem ring_delivers_in_order {len : ℕ} (h₁ : 32 ≤ len) (h₂ : len < 2 ^ 31) {calls : List Call}
    {s : System} (hr : run step (System.init len) calls = some s) :
    s.delivered <+: s.accepted ∧
      (∀ record, s.held = some record →
        slice s.mem record.offset record.length.toNat = record.bytes ∧
          s.delivered ++ [record.bytes] <+: s.accepted) ∧
      (s.delivered = s.accepted → shmemRingPull s.mem = some none) ∧
      (s.delivered ≠ s.accepted → ∃ msg offset, s.delivered ++ [msg] <+: s.accepted ∧
        shmemRingPull s.mem = some (some (offset, UInt32.ofNat msg.length)) ∧
        slice s.mem offset (UInt32.ofNat msg.length).toNat = msg) := by
  obtain ⟨-, c, -, h⟩ := run_refines h₁ h₂ hr
  have hsplit := c.received_append_pending
  -- the next pending message is the next one of the prefix
  have hnext {msg : List UInt8} {q : List (List UInt8)} (hq : c.pending = msg :: q) :
      s.delivered ++ [msg] <+: s.accepted := by
    rw [h.delivered, h.accepted, ← hsplit, hq]
    exact ⟨q, by simp⟩
  refine ⟨by rw [h.delivered, h.accepted]; exact c.received_prefix, fun record hrec ↦ ?_,
    fun heq ↦ ?_, fun hne ↦ ?_⟩
  · obtain ⟨hslice, q, hq⟩ := h.held_intact hrec
    exact ⟨hslice, hnext hq⟩
  · have hnil : c.pending = [] := by
      rw [h.delivered, h.accepted, ← hsplit] at heq
      exact List.self_eq_append_right.1 heq
    obtain ⟨-, hpull⟩ | ⟨msg, q, _, hq, -⟩ := h.pull
    · exact hpull
    · rw [hnil] at hq
      cases hq
  · obtain ⟨hnil, -⟩ | ⟨msg, q, offset, hq, hpull, hslice, -⟩ := h.pull
    · rw [h.delivered, h.accepted, ← hsplit, hnil, List.append_nil] at hne
      exact absurd rfl hne
    · exact ⟨msg, offset, hnext hq, hpull, hslice⟩

/-- The calls of a run that wraps: with a data section of 32 bytes, the third record goes to the
start while the second one is in the consumer's hands. -/
def wrappingCalls : List Call :=
  [.attach, .push [1, 2, 3, 4, 5, 6, 7, 8], .push [9, 10], .pull, .commit, .pull,
    .push [11, 12, 13, 14, 15, 16, 17], .commit, .pull]

theorem ring_delivers_in_order_wrapping :
    ∃ s, run step (System.init 48) wrappingCalls = some s ∧
      s.delivered = [[1, 2, 3, 4, 5, 6, 7, 8], [9, 10]] ∧
      s.held = some ⟨20, 7, [11, 12, 13, 14, 15, 16, 17]⟩ ∧
      s.delivered <+: s.accepted := by
  have heval : (run step (System.init 48) wrappingCalls).map (fun s ↦ (s.delivered, s.held)) =
      some ([[1, 2, 3, 4, 5, 6, 7, 8], [9, 10]],
        some ⟨20, 7, [11, 12, 13, 14, 15, 16, 17]⟩) := by decide
  obtain ⟨s, hs, heq⟩ := map_eq_some_iff.1 heval
  obtain ⟨hd, hh⟩ := Prod.mk.inj heq
  exact ⟨s, hs, hd, hh, (ring_delivers_in_order (by decide) (by decide) hs).1⟩

/-- No call that an end may make aborts, as long as a 32-bit word can describe the message. -/
theorem calls_return (h₁ : 32 ≤ len) (h₂ : len < 2 ^ 31)
    (hr : run step (System.init len) calls = some s) :
    (step s .attach).isSome ∧ (step s .pull).isSome ∧ (s.held.isSome → (step s .commit).isSome) ∧
      ∀ msg, msg ≠ [] → msg.length + 4 < 2 ^ 32 → s.ring.isSome → (step s (.push msg)).isSome := by
  obtain ⟨-, c, -, h⟩ := run_refines h₁ h₂ hr
  obtain ⟨head, tail, hl, hheld⟩ := h.layout
  refine ⟨?_, ?_, fun hsome ↦ ?_, fun msg hne hlen hsome ↦ ?_⟩
  · obtain ⟨mem, hnew, -⟩ := layout_new hl
    rw [step, hnew]
    rfl
  · rw [step]
    obtain ⟨-, hpull⟩ | ⟨msg, q, offset, -, hpull, -⟩ := h.pull <;> rw [hpull] <;> rfl
  · obtain ⟨record, hrec⟩ := isSome_iff_exists.1 hsome
    obtain ⟨q, hq, -⟩ := hheld record hrec
    have hpub := h.published (.inr (by rw [hq]; simp))
    rw [hq] at hl
    obtain ⟨mem, tail', hmem, -⟩ := layout_commit hl hpub
    rw [step, hrec, hmem]
    rfl
  · obtain ⟨⟨capacity⟩, hring⟩ := isSome_iff_exists.1 hsome
    obtain rfl : capacity = UInt32.ofNat _ := h.handle _ hring
    obtain ⟨b, mem, hpush⟩ := push_returns hl hlen
    rw [step, if_neg hne, hring, bind_eq_bind, bind_some, hpush]
    cases b <;> rfl

theorem calls_return_wrapping :
    ∃ s, run step (System.init 48) wrappingCalls = some s ∧ (step s .commit).isSome := by
  obtain ⟨s, hs, hheld⟩ := (any_eq_true ..).1
    (show (run step (System.init 48) wrappingCalls).any (·.held.isSome) by decide)
  exact ⟨s, hs, (calls_return (by decide) (by decide) hs).2.2.1 hheld⟩

end Ipc
