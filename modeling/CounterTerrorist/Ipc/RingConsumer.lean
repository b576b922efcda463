import CounterTerrorist.Ipc.RingProducer
import CounterTerrorist.Ipc.RingSafety

/-!
# The consumer keeps the layout

The reader finds the first pending message at `effectiveTail`: at the tail, or at the start of the
data section when the tail stands on a skip marker. `Layout.front` is the one case analysis over the
shapes of the ring; it yields at once what stands there (`Front`) and the layout once the tail has
moved past it.

That a length word is never the skip marker is the bound `msg.length + 8 ≤ capacity` of the
layout, which the producer's size test establishes.
-/

open ByteMemory

namespace Ipc

open List

variable {m m' : Mem} {cap head tail : ℕ} {q : List (List UInt8)} {msg : List UInt8}

/-! ### The first record -/

/-- What the reader finds there. -/
structure Front (m : Mem) (cap tail : ℕ) (msg : List UInt8) : Prop where
  word : loadU32 m (dataOffset + effectiveTail m tail) = UInt32.ofNat msg.length
  bytes : HoldsAt m (dataOffset + effectiveTail m tail + 4) msg
  le : effectiveTail m tail + 4 + msg.length ≤ cap

/-- A length word of a message that fits is not the skip marker. -/
theorem ofNat_ne_skipMarker {n : ℕ} (h : n < 2 ^ 31) : UInt32.ofNat n ≠ skipMarker := by
  intro heq
  have := congrArg UInt32.toNat heq
  rw [toNat_ofNat_of_lt (by omega)] at this
  change n = 4294967295 at this
  omega

theorem holdsAt_record {off : ℕ} (h : HoldsAt m off (record msg)) :
    loadU32 m off = UInt32.ofNat msg.length ∧ HoldsAt m (off + 4) msg := by
  rw [record, holdsAt_append] at h
  exact ⟨loadU32_of_holdsAt h.1, h.2⟩

/-- The tail stands on a record. -/
theorem effectiveTail_of_record (h : HoldsAt m (dataOffset + tail) (record msg))
    (hmsg : msg.length < 2 ^ 31) : effectiveTail m tail = tail := by
  rw [effectiveTail, (holdsAt_record h).1, if_neg (ofNat_ne_skipMarker hmsg)]

theorem front_of_record {pos : ℕ} (heff : effectiveTail m tail = pos)
    (h : HoldsAt m (dataOffset + pos) (record msg)) (hle : pos + 4 + msg.length ≤ cap) :
    Front m cap tail msg := by
  subst heff
  obtain ⟨hword, hbytes⟩ := holdsAt_record h
  exact ⟨hword, hbytes, hle⟩

/-- The first record, and where the others stand. -/
theorem holdsAt_records_cons {pos : ℕ} {rest : List UInt8}
    (h : HoldsAt m (dataOffset + pos) (records (msg :: q) ++ rest)) :
    HoldsAt m (dataOffset + pos) (record msg) ∧
      HoldsAt m (dataOffset + (pos + 4 + msg.length)) (records q ++ rest) := by
  rw [records_cons, append_assoc, holdsAt_append, length_record] at h
  refine ⟨h.1, ?_⟩
  rw [Nat.add_assoc pos, ← Nat.add_assoc]
  exact h.2

section

variable (h : Layout m cap head tail (msg :: q))
include h

/-- Moving the tail does not touch the data section. -/
theorem Layout.move_tail {next : ℕ} (hnext : next < 2 ^ 32)
    (hshape : Unwrapped m cap head next q ∨ ∃ q₁ q₂, q = q₁ ++ q₂ ∧ Wrapped m cap head next q₁ q₂) :
    Layout (splice m 4 (toLeBytes (UInt32.ofNat next))) cap head next q := by
  have hge := h.length_ge
  have hb : 4 + (toLeBytes (UInt32.ofNat next)).length ≤ m.length := by
    rw [length_toLeBytes]
    omega
  have hdata {off : ℕ} {bs : List UInt8} (hbs : HoldsAt m (dataOffset + off) bs) :
      HoldsAt (splice m 4 (toLeBytes (UInt32.ofNat next))) (dataOffset + off) bs :=
    holdsAt_store hbs (by omega) (by rw [h.length_eq]; omega) _
  refine ⟨by rw [length_splice hb, h.length_eq], h.le_cap, h.cap_lt, ?_, ?_,
    fun msg' hmem ↦ h.fits msg' (mem_cons_of_mem _ hmem), ?_⟩
  · rw [loadU32_splice_of_disjoint hb (by simp), h.head_word]
  · rw [loadU32_splice_self (by omega), toNat_ofNat_of_lt hnext]
  · rcases hshape with hu | ⟨q₁, q₂, hq, hw⟩
    · exact .inl ⟨hu.head_eq, hu.head_le, hdata hu.data⟩
    · have hlow : HoldsAt m (dataOffset + 0) (records q₂) := hw.lower
      exact .inr ⟨q₁, q₂, hq, hw.nonempty, hw.head_eq, hw.head_lt, hw.skip_le, hdata hw.upper,
        hdata hlow⟩

/-- The first pending message is what the reader finds, and the rest is what remains once the tail
has moved past it. -/
theorem Layout.front : Front m cap tail msg ∧
      Layout (splice m 4 (toLeBytes (UInt32.ofNat (effectiveTail m tail + 4 + msg.length)))) cap
        head (effectiveTail m tail + 4 + msg.length) q := by
  have hcap := h.cap_lt
  have hhead := h.head_le
  rcases h.shape with hu | ⟨q₁, q₂, hq, hw⟩
  · -- one piece: the record stands at the tail
    have he := hu.head_eq
    simp only [records_cons, length_append, length_record] at he
    have hdata : HoldsAt m (dataOffset + tail) (records (msg :: q) ++ []) := by simpa using hu.data
    obtain ⟨hrec, hrest⟩ := holdsAt_records_cons hdata
    have heff := effectiveTail_of_record hrec (by omega)
    refine ⟨front_of_record heff hrec (by omega), ?_⟩
    rw [heff]
    exact h.move_tail (by omega) (.inl ⟨by omega, hhead, by simpa using hrest⟩)
  · rcases q₁ with - | ⟨msg₁, q₁⟩
    · -- the upper piece is used up: the tail stands on the skip marker
      obtain rfl : msg :: q = q₂ := hq
      have hskip : loadU32 m (dataOffset + tail) = skipMarker :=
        loadU32_of_holdsAt (by simpa using hw.upper)
      have heff : effectiveTail m tail = 0 := by rw [effectiveTail, if_pos hskip]
      have he := hw.head_eq
      simp only [records_cons, length_append, length_record] at he
      have hdata : HoldsAt m (dataOffset + 0) (records (msg :: q) ++ []) := by
        simpa using hw.lower
      obtain ⟨hrec, hrest⟩ := holdsAt_records_cons hdata
      refine ⟨front_of_record heff hrec (by omega), ?_⟩
      rw [heff]
      exact h.move_tail (by omega) (.inl ⟨by omega, hhead, by simpa using hrest⟩)
    · -- two pieces: the record stands at the tail, in the upper one
      obtain ⟨rfl, rfl⟩ : msg = msg₁ ∧ q = q₁ ++ q₂ := by simpa using hq
      have hs := hw.skip_le
      have hlt := hw.head_lt
      simp only [records_cons, length_append, length_record] at hs
      obtain ⟨hrec, hrest⟩ := holdsAt_records_cons hw.upper
      have heff := effectiveTail_of_record hrec (by omega)
      refine ⟨front_of_record heff hrec (by omega), ?_⟩
      rw [heff]
      exact h.move_tail (by omega) (.inr ⟨q₁, q₂, rfl, hw.nonempty, hw.head_eq, by omega, by omega,
        hrest, hw.lower⟩)

end

/-- A published capacity is the one the consumer validates. -/
theorem Layout.validatedCapacity (h : Layout m cap head tail q) :
    validatedCapacity m (UInt32.ofNat cap) = some (UInt32.ofNat cap) := by
  have hlen := h.length_eq
  have hcap := h.cap_lt
  have hlo := h.le_cap
  have hn := h.toNat_capacity
  simp only [dataOffset] at hlen
  have husable : m.length - 16 = cap := by omega
  have hzero : UInt32.ofNat cap ≠ 0 := by
    intro hz
    rw [hz] at hn
    change 0 = cap at hn
    omega
  simp only [Ipc.validatedCapacity, husable, show cap < 2 ^ 32 by omega, hzero, false_or]
  rw [if_neg (by omega), if_neg (by rw [UInt32.not_lt]; exact UInt32.le_refl _)]

/-! ### Pulling and committing -/

/-- With nothing pending, the consumer gets the null pointer. -/
theorem layout_pull_nil (h : Layout m cap head tail []) : shmemRingPull m = some none := by
  have hge := h.length_ge
  have heq : loadU32 m 0 = loadU32 m 4 := by
    apply UInt32.toNat.inj
    rw [h.head_word, h.tail_word]
    exact h.head_eq_tail_iff.2 rfl
  simp only [shmemRingPull, heq]
  rw [if_neg (by omega)]
  split <;> rfl

/-- The guards of the consumer pass when something is pending. -/
theorem Layout.readable (h : Layout m cap head tail (msg :: q))
    (hpub : loadU32 m 8 = UInt32.ofNat cap) : Readable m (UInt32.ofNat cap) where
  length_ge := h.length_ge
  validated := by rw [hpub, h.validatedCapacity]
  pending heq := by
    have hht : head = tail := by rw [← h.head_word, ← h.tail_word, heq]
    exact absurd (h.head_eq_tail_iff.1 hht) (by simp)
  tail_le := by
    have hcap := h.cap_lt
    rw [h.tail_word, toNat_ofNat_of_lt (by omega)]
    exact h.tail_le

theorem ofNat_length_ne_zero (hne : msg ≠ []) (hlen : msg.length < 2 ^ 32) :
    UInt32.ofNat msg.length ≠ 0 := by
  intro heq
  have := congrArg UInt32.toNat heq
  rw [toNat_ofNat_of_lt hlen] at this
  exact hne (length_eq_zero_iff.1 this)

section

variable (h : Layout m cap head tail (msg :: q))
include h

/-- The length word the reader ends up with is that of the first message, and the record fits. -/
theorem Layout.recordLen : Readable.recordLen m = UInt32.ofNat msg.length ∧
      (UInt32.ofNat msg.length).toNat = msg.length ∧ UInt32.ofNat msg.length ≠ 0 ∧
      effectiveTail m tail + 4 + msg.length ≤ (UInt32.ofNat cap).toNat := by
  obtain ⟨hf, -⟩ := h.front
  have hle := hf.le
  have hcap := h.cap_lt
  refine ⟨?_, toNat_ofNat_of_lt (by omega),
    ofNat_length_ne_zero (h.fits msg (by simp)).1 (by omega), ?_⟩
  · rw [Readable.recordLen, h.tail_word]
    exact hf.word
  · rwa [toNat_ofNat_of_lt (by omega)]

/-- With something pending, the consumer gets the first message. -/
theorem layout_pull (hpub : loadU32 m 8 = UInt32.ofNat cap) : shmemRingPull m =
      some (some (dataOffset + effectiveTail m tail + 4, UInt32.ofNat msg.length)) := by
  obtain ⟨hlen, hn, hne, hfits⟩ := h.recordLen
  rw [(h.readable hpub).pull_eq, h.tail_word, hlen, hn, if_pos ⟨hne, hfits⟩]

/-- Committing moves the tail past the first message. -/
theorem layout_commit (hpub : loadU32 m 8 = UInt32.ofNat cap) :
    ∃ m' tail', shmemRingCommit m = some m' ∧ Layout m' cap head tail' q ∧
      loadU32 m' 8 = UInt32.ofNat cap := by
  obtain ⟨-, hrest⟩ := h.front
  obtain ⟨hlen, hn, hne, hfits⟩ := h.recordLen
  have hge := h.length_ge
  refine ⟨_, _, ?_, hrest, ?_⟩
  · rw [(h.readable hpub).commit_eq, h.tail_word, hlen, hn, if_pos ⟨fun _ ↦ hne, hfits⟩]
  · rw [loadU32_splice_of_disjoint (by rw [length_toLeBytes]; omega) (by simp), hpub]

end

end Ipc
