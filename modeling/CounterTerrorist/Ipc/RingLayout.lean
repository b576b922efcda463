import CounterTerrorist.Ipc.Ring

/-!
# The layout invariant of the ring

What the two crates rely on and neither states. `head` and `tail` are record boundaries and never
exceed `capacity - 4`; the bytes between them are the pending records, either in one piece
(`Unwrapped`) or as a first part that ends in a skip marker and a second part at the start of the
data section (`Wrapped`).

The invariant is indexed by the list of pending messages. Each call is then described by how it
moves that list: `RingProducer` shows that a push appends to it or leaves everything alone, and
`RingConsumer` that a pull reads its first element and a commit drops it.
-/

open ByteMemory

namespace Ipc

/-- A message as it stands in the ring. -/
def record (msg : List UInt8) : List UInt8 := toLeBytes (UInt32.ofNat msg.length) ++ msg

/-- Consecutive records. -/
def records (q : List (List UInt8)) : List UInt8 := q.flatMap record

/-- A record is four bytes longer than its message. -/
@[simp] theorem length_record (msg : List UInt8) : (record msg).length = 4 + msg.length := by
  simp [record]

@[simp] theorem records_nil : records [] = [] := rfl

@[simp] theorem records_cons (msg : List UInt8) (q : List (List UInt8)) :
    records (msg :: q) = record msg ++ records q := rfl

/-- Records of two lists. -/
theorem records_append (q r : List (List UInt8)) : records (q ++ r) = records q ++ records r :=
  List.flatMap_append

@[simp] theorem records_singleton (msg : List UInt8) : records [msg] = record msg := by
  simp [records]

/-- The pending records stand in one piece from the tail up to the head. -/
structure Unwrapped (m : Mem) (cap head tail : ℕ) (q : List (List UInt8)) : Prop where
  head_eq : tail + (records q).length = head
  head_le : head + 4 ≤ cap
  data : HoldsAt m (dataOffset + tail) (records q)

/-- The pending records stand in two pieces: from the tail up to a skip marker, and from the start
of the data section up to the head, which is below the tail. -/
structure Wrapped (m : Mem) (cap head tail : ℕ) (q₁ q₂ : List (List UInt8)) : Prop where
  nonempty : q₂ ≠ []
  head_eq : (records q₂).length = head
  head_lt : head < tail
  skip_le : tail + (records q₁).length + 4 ≤ cap
  upper : HoldsAt m (dataOffset + tail) (records q₁ ++ toLeBytes skipMarker)
  lower : HoldsAt m dataOffset (records q₂)

/-- The ring holds exactly the messages `q`, oldest first. -/
structure Layout (m : Mem) (cap head tail : ℕ) (q : List (List UInt8)) : Prop where
  length_eq : m.length = dataOffset + cap
  le_cap : 16 ≤ cap
  cap_lt : cap < 2 ^ 31
  head_word : (loadU32 m 0).toNat = head
  tail_word : (loadU32 m 4).toNat = tail
  fits : ∀ msg ∈ q, msg ≠ [] ∧ msg.length + 8 ≤ cap
  shape : Unwrapped m cap head tail q ∨ ∃ q₁ q₂, q = q₁ ++ q₂ ∧ Wrapped m cap head tail q₁ q₂

namespace Layout

variable {m : Mem} {cap head tail : ℕ} {q : List (List UInt8)}

section

variable (h : Layout m cap head tail q)
include h

theorem head_le : head + 4 ≤ cap := by
  rcases h.shape with hu | ⟨q₁, q₂, -, hw⟩
  · exact hu.head_le
  · have := hw.skip_le
    have := hw.head_lt
    omega

theorem tail_le : tail + 4 ≤ cap := by
  rcases h.shape with hu | ⟨q₁, q₂, -, hw⟩
  · have := hu.head_eq
    have := hu.head_le
    omega
  · have := hw.skip_le
    omega

theorem length_ge : 32 ≤ m.length := by
  have h₁ := h.length_eq
  have h₂ := h.le_cap
  simp only [dataOffset] at h₁
  omega

/-- The two words coincide exactly when nothing is pending. -/
theorem head_eq_tail_iff : head = tail ↔ q = [] := by
  rcases h.shape with hu | ⟨q₁, q₂, rfl, hw⟩
  · have he := hu.head_eq
    constructor
    · intro heq
      rcases q with - | ⟨msg, q⟩
      · rfl
      · simp only [records_cons, List.length_append, length_record] at he
        omega
    · rintro rfl
      simpa using he.symm
  · have hlt := hw.head_lt
    constructor
    · omega
    · intro hnil
      exact absurd (List.append_eq_nil_iff.1 hnil).2 hw.nonempty

end

/-- The initial mapping: all zero, nothing pending. -/
theorem zeroed {len : ℕ} (h₁ : 32 ≤ len) (h₂ : len < 2 ^ 31) :
    Layout (List.replicate len 0) (len - 16) 0 0 [] where
  length_eq := by simp only [List.length_replicate, dataOffset]; omega
  le_cap := by omega
  cap_lt := by omega
  head_word := by rw [loadU32_replicate_zero (by omega)]; rfl
  tail_word := by rw [loadU32_replicate_zero (by omega)]; rfl
  fits := by simp
  shape := .inl ⟨rfl, by omega, by simp⟩

/-- A write inside the header that touches neither `head` nor `tail` keeps the layout. -/
theorem splice_capacity (h : Layout m cap head tail q) (w : UInt32) :
    Layout (splice m 8 (toLeBytes w)) cap head tail q := by
  have hb : 8 + (toLeBytes w).length ≤ m.length := by
    have := h.length_ge
    simp only [length_toLeBytes]
    omega
  refine ⟨by rw [length_splice hb, h.length_eq], h.le_cap, h.cap_lt, ?_, ?_, h.fits, ?_⟩
  · rw [loadU32_splice_of_disjoint hb (by simp), h.head_word]
  · rw [loadU32_splice_of_disjoint hb (by simp), h.tail_word]
  · rcases h.shape with hu | ⟨q₁, q₂, hq, hw⟩
    · exact .inl ⟨hu.head_eq, hu.head_le, hu.data.splice hb (by simp [dataOffset]; omega)⟩
    · exact .inr ⟨q₁, q₂, hq, hw.nonempty, hw.head_eq, hw.head_lt, hw.skip_le,
        hw.upper.splice hb (by simp [dataOffset]; omega),
        hw.lower.splice hb (by simp [dataOffset])⟩

end Layout

end Ipc
