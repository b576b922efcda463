import CounterTerrorist.Foundations.Run

/-!
# A lossless first-in first-out channel

What a queue between two parties is for, in its own terms: messages are sent, and messages are
taken in the order they were sent. The number taken never exceeds the number sent, and that bound
is a field, so a channel that has delivered something it was never given cannot be built.
-/

/-- A channel, by everything that was sent and how much of it was taken. -/
structure Channel (α : Type*) where
  /-- Everything sent so far, oldest first. -/
  sent : List α
  /-- How many messages were taken. -/
  taken : ℕ
  /-- Nothing is taken that was not sent. -/
  taken_le : taken ≤ sent.length

namespace Channel

open List

variable {α : Type*}

/-- A fresh channel. -/
def empty : Channel α := ⟨[], 0, Nat.le_refl _⟩

/-- What was taken, in the order it was taken. -/
def received (c : Channel α) : List α := c.sent.take c.taken

/-- What was sent and not taken yet. -/
def pending (c : Channel α) : List α := c.sent.drop c.taken

/-- The two things that can happen to a channel. -/
inductive Op (α : Type*)
  /-- One message is sent. -/
  | send (x : α)
  /-- The oldest pending message is taken. -/
  | take

/-- One operation; taking needs a pending message. -/
def step (c : Channel α) : Op α → Option (Channel α)
  | .send x => some ⟨c.sent ++ [x], c.taken, by
      have := c.taken_le
      rw [List.length_append]
      omega⟩
  | .take => if h : c.taken < c.sent.length then some ⟨c.sent, c.taken + 1, h⟩ else none

@[simp] theorem pending_empty : (empty : Channel α).pending = [] := rfl

theorem received_append_pending (c : Channel α) : c.received ++ c.pending = c.sent :=
  take_append_drop _ _

/-- Nothing is lost, duplicated or reordered. -/
theorem received_prefix (c : Channel α) : c.received <+: c.sent := take_prefix _ _

/-- Sending appends to what is sent and to what is pending. -/
theorem step_send {c d : Channel α} {x : α} (h : c.step (.send x) = some d) :
    d.sent = c.sent ++ [x] ∧ d.received = c.received ∧ d.pending = c.pending ++ [x] := by
  obtain rfl := Option.some.inj h
  have hle := c.taken_le
  refine ⟨rfl, ?_, ?_⟩
  · exact take_append_of_le_length hle
  · exact drop_append_of_le_length hle

/-- Taking moves the oldest pending message to the received ones. -/
theorem step_take {c : Channel α} {x : α} {q : List α} (h : c.pending = x :: q) :
    ∃ d, c.step .take = some d ∧ d.sent = c.sent ∧ d.received = c.received ++ [x] ∧
      d.pending = q := by
  have hlt : c.taken < c.sent.length := by
    have hlen := congrArg List.length h
    rw [pending, length_drop, length_cons] at hlen
    omega
  have hdrop := drop_eq_getElem_cons hlt
  have hx : c.sent[c.taken] = x ∧ c.sent.drop (c.taken + 1) = q := by
    rw [pending, hdrop] at h
    exact List.cons.inj h
  refine ⟨⟨c.sent, c.taken + 1, hlt⟩, dif_pos hlt, rfl, ?_, hx.2⟩
  rw [received, received, take_succ_eq_append_getElem hlt, hx.1]

end Channel
