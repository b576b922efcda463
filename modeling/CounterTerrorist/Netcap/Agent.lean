import CounterTerrorist.Core.Json
import CounterTerrorist.Ipc.CommandSlot

/-!
# The capture agent and its command channels

`rawSendCommand` has two ways to hand a command to `netcap`: the command slot, if it is mapped and
free, and stdin. On stdin a command is MessagePack, or a line of JSON if there is no serializer. The
agent reads stdin in pieces of at most 1024 bytes into a buffer and takes commands from there.

The machine has both sides. A hand-over is one step; on the side of the agent every read and every
turn of the inner loop is one. Time may pass without anything happening (`wait`).

## What the agent does with a command

Only `StartCapture` is answered, and only if no capture is running (`printed_handleNetcapCommand`).
The slot is never looked at: what the agent does is the same with any other (`run_withSlot`).

## What is left out

The capture itself: it runs until it ends or is aborted. Log lines carry no id. What MessagePack and
JSON make of values and bytes are fields of `Env`.
-/

open ByteMemory Core

namespace Netcap

open Machine

/-- The serializers and the shared key. -/
structure Env where
  /-- `serializeMessagePack`; `none` without the native library. -/
  serializeMessagePack : JsTree → Option (List UInt8)
  /-- The bytes of `JSON.stringify`. -/
  stringify : JsTree → List UInt8
  /-- `rmp_serde::from_slice`. -/
  fromMessagePack : List UInt8 → Option JsTree
  /-- `serde_json::from_slice`. -/
  fromJson : List UInt8 → Option JsTree
  target : Ipc.Target
  obfuscationKey : Option (List UInt8)

/-! ### The agent -/

/-- A capture task. -/
structure Capture where
  interface : String
  filename : Option String
  duration : ℕ
  finished : Bool
deriving Repr, DecidableEq

/-- A printed response. -/
structure SidecarResponse where
  id : Option String
  success : Bool
  message : String
deriving Repr, DecidableEq

/-- The agent, its two channels, and what has been handed over and printed so far. -/
structure Agent where
  /-- The command slot. -/
  slot : Mem
  /-- What was written to stdin and not read yet. -/
  pipe : List UInt8
  buffer : List UInt8
  /-- Whether the inner loop is running. -/
  draining : Bool
  captureHandle : Option Capture
  printed : List SidecarResponse
  handed : List JsTree

/-- `as_str`. -/
def asStr : JsTree → Option String
  | .str s => some s
  | _ => none

/-- `as_u64`. -/
def asU64 : JsTree → Option ℕ
  | .num n => if 0 ≤ n ∧ n < 2 ^ 64 then some n.toNat else none
  | _ => none

/-- `is_null`; a missing field is null. -/
def isNull : JsTree → Bool
  | .undefined | .null => true
  | _ => false

/-- An argument of `StartCapture`: nested under `payload`, or at the top. -/
def field (cmdVal : JsTree) (key : String) : JsTree :=
  let nested := (cmdVal.get "payload").get key
  if isNull nested then cmdVal.get key else nested

namespace Agent

/-- A fresh agent with a slot. -/
def init (slot : Mem) : Agent := ⟨slot, [], [], false, none, [], []⟩

/-- Whether a capture is running. -/
def capturing (s : Agent) : Bool := s.captureHandle.any fun h ↦ !h.finished

/-- `println!`. -/
def print (s : Agent) (response : SidecarResponse) : Agent :=
  { s with printed := s.printed ++ [response] }

/-- The `StartCapture` arm. `pcapError` is what creating the file would fail with. -/
def startCapture (s : Agent) (id : Option String) (cmdVal : JsTree) (pcapError : Option String) :
    Agent :=
  let interface := (asStr (field cmdVal "interface")).getD "eth0"
  let filename := asStr (field cmdVal "filename")
  let duration := (asU64 (field cmdVal "duration")).getD 0
  if s.capturing then s
  else
    match filename.bind fun _ ↦ pcapError with
    | some e => s.print ⟨id, false, "Failed to initialize PCAP writer: " ++ e⟩
    | none =>
      { s with captureHandle := some ⟨interface, filename, duration, false⟩ }.print
        ⟨id, true, "PCAPng Forensic Recording Active on " ++ interface⟩

/-- `handle_netcap_command`. -/
def handleNetcapCommand (s : Agent) (cmdVal : JsTree) (pcapError : Option String) : Agent :=
  let id := asStr (cmdVal.get "id")
  let cmdType := (asStr (cmdVal.get "type")).getD ""
  -- a Landlock rule, and nothing that the model has
  if cmdType = "ENFORCE_PID" then s
  else if cmdType = "StartCapture" then s.startCapture id cmdVal pcapError
  else if cmdType = "StopCapture" then { s with captureHandle := none }
  else s

/-- One read of stdin. -/
def read (s : Agent) (n : ℕ) : Option Agent :=
  if s.draining = false ∧ 0 < n ∧ n ≤ 1024 ∧ n ≤ s.pipe.length then
    some { s with buffer := s.buffer ++ s.pipe.take n, pipe := s.pipe.drop n, draining := true }
  else none

/-- The byte that ends a line. -/
def newline : UInt8 := 10

/-- One turn of the inner loop. -/
def turn (env : Env) (s : Agent) (pcapError : Option String) : Option Agent :=
  if s.draining = false then none
  else if s.buffer = [] then some { s with draining := false }
  else
    match env.fromMessagePack s.buffer with
    | some cmdVal =>
      some { s.handleNetcapCommand cmdVal pcapError with buffer := [], draining := false }
    | none =>
      match s.buffer.idxOf? newline with
      | some pos =>
        let rest := s.buffer.drop (pos + 1)
        match env.fromJson (s.buffer.take pos) with
        | some cmdVal => some { s.handleNetcapCommand cmdVal pcapError with buffer := rest }
        | none => some { s with buffer := rest }
      | none => some { s with draining := false }

/-! ### The orchestrator -/

/-- What `rawSendCommand` does between taking the lock and the race. `mapped` says whether there is
a mapping of the slot. -/
def handOver (env : Env) (s : Agent) (mapped : Bool) (commandObj : JsTree) : Agent :=
  let s := { s with handed := s.handed ++ [commandObj] }
  match env.serializeMessagePack commandObj with
  | some binCmd =>
    let (success, slot) := Ipc.writeShmem env.target s.slot binCmd env.obfuscationKey
    if mapped ∧ success then { s with slot := slot } else { s with pipe := s.pipe ++ binCmd }
  | none => { s with pipe := s.pipe ++ (env.stringify commandObj ++ [newline]) }

/-! ### Both sides -/

/-- What can happen. -/
inductive Action
  | handOver (mapped : Bool) (commandObj : JsTree)
  | read (n : ℕ)
  | turn (pcapError : Option String)
  | captureEnds
  | wait

/-- One step. -/
def step (env : Env) (s : Agent) : Action → Option Agent
  | .handOver mapped commandObj => some (s.handOver env mapped commandObj)
  | .read n => s.read n
  | .turn pcapError => s.turn env pcapError
  | .captureEnds =>
    if s.capturing then
      some { s with captureHandle := s.captureHandle.map fun h ↦ { h with finished := true } }
    else none
  | .wait => some s

/-! ### What is answered -/

variable {s : Agent} {cmdVal : JsTree}

theorem startCapture_of_capturing (h : s.capturing = true) (id : Option String) (cmdVal : JsTree)
    (pcapError : Option String) : s.startCapture id cmdVal pcapError = s := by
  exact if_pos h

/-- Without a running capture, there is one response, and it has the id of the command. -/
theorem printed_startCapture (h : s.capturing = false) (id : Option String) (cmdVal : JsTree)
    (pcapError : Option String) :
    ∃ response, response.id = id ∧
      (s.startCapture id cmdVal pcapError).printed = s.printed ++ [response] := by
  rw [startCapture]
  simp only [h, Bool.false_eq_true, if_false]
  split
  · exact ⟨_, rfl, rfl⟩
  · exact ⟨_, rfl, rfl⟩

theorem handleNetcapCommand_startCapture (s : Agent)
    (htype : asStr (cmdVal.get "type") = some "StartCapture") (pcapError : Option String) :
    s.handleNetcapCommand cmdVal pcapError =
      s.startCapture (asStr (cmdVal.get "id")) cmdVal pcapError := by
  simp only [handleNetcapCommand, htype, Option.getD_some]
  rw [if_neg (by decide), if_pos trivial]

theorem printed_of_type_ne (s : Agent) (htype : asStr (cmdVal.get "type") ≠ some "StartCapture")
    (pcapError : Option String) : (s.handleNetcapCommand cmdVal pcapError).printed = s.printed := by
  have hother : (asStr (cmdVal.get "type")).getD "" ≠ "StartCapture" := by
    rcases heq : asStr (cmdVal.get "type") with - | type
    · decide
    · rintro rfl
      exact htype heq
  simp only [handleNetcapCommand]
  split
  · rfl
  · split <;> rfl

/-- What a command that arrives adds to the output: one response with its id if it starts a capture
and none is running, and otherwise nothing. -/
theorem printed_handleNetcapCommand (s : Agent) (cmdVal : JsTree) (pcapError : Option String) :
    if asStr (cmdVal.get "type") = some "StartCapture" ∧ s.capturing = false then
      ∃ response, response.id = asStr (cmdVal.get "id") ∧
        (s.handleNetcapCommand cmdVal pcapError).printed = s.printed ++ [response]
    else (s.handleNetcapCommand cmdVal pcapError).printed = s.printed := by
  by_cases htype : asStr (cmdVal.get "type") = some "StartCapture"
  · rw [s.handleNetcapCommand_startCapture htype]
    by_cases hcap : s.capturing = false
    · rw [if_pos ⟨htype, hcap⟩]
      exact printed_startCapture hcap ..
    · rw [if_neg fun h ↦ hcap h.2,
        startCapture_of_capturing (Bool.eq_true_of_not_eq_false hcap)]
  · rw [if_neg fun h ↦ htype h.1, s.printed_of_type_ne htype]

/-! ### The slot is never read -/

/-- The same agent with another slot. -/
def withSlot (s : Agent) (slot : Mem) : Agent := { s with slot := slot }

theorem handleNetcapCommand_withSlot (s : Agent) (slot : Mem) (cmdVal : JsTree)
    (pcapError : Option String) :
    (s.withSlot slot).handleNetcapCommand cmdVal pcapError =
      (s.handleNetcapCommand cmdVal pcapError).withSlot slot := by
  have hstart : (s.withSlot slot).startCapture (asStr (cmdVal.get "id")) cmdVal pcapError =
      (s.startCapture (asStr (cmdVal.get "id")) cmdVal pcapError).withSlot slot := by
    simp only [startCapture, apply_ite (withSlot · slot)]
    congr 1
    split <;> rfl
  simp only [handleNetcapCommand, hstart, apply_ite (withSlot · slot)]
  rfl

theorem turn_withSlot (s : Agent) (env : Env) (slot : Mem) (pcapError : Option String) :
    (s.withSlot slot).turn env pcapError = (s.turn env pcapError).map (withSlot · slot) := by
  have hbuf : (s.withSlot slot).buffer = s.buffer := rfl
  simp only [turn, hbuf, handleNetcapCommand_withSlot, apply_ite (Option.map _)]
  congr 2
  rcases env.fromMessagePack s.buffer with - | cmdVal
  · rcases s.buffer.idxOf? newline with - | pos
    · rfl
    · dsimp only
      rcases env.fromJson (s.buffer.take pos) with - | cmdVal <;> rfl
  · rfl

/-- No step of the agent depends on the slot. -/
theorem step_withSlot (env : Env) (s : Agent) (slot : Mem) {a : Action}
    (ha : ∀ mapped commandObj, a ≠ .handOver mapped commandObj) :
    step env (s.withSlot slot) a = (step env s a).map (withSlot · slot) := by
  cases a with
  | handOver mapped commandObj => exact absurd rfl (ha mapped commandObj)
  | read n =>
    simp only [step, read, apply_ite (Option.map _)]
    rfl
  | turn pcapError => exact s.turn_withSlot env slot pcapError
  | captureEnds =>
    simp only [step, apply_ite (Option.map _)]
    rfl
  | wait => rfl

/-- Whatever happens to the agent without another hand-over, it does the same with another slot; so
a command in the slot is never handled. -/
theorem run_withSlot (env : Env) (slot : Mem) {as : List Action}
    (has : ∀ a ∈ as, ∀ mapped commandObj, a ≠ .handOver mapped commandObj) (s : Agent) :
    run (step env) (s.withSlot slot) as = (run (step env) s as).map (withSlot · slot) := by
  induction as generalizing s with
  | nil => rfl
  | cons a as ih =>
    obtain ⟨ha, has⟩ := List.forall_mem_cons.1 has
    rw [run, run, step_withSlot env s slot ha]
    rcases step env s a with - | t
    · rfl
    · exact ih has t

end Agent

end Netcap
