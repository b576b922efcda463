import CounterTerrorist.Netcap.Agent

/-!
# Which commands the capture agent answers

A command that was handed over should be answered with exactly one response. This module says for
which commands that is so, over infinite executions of the machine of `Netcap.Agent`.

## What is needed

A command has to go to stdin, because nobody reads the slot. It has to be MessagePack: a line of
JSON starts with a brace, and a brace by itself is a MessagePack number. It has to arrive alone,
since the buffer is cleared after the first value; and while only a part of it has arrived there may
be no newline in that part, since the agent would take the part for a line. `Orderly` has these
conditions, on the step and the state before it.

Then it is handled (`commands_answered_once`), and answered if it starts a capture and none was
running. Commands of other types, and commands in the slot, are never answered.

## How it is proved

`InTransit` says which command the bytes of the buffer and of the pipe are. `Moved` is what a step
of an orderly execution can do, and `step_moved` says so; what follows is about `Moved` alone. A
command on its way gets closer with every turn of the loop (`remaining`, `Awaited.moved`).
-/

open ByteMemory Core Machine

namespace Netcap

open List Option

/-- What is assumed about the serializer and the decoder of MessagePack. -/
structure Env.Faithful (env : Env) : Prop where
  ne_nil : ∀ {cmd binCmd}, env.serializeMessagePack cmd = some binCmd → binCmd ≠ []
  /-- Without its end, a command does not decode. -/
  incomplete : ∀ {cmd front rest}, env.serializeMessagePack cmd = some (front ++ rest) →
    rest ≠ [] → env.fromMessagePack front = none
  /-- A whole command decodes, to a value with the same strings. -/
  decodes : ∀ {cmd binCmd}, env.serializeMessagePack cmd = some binCmd →
    ∃ cmdVal, env.fromMessagePack binCmd = some cmdVal ∧
      ∀ key, asStr (cmdVal.get key) = asStr (cmd.get key)

/-- The id of a command. -/
def idOf (cmd : JsTree) : Option String := asStr (cmd.get "id")

/-- The type of a command. -/
def typeOf (cmd : JsTree) : Option String := asStr (cmd.get "type")

namespace Agent

/-- The steps of the loop of the agent. -/
def Action.OfLoop : Action → Prop
  | .read _ | .turn _ => True
  | _ => False

variable {env : Env} {s t : Agent} {a : Action} {cmd : JsTree} {cur next : Option JsTree}
  {binCmd : List UInt8} {mapped : Bool} {id : String}

/-! ### Conditions -/

/-- The slot is mapped and free, and the command fits. -/
def ViaSlot (s : Agent) (mapped : Bool) (binCmd : List UInt8) : Prop :=
  mapped = true ∧ binCmd.length + 8 ≤ s.slot.length ∧ loadU32 s.slot 0 = 0

/-- Commands have ids of their own and are MessagePack; on stdin, a command is written when there is
nothing left of the ones before; and a read that does not take all of it brings no newline. -/
def Orderly (env : Env) (s : Agent) : Action → Prop
  | .handOver mapped cmd =>
    (∃ id, idOf cmd = some id ∧ ∀ other ∈ s.handed, idOf other ≠ some id) ∧
      ∃ binCmd, env.serializeMessagePack cmd = some binCmd ∧
        (s.ViaSlot mapped binCmd ∨ s.pipe = [] ∧ s.buffer = [])
  | .read n => s.pipe.drop n = [] ∨ newline ∉ s.buffer ++ s.pipe.take n
  | .turn _ | .captureEnds | .wait => True

/-- The command goes to stdin, it starts a capture, and none is running. -/
def Answerable (env : Env) (s : Agent) (mapped : Bool) (cmd : JsTree) : Prop :=
  (∀ binCmd, env.serializeMessagePack cmd = some binCmd → ¬s.ViaSlot mapped binCmd) ∧
    typeOf cmd = some "StartCapture" ∧ s.capturing = false

/-- The loop keeps turning: if it can go on, it does so sooner or later. -/
def Turning {slot : Mem} (x : Execution (step env) (init slot)) : Prop :=
  ∀ n, (x.state n).draining = true ∨ (x.state n).pipe ≠ [] → ∃ m, n ≤ m ∧ (x.label m).OfLoop

/-- The responses with an id. -/
def responses (s : Agent) (id : String) : List SidecarResponse :=
  s.printed.filter fun response ↦ response.id == some id

theorem responses_of_printed (h : t.printed = s.printed) : t.responses id = s.responses id := by
  rw [responses, responses, h]

theorem responses_append {response : SidecarResponse} (h : t.printed = s.printed ++ [response]) :
    t.responses id = s.responses id ++ if response.id = some id then [response] else [] := by
  rw [responses, responses, h]
  by_cases hid : response.id = some id <;> simp [hid]

/-! ### A hand-over -/

theorem handOver_of_viaSlot (hser : env.serializeMessagePack cmd = some binCmd)
    (hslot : s.ViaSlot mapped binCmd) : s.handOver env mapped cmd = { s with
        handed := s.handed ++ [cmd]
        slot := Ipc.stored s.slot env.obfuscationKey binCmd } := by
  obtain ⟨rfl, hfits, hfree⟩ := hslot
  simp only [handOver, hser, Ipc.writeShmem_of_free hfits hfree]
  exact if_pos ⟨trivial, trivial⟩

theorem handOver_of_not_viaSlot (hser : env.serializeMessagePack cmd = some binCmd)
    (hstdin : ¬s.ViaSlot mapped binCmd) : s.handOver env mapped cmd = { s with
        handed := s.handed ++ [cmd]
        pipe := s.pipe ++ binCmd } := by
  simp only [handOver, hser, Ipc.writeShmem_eq]
  refine if_neg fun ⟨hmap, hsucc⟩ ↦ hstdin ?_
  by_cases hcond : 8 ≤ s.slot.length ∧ binCmd.length + 8 ≤ s.slot.length ∧ loadU32 s.slot 0 = 0
  · exact ⟨hmap, hcond.2⟩
  · rw [if_neg hcond] at hsucc
    cases hsucc

/-! ### What the bytes are -/

/-- Which command the bytes in the buffer and in the pipe are. -/
inductive InTransit (env : Env) (s : Agent) : Option JsTree → Prop
  | nothing (hpipe : s.pipe = []) (hbuffer : s.buffer = []) (hwaits : s.draining = false) :
    InTransit env s none
  /-- A part of it may be in the buffer. -/
  | command {cmd : JsTree} (hser : env.serializeMessagePack cmd = some (s.buffer ++ s.pipe))
    (hwaits : s.draining = false → s.pipe ≠ []) (hdrains : s.draining = true → s.buffer ≠ [])
    (hline : s.pipe ≠ [] → newline ∉ s.buffer) : InTransit env s (some cmd)

/-- How much the loop has to do until everything has arrived. -/
def remaining (s : Agent) : ℕ := 2 * s.pipe.length + s.draining.toNat

namespace InTransit

/-- Only the buffer, the pipe and the place in the loop matter. -/
theorem congr (h : InTransit env s cur) (hpipe : t.pipe = s.pipe) (hbuffer : t.buffer = s.buffer)
    (hdrain : t.draining = s.draining) : InTransit env t cur := by
  cases h with
  | nothing => exact .nothing (by rwa [hpipe]) (by rwa [hbuffer]) (by rwa [hdrain])
  | command hser hwaits hdrains hline =>
    rw [← hpipe, ← hbuffer] at hser
    rw [← hpipe, ← hdrain] at hwaits
    rw [← hbuffer, ← hdrain] at hdrains
    rw [← hpipe, ← hbuffer] at hline
    exact .command hser hwaits hdrains hline

/-- If nothing is left, nothing is in transit. -/
theorem eq_none (hfaithful : env.Faithful) (h : InTransit env s cur) (hpipe : s.pipe = [])
    (hbuffer : s.buffer = []) : cur = none ∧ s.draining = false := by
  cases h with
  | nothing _ _ hwaits => exact ⟨rfl, hwaits⟩
  | command hser =>
    rw [hpipe, hbuffer] at hser
    exact absurd rfl (hfaithful.ne_nil hser)

/-- There is something to do as long as a command is in transit. -/
theorem busy (h : InTransit env s (some cmd)) : s.draining = true ∨ s.pipe ≠ [] := by
  cases h with
  | command _ hwaits =>
    cases hdrain : s.draining with
    | true => exact .inl rfl
    | false => exact .inr (hwaits hdrain)

/-- A command that is written when nothing is left is in transit. -/
theorem write (hfaithful : env.Faithful) (hser : env.serializeMessagePack cmd = some binCmd)
    (hpipe : s.pipe = []) (hbuffer : s.buffer = []) (hwaits : s.draining = false) :
    InTransit env { s with
      handed := s.handed ++ [cmd]
      pipe := s.pipe ++ binCmd } (some cmd) := by
  refine .command ?_ ?_ ?_ ?_
  · rw [hbuffer, hpipe]
    exact hser
  · rw [hpipe]
    exact fun _ ↦ hfaithful.ne_nil hser
  · rw [hwaits]
    rintro ⟨⟩
  · rw [hbuffer]
    exact fun _ ↦ not_mem_nil

/-- A read moves a part of the command, or the rest of it, to the buffer. -/
theorem read {n : ℕ} (h : InTransit env s cur)
    (hok : s.pipe.drop n = [] ∨ newline ∉ s.buffer ++ s.pipe.take n)
    (hcond : s.draining = false ∧ 0 < n ∧ n ≤ 1024 ∧ n ≤ s.pipe.length) :
    InTransit env { s with
      buffer := s.buffer ++ s.pipe.take n
      pipe := s.pipe.drop n
      draining := true } cur := by
  obtain ⟨-, hpos, -, hlen⟩ := hcond
  have hne : s.pipe.take n ≠ [] := by
    rw [← length_pos_iff, length_take]
    omega
  cases h with
  | nothing hpipe =>
    rw [hpipe] at hne
    exact absurd take_nil hne
  | command hser _ _ _ =>
    refine .command ?_ (by rintro ⟨⟩) (fun _ ↦ append_ne_nil_of_right_ne_nil _ hne)
      fun hmore ↦ hok.resolve_left hmore
    rw [append_assoc, take_append_drop]
    exact hser

/-- A turn of the loop handles the command, if all of it has arrived, or goes back to reading. -/
theorem turn (hfaithful : env.Faithful) {pcapError : Option String} (h : InTransit env s cur)
    (hs : s.turn env pcapError = some t) :
    (s.draining = true ∧ t = { s with draining := false } ∧ InTransit env t cur) ∨
      ∃ cmd cmdVal, cur = some cmd ∧ (∀ key, asStr (cmdVal.get key) = asStr (cmd.get key)) ∧
        t = { s.handleNetcapCommand cmdVal pcapError with
          buffer := []
          draining := false } ∧ s.pipe = [] := by
  rw [Agent.turn, ite_none_left_eq_some] at hs
  obtain ⟨hdrain, hs⟩ := hs
  have hdrain : s.draining = true := Bool.eq_true_of_not_eq_false hdrain
  cases h with
  | nothing _ _ hwaits =>
    rw [hdrain] at hwaits
    cases hwaits
  | @command cmd hser _ hdrains hline =>
    rw [if_neg (hdrains hdrain)] at hs
    by_cases hpipe : s.pipe = []
    · rw [hpipe, append_nil] at hser
      obtain ⟨cmdVal, hdecode, hstrings⟩ := hfaithful.decodes hser
      rw [hdecode] at hs
      exact .inr ⟨cmd, cmdVal, rfl, hstrings, (some.inj hs).symm, hpipe⟩
    · rw [hfaithful.incomplete hser hpipe, idxOf?_eq_none_iff.2 (hline hpipe)] at hs
      obtain rfl := some.inj hs
      exact .inl ⟨hdrain, rfl, .command hser (fun _ ↦ hpipe) (by rintro ⟨⟩) hline⟩

end InTransit

/-! ### What a step can do -/

/-- The steps of an orderly execution, by what they do to the command in transit. -/
inductive Moved (env : Env) (s : Agent) (cur : Option JsTree) :
    Action → Agent → Option JsTree → Prop
  /-- Into the slot, where it stays. -/
  | slot {mapped : Bool} {cmd : JsTree} {binCmd : List UInt8} {t : Agent}
    (hser : env.serializeMessagePack cmd = some binCmd) (hslot : s.ViaSlot mapped binCmd)
    (hhanded : t.handed = s.handed ++ [cmd]) (hprinted : t.printed = s.printed)
    (hcapturing : t.capturing = s.capturing) (hremaining : t.remaining = s.remaining) :
    Moved env s cur (.handOver mapped cmd) t cur
  | stdin {mapped : Bool} {cmd : JsTree} {binCmd : List UInt8} {t : Agent}
    (hser : env.serializeMessagePack cmd = some binCmd) (hstdin : ¬s.ViaSlot mapped binCmd)
    (hcur : cur = none) (hhanded : t.handed = s.handed ++ [cmd])
    (hprinted : t.printed = s.printed) (hcapturing : t.capturing = s.capturing) :
    Moved env s cur (.handOver mapped cmd) t (some cmd)
  /-- The command gets closer, or the step is not one of the loop. -/
  | quiet {a : Action} {t : Agent} (hnew : ∀ mapped cmd, a ≠ .handOver mapped cmd)
    (hhanded : t.handed = s.handed) (hprinted : t.printed = s.printed)
    (hcapturing : s.capturing = false → t.capturing = false)
    (hremaining : t.remaining = s.remaining ∧ ¬a.OfLoop ∨ t.remaining < s.remaining) :
    Moved env s cur a t cur
  | handled {cmd : JsTree} {pcapError : Option String} {t : Agent} (hcur : cur = some cmd)
    (hhanded : t.handed = s.handed)
    (hprinted : if typeOf cmd = some "StartCapture" ∧ s.capturing = false then
      ∃ response, response.id = idOf cmd ∧ t.printed = s.printed ++ [response]
      else t.printed = s.printed) :
    Moved env s cur (.turn pcapError) t none

theorem handed_handleNetcapCommand (s : Agent) (cmdVal : JsTree) (pcapError : Option String) :
    (s.handleNetcapCommand cmdVal pcapError).handed = s.handed ∧
      (s.handleNetcapCommand cmdVal pcapError).pipe = s.pipe := by
  have hstart (id) : (s.startCapture id cmdVal pcapError).handed = s.handed ∧
      (s.startCapture id cmdVal pcapError).pipe = s.pipe := by
    rw [startCapture]
    split
    · exact ⟨rfl, rfl⟩
    · split <;> exact ⟨rfl, rfl⟩
  rw [handleNetcapCommand]
  split
  · exact ⟨rfl, rfl⟩
  · split
    · exact hstart _
    · split <;> exact ⟨rfl, rfl⟩

/-- **What an orderly step does.** -/
theorem step_moved (hfaithful : env.Faithful) (h : InTransit env s cur) (hok : Orderly env s a)
    (hs : step env s a = some t) : ∃ next, InTransit env t next ∧ Moved env s cur a t next := by
  cases a with
  | handOver mapped cmd =>
    obtain ⟨-, binCmd, hser, hplace⟩ := hok
    obtain rfl := some.inj hs
    by_cases hslot : s.ViaSlot mapped binCmd
    · rw [handOver_of_viaSlot hser hslot]
      exact ⟨cur, h.congr rfl rfl rfl, .slot hser hslot rfl rfl rfl rfl⟩
    · obtain ⟨hpipe, hbuffer⟩ := hplace.resolve_left hslot
      obtain ⟨hnone, hwaits⟩ := h.eq_none hfaithful hpipe hbuffer
      rw [handOver_of_not_viaSlot hser hslot]
      exact ⟨some cmd, .write hfaithful hser hpipe hbuffer hwaits,
        .stdin hser hslot hnone rfl rfl rfl⟩
  | read n =>
    rw [step, Agent.read, ite_none_right_eq_some] at hs
    obtain ⟨hcond, hs⟩ := hs
    obtain rfl := some.inj hs
    refine ⟨cur, h.read hok hcond, .quiet (by rintro _ _ ⟨⟩) rfl rfl id (.inr ?_)⟩
    obtain ⟨-, hpos, -, hlen⟩ := hcond
    simp only [remaining, length_drop, Bool.toNat_true]
    omega
  | turn pcapError =>
    obtain ⟨hdrain, rfl, ht⟩ | ⟨cmd, cmdVal, hcur, hstrings, rfl, hpipe⟩ := h.turn hfaithful hs
    · refine ⟨cur, ht, .quiet (by rintro _ _ ⟨⟩) rfl rfl id (.inr ?_)⟩
      rw [remaining, remaining, hdrain]
      exact Nat.lt_succ_self _
    · obtain ⟨hhanded, hrest⟩ := s.handed_handleNetcapCommand cmdVal pcapError
      have hprinted := s.printed_handleNetcapCommand cmdVal pcapError
      rw [hstrings, hstrings] at hprinted
      exact ⟨none, .nothing (hrest.trans hpipe) rfl rfl, .handled hcur hhanded hprinted⟩
  | captureEnds =>
    rw [step, ite_none_right_eq_some] at hs
    obtain ⟨hcapturing, hs⟩ := hs
    obtain rfl := some.inj hs
    refine ⟨cur, h.congr rfl rfl rfl, .quiet (by rintro _ _ ⟨⟩) rfl rfl (fun hfalse ↦ ?_)
      (.inl ⟨rfl, id⟩)⟩
    rw [hcapturing] at hfalse
    cases hfalse
  | wait =>
    obtain rfl := some.inj hs
    exact ⟨cur, h, .quiet (by rintro _ _ ⟨⟩) rfl rfl id (.inl ⟨rfl, id⟩)⟩

/-! ### Ids -/

/-- Whatever is in transit or was printed has the id of a command that was handed over. -/
structure Known (s : Agent) (cur : Option JsTree) : Prop where
  transit : ∀ cmd ∈ cur, cmd ∈ s.handed
  printed : ∀ response ∈ s.printed, ∃ cmd ∈ s.handed, response.id = idOf cmd

/-- The id was used, and nothing in transit will be answered with it. -/
structure Spent (id : String) (s : Agent) (cur : Option JsTree) : Prop where
  used : ∃ cmd ∈ s.handed, idOf cmd = some id
  transit : ∀ cmd ∈ cur, idOf cmd = some id → typeOf cmd ≠ some "StartCapture"

/-- The command can be answered as soon as it arrives. -/
structure Awaited (id : String) (s : Agent) (cmd : JsTree) : Prop where
  handed : cmd ∈ s.handed
  hasId : idOf cmd = some id
  type : typeOf cmd = some "StartCapture"
  idle : s.capturing = false
  unanswered : s.responses id = []

theorem Moved.handed_subset (hm : Moved env s cur a t next) : s.handed ⊆ t.handed := by
  cases hm with
  | slot _ _ hhanded | stdin _ _ _ hhanded => exact hhanded ▸ subset_append_left _ _
  | quiet _ hhanded | handled _ hhanded => exact hhanded ▸ Subset.refl _

theorem Known.moved (h : Known s cur) (hm : Moved env s cur a t next) : Known t next := by
  have hsub := hm.handed_subset
  have hold : ∀ response ∈ s.printed, ∃ cmd ∈ t.handed, response.id = idOf cmd := by
    intro response hmem
    obtain ⟨cmd, hcmd, hid⟩ := h.printed response hmem
    exact ⟨cmd, hsub hcmd, hid⟩
  cases hm with
  | slot _ _ _ hprinted | quiet _ _ hprinted =>
    exact ⟨fun cmd hcmd ↦ hsub (h.transit cmd hcmd), hprinted ▸ hold⟩
  | stdin _ _ _ hhanded hprinted =>
    refine ⟨fun other hother ↦ ?_, hprinted ▸ hold⟩
    obtain rfl := some.inj hother
    exact hhanded ▸ mem_append_right _ mem_cons_self
  | @handled cmd _ _ hcur _ hprinted =>
    refine ⟨nofun, ?_⟩
    split at hprinted
    · obtain ⟨response, hid, heq⟩ := hprinted
      rw [heq]
      intro other hother
      rcases mem_append.1 hother with hother | hnew
      · exact hold other hother
      · obtain rfl := mem_singleton.1 hnew
        exact ⟨cmd, hsub (h.transit cmd hcur), hid⟩
    · exact hprinted ▸ hold

/-- Nothing was answered with a new id. -/
theorem Known.responses_eq_nil (h : Known s cur) (hfresh : ∀ cmd ∈ s.handed, idOf cmd ≠ some id) :
    s.responses id = [] := by
  rw [responses, filter_eq_nil_iff]
  intro response hmem heq
  obtain ⟨cmd, hcmd, hid⟩ := h.printed response hmem
  exact hfresh cmd hcmd (hid ▸ beq_iff_eq.1 heq)

/-- A new command has another id than the used ones. -/
theorem Spent.ne_of_orderly (h : Spent id s cur) (hok : Orderly env s (.handOver mapped cmd)) :
    idOf cmd ≠ some id := by
  obtain ⟨⟨fresh, hfresh, hother⟩, -⟩ := hok
  obtain ⟨used, hused, hid⟩ := h.used
  intro heq
  exact hother used hused (hid.trans (heq.symm.trans hfresh))

theorem Spent.moved (h : Spent id s cur) (hok : Orderly env s a) (hm : Moved env s cur a t next) :
    Spent id t next ∧ t.responses id = s.responses id := by
  obtain ⟨used, hmem, hid⟩ := h.used
  have hused : ∃ cmd ∈ t.handed, idOf cmd = some id := ⟨used, hm.handed_subset hmem, hid⟩
  cases hm with
  | slot _ _ _ hprinted | quiet _ _ hprinted =>
    exact ⟨⟨hused, h.transit⟩, responses_of_printed hprinted⟩
  | stdin _ _ _ _ hprinted =>
    refine ⟨⟨hused, fun other hother hsame ↦ ?_⟩, responses_of_printed hprinted⟩
    obtain rfl := some.inj hother
    exact absurd hsame (h.ne_of_orderly hok)
  | @handled cmd _ _ hcur _ hprinted =>
    refine ⟨⟨hused, nofun⟩, ?_⟩
    split at hprinted
    · rename_i hstarts
      obtain ⟨response, hresp, heq⟩ := hprinted
      have hother : response.id ≠ some id :=
        fun hsame ↦ h.transit cmd hcur (hresp ▸ hsame) hstarts.1
      rw [responses_append heq, if_neg hother, append_nil]
    · exact responses_of_printed hprinted

/-- A command that will be answered is still in transit afterwards, and every step of the loop has
brought it closer; or it has been answered. -/
theorem Awaited.moved (h : Awaited id s cmd) (hm : Moved env s (some cmd) a t next) :
    (next = some cmd ∧ Awaited id t cmd ∧
      (t.remaining = s.remaining ∧ ¬a.OfLoop ∨ t.remaining < s.remaining)) ∨
    (Spent id t next ∧ (t.responses id).length = 1) := by
  have hhanded := hm.handed_subset h.handed
  cases hm with
  | slot _ _ _ hprinted hcapturing hremaining =>
    exact .inl ⟨rfl, ⟨hhanded, h.hasId, h.type, hcapturing.trans h.idle,
      (responses_of_printed hprinted).trans h.unanswered⟩, .inl ⟨hremaining, fun h ↦ h⟩⟩
  | stdin _ _ hcur => cases hcur
  | quiet _ _ hprinted hcapturing hremaining =>
    exact .inl ⟨rfl, ⟨hhanded, h.hasId, h.type, hcapturing h.idle,
      (responses_of_printed hprinted).trans h.unanswered⟩, hremaining⟩
  | handled hcur _ hprinted =>
    obtain rfl := some.inj hcur
    rw [if_pos ⟨h.type, h.idle⟩] at hprinted
    obtain ⟨response, hresp, heq⟩ := hprinted
    refine .inr ⟨⟨⟨cmd, hhanded, h.hasId⟩, nofun⟩, ?_⟩
    rw [responses_append heq, h.unanswered, if_pos (hresp.trans h.hasId)]
    rfl

/-! ### Executions -/

/-- The command is in transit and will be answered. -/
def OnItsWay (env : Env) (id : String) (cmd : JsTree) (s : Agent) : Prop :=
  InTransit env s (some cmd) ∧ Awaited id s cmd

/-- There is one response with the id, and there will be no other. -/
def Answered (env : Env) (id : String) (s : Agent) : Prop :=
  ∃ cur, InTransit env s cur ∧ Spent id s cur ∧ (s.responses id).length = 1

section Execution

variable {slot : Mem} (x : Execution (step env) (init slot))

section

variable (hfaithful : env.Faithful) (hok : ∀ n, Orderly env (x.state n) (x.label n))
include hfaithful hok

theorem known (n : ℕ) : ∃ cur, InTransit env (x.state n) cur ∧ Known (x.state n) cur := by
  refine x.invariant (P := fun s ↦ ∃ cur, InTransit env s cur ∧ Known s cur)
    ⟨none, .nothing rfl rfl rfl, nofun, nofun⟩ ?_ n
  rintro m ⟨cur, htr, hknown⟩
  obtain ⟨next, hnext, hm⟩ := step_moved hfaithful htr (hok m) (x.next m)
  exact ⟨next, hnext, hknown.moved hm⟩

/-- Nothing is ever again answered with an id that was used up. -/
theorem responses_of_spent {m k : ℕ} (hmk : m ≤ k)
    (htr : InTransit env (x.state m) cur) (hspent : Spent id (x.state m) cur) :
    (x.state k).responses id = (x.state m).responses id := by
  have hforever : ∃ cur, InTransit env (x.state k) cur ∧ Spent id (x.state k) cur ∧
      (x.state k).responses id = (x.state m).responses id := by
    refine x.forever (P := fun s ↦ ∃ cur, InTransit env s cur ∧ Spent id s cur ∧
      s.responses id = (x.state m).responses id) ?_ hmk ⟨cur, htr, hspent, rfl⟩
    rintro n ⟨cur, htr, hspent, hsame⟩
    obtain ⟨next, hnext, hm⟩ := step_moved hfaithful htr (hok n) (x.next n)
    obtain ⟨hspent, hstep⟩ := hspent.moved (hok n) hm
    exact ⟨next, hnext, hspent, hstep.trans hsame⟩
  obtain ⟨-, -, -, hsame⟩ := hforever
  exact hsame

/-- If the loop keeps turning, a command that will be answered is answered. -/
theorem answered_of_awaited (hturning : Turning x) {n : ℕ}
    (hn : OnItsWay env id cmd (x.state n)) : ∃ m, n < m ∧ Answered env id (x.state m) := by
  refine x.leadsTo_of_rank (P := OnItsWay env id cmd) (H := Action.OfLoop) remaining ?_
    (fun n hn ↦ hturning n hn.1.busy) hn
  rintro k ⟨htr, hawaited⟩
  obtain ⟨next, hnext, hm⟩ := step_moved hfaithful htr (hok k) (x.next k)
  obtain ⟨rfl, hstill, hcloser⟩ | ⟨hspent, hone⟩ := hawaited.moved hm
  · exact .inr ⟨⟨hnext, hstill⟩, hcloser⟩
  · exact .inl ⟨next, hnext, hspent, hone⟩

/-- What the hand-over of a command leads to: the command is in transit, or its id is used up. -/
theorem handedOver {n : ℕ} (hn : x.label n = .handOver mapped cmd) (hid : idOf cmd = some id) :
    (x.state n).responses id = [] ∧ (x.state (n + 1)).responses id = [] ∧
      ∃ cur, InTransit env (x.state (n + 1)) cur ∧ (Answerable env (x.state n) mapped cmd →
          cur = some cmd ∧ Awaited id (x.state (n + 1)) cmd) ∧
        ((∃ binCmd, env.serializeMessagePack cmd = some binCmd ∧
            (x.state n).ViaSlot mapped binCmd) ∨ typeOf cmd ≠ some "StartCapture" →
          Spent id (x.state (n + 1)) cur) := by
  obtain ⟨cur, htr, hknown⟩ := known x hfaithful hok n
  have hokn := hok n
  have hnext := x.next n
  rw [hn] at hokn hnext
  obtain ⟨next, htransit', hm⟩ := step_moved hfaithful htr hokn hnext
  obtain ⟨⟨id', hid', hfresh⟩, -⟩ := hokn
  obtain rfl := some.inj (hid'.symm.trans hid)
  have hnone := hknown.responses_eq_nil hfresh
  cases hm with
  | slot hser hslot hhanded hprinted =>
    have hmem : cmd ∈ (x.state (n + 1)).handed := hhanded ▸ mem_append_right _ mem_cons_self
    refine ⟨hnone, (responses_of_printed hprinted).trans hnone, cur, htransit',
      fun hans ↦ absurd hslot (hans.1 _ hser), fun _ ↦ ⟨⟨cmd, hmem, hid⟩, ?_⟩⟩
    -- what is in transit was handed over before
    exact fun other hother hsame ↦ absurd hsame (hfresh other (hknown.transit other hother))
  | stdin hser hstdin _ hhanded hprinted hcapturing =>
    have hmem : cmd ∈ (x.state (n + 1)).handed := hhanded ▸ mem_append_right _ mem_cons_self
    have hstill := (responses_of_printed hprinted).trans hnone
    refine ⟨hnone, hstill, some cmd, htransit', fun hans ↦ ?_, fun hnot ↦ ?_⟩
    · exact ⟨rfl, hmem, hid, hans.2.1, hcapturing.trans hans.2.2, hstill⟩
    · refine ⟨⟨cmd, hmem, hid⟩, fun other hother _ ↦ ?_⟩
      obtain rfl := some.inj hother
      refine hnot.resolve_left ?_
      rintro ⟨binCmd, hser', hslot⟩
      obtain rfl := some.inj (hser'.symm.trans hser)
      exact hstdin hslot
  | quiet hnew => exact absurd rfl (hnew mapped cmd)

end

/-- In every orderly execution whose loop keeps turning: a command that goes to stdin and starts a
capture, while none is running, is answered sooner or later, and from then on there is exactly one
response with its id. A command that goes to the slot or that does not start a capture is never
answered. -/
theorem commands_answered_once (hfaithful : env.Faithful) (hturning : Turning x)
    (hok : ∀ n, Orderly env (x.state n) (x.label n)) {n : ℕ}
    (hn : x.label n = .handOver mapped cmd) (hid : idOf cmd = some id) :
    (Answerable env (x.state n) mapped cmd →
      ∃ m, n < m ∧ ∀ k, m ≤ k → ((x.state k).responses id).length = 1) ∧
    ((∃ binCmd, env.serializeMessagePack cmd = some binCmd ∧
        (x.state n).ViaSlot mapped binCmd) ∨ typeOf cmd ≠ some "StartCapture" →
      ∀ k, n ≤ k → (x.state k).responses id = []) := by
  obtain ⟨hnone, hstill, cur, htransit, hawaited, hspent⟩ := handedOver x hfaithful hok hn hid
  refine ⟨fun hanswerable ↦ ?_, fun hnot k hk ↦ ?_⟩
  · obtain ⟨rfl, hcan⟩ := hawaited hanswerable
    obtain ⟨m, hlt, cur, hm, hspent, hone⟩ :=
      answered_of_awaited x hfaithful hok hturning ⟨htransit, hcan⟩
    refine ⟨m, Nat.lt_of_succ_lt hlt, fun k hk ↦ ?_⟩
    rw [responses_of_spent x hfaithful hok hk hm hspent]
    exact hone
  · rcases Nat.eq_or_lt_of_le hk with rfl | hlt
    · exact hnone
    · rw [responses_of_spent x hfaithful hok hlt htransit (hspent hnot)]
      exact hstill

end Execution

/-! ### One command -/

/-- One command is handed over, and the loop goes on whenever it can. -/
def oneCommand (mapped : Bool) (cmd : JsTree) (s : Agent) : Action :=
  if s.draining then .turn none
  else if s.pipe = [] then
    if s.handed.isEmpty then .handOver mapped cmd else .wait
  else .read (min 1024 s.pipe.length)

theorem isSome_step_oneCommand (mapped : Bool) (cmd : JsTree) (s : Agent) :
    (step env s (oneCommand mapped cmd s)).isSome = true := by
  unfold oneCommand
  split
  · rename_i hdrain
    simp only [step, turn, hdrain, Bool.true_eq_false, if_false]
    split
    · rfl
    · split
      · rfl
      · split
        · split <;> rfl
        · rfl
  · rename_i hdrain
    split
    · split <;> rfl
    · rename_i hpipe
      have hpos := length_pos_iff.2 hpipe
      have hcond : s.draining = false ∧ 0 < min 1024 s.pipe.length ∧
          min 1024 s.pipe.length ≤ 1024 ∧ min 1024 s.pipe.length ≤ s.pipe.length :=
        ⟨Bool.eq_false_of_not_eq_true hdrain, by omega, by omega, by omega⟩
      simp only [step, read, if_pos hcond, isSome_some]

/-- The execution with one command. -/
def session (env : Env) (slot : Mem) (mapped : Bool) (cmd : JsTree) :
    Execution (step env) (init slot) :=
  .ofPolicy (fun _ ↦ oneCommand mapped cmd) (fun _ ↦ isSome_step_oneCommand mapped cmd) _

section Session

variable {slot : Mem}

theorem label_session (n : ℕ) : (session env slot mapped cmd).label n =
    oneCommand mapped cmd ((session env slot mapped cmd).state n) := rfl

theorem turning_session : Turning (session env slot mapped cmd) := by
  intro n hbusy
  refine ⟨n, Nat.le_refl n, ?_⟩
  rw [label_session, oneCommand]
  split
  · trivial
  · rename_i hdrain
    rw [if_neg (hbusy.resolve_left hdrain)]
    trivial

/-- Once there is nothing to do, nothing happens any more. -/
theorem state_session_of_wait {n k : ℕ} (hn : (session env slot mapped cmd).label n = .wait)
    (hnk : n ≤ k) : (session env slot mapped cmd).state k =
      (session env slot mapped cmd).state n := by
  refine (session env slot mapped cmd).forever (P := fun s ↦ s = _) (fun k hk ↦ ?_) hnk rfl
  have hlabel : (session env slot mapped cmd).label k = .wait := by
    rw [label_session, hk]
    exact hn
  have hnext := (session env slot mapped cmd).next k
  rw [hlabel] at hnext
  exact (some.inj hnext).symm.trans hk

end Session

/-- A command that starts a capture. -/
def startCommand : JsTree := .obj [("type", .str "StartCapture"), ("id", .str "a")]

/-- A command that ends it. -/
def stopCommand : JsTree := .obj [("type", .str "StopCapture"), ("id", .str "a")]

/-- `startCommand` in MessagePack. -/
def startBytes : List UInt8 :=
  [0x82, 0xa4, 0x74, 0x79, 0x70, 0x65, 0xac, 0x53, 0x74, 0x61, 0x72, 0x74, 0x43, 0x61, 0x70, 0x74,
    0x75, 0x72, 0x65, 0xa2, 0x69, 0x64, 0xa1, 0x61]

/-- `stopCommand` in MessagePack. -/
def stopBytes : List UInt8 :=
  [0x82, 0xa4, 0x74, 0x79, 0x70, 0x65, 0xab, 0x53, 0x74, 0x6f, 0x70, 0x43, 0x61, 0x70, 0x74, 0x75,
    0x72, 0x65, 0xa2, 0x69, 0x64, 0xa1, 0x61]

/-- A serializer for these two. -/
def tinyEnv : Env where
  serializeMessagePack
    | .obj [("type", .str "StartCapture"), ("id", .str "a")] => some startBytes
    | .obj [("type", .str "StopCapture"), ("id", .str "a")] => some stopBytes
    | _ => none
  stringify _ := []
  fromMessagePack binCmd :=
    if binCmd = startBytes then some startCommand
    else if binCmd = stopBytes then some stopCommand
    else none
  fromJson _ := none
  target := .other
  obfuscationKey := none

theorem tinyEnv_cases (hser : tinyEnv.serializeMessagePack cmd = some binCmd) :
    (cmd = startCommand ∧ binCmd = startBytes) ∨ (cmd = stopCommand ∧ binCmd = stopBytes) := by
  simp only [tinyEnv] at hser
  split at hser
  · exact .inl ⟨rfl, (some.inj hser).symm⟩
  · exact .inr ⟨rfl, (some.inj hser).symm⟩
  · cases hser

/-- Neither of the two starts with the other or with a part of it. -/
theorem tinyEnv_incomplete : ∀ whole ∈ [startBytes, stopBytes], ∀ n < whole.length,
    whole.take n ≠ startBytes ∧ whole.take n ≠ stopBytes := by
  decide

theorem faithful_tinyEnv : tinyEnv.Faithful := by
  refine ⟨fun hser ↦ ?_, fun {cmd front rest} hser hrest ↦ ?_, fun hser ↦ ?_⟩
  · obtain ⟨-, rfl⟩ | ⟨-, rfl⟩ := tinyEnv_cases hser <;> exact cons_ne_nil _ _
  · have hwhole : front ++ rest ∈ [startBytes, stopBytes] := by
      obtain ⟨-, heq⟩ | ⟨-, heq⟩ := tinyEnv_cases hser <;> simp [heq]
    have hlt : front.length < (front ++ rest).length := by
      rw [length_append]
      exact Nat.lt_add_of_pos_right (length_pos_iff.2 hrest)
    obtain ⟨hstart, hstop⟩ := tinyEnv_incomplete _ hwhole _ hlt
    rw [take_left] at hstart hstop
    simp only [tinyEnv, if_neg hstart, if_neg hstop]
  · obtain ⟨rfl, rfl⟩ | ⟨rfl, rfl⟩ := tinyEnv_cases hser
    · exact ⟨startCommand, rfl, fun _ ↦ rfl⟩
    · exact ⟨stopCommand, rfl, fun _ ↦ rfl⟩

/-- The agent without a slot starts a capture, and answers once. -/
theorem commands_answered_once_startCommand :
    ∃ m, 0 < m ∧ ∀ k, m ≤ k →
      (((session tinyEnv [] false startCommand).state k).responses "a").length = 1 := by
  have hok : ∀ n, Orderly tinyEnv ((session tinyEnv [] false startCommand).state n)
      ((session tinyEnv [] false startCommand).label n)
    | 0 => ⟨⟨"a", rfl, nofun⟩, startBytes, rfl, .inr ⟨rfl, rfl⟩⟩
    | 1 => .inl rfl
    | 2 => trivial
    | n + 3 => by
      rw [label_session, state_session_of_wait (n := 3) rfl (Nat.le_add_left 3 n)]
      exact trivial
  refine (commands_answered_once (session tinyEnv [] false startCommand) faithful_tinyEnv
    turning_session hok (n := 0) rfl rfl).1 ⟨?_, rfl, rfl⟩
  rintro binCmd - ⟨hmapped, -⟩
  cases hmapped

/-- The loop keeps turning, and still nothing is ever printed: neither for a command that starts a
capture and that a slot of 64 KiB takes, nor for a command that ends a capture and that arrives on
stdin. -/
theorem commands_never_answered :
    (Turning (session tinyEnv (List.replicate 65536 0) true startCommand) ∧
      (init (List.replicate 65536 0)).ViaSlot true startBytes ∧
      (session tinyEnv (List.replicate 65536 0) true startCommand).label 0 =
        .handOver true startCommand ∧
      ∀ k, ((session tinyEnv (List.replicate 65536 0) true startCommand).state k).printed = []) ∧
    (Turning (session tinyEnv [] false stopCommand) ∧
      (session tinyEnv [] false stopCommand).label 0 = .handOver false stopCommand ∧
      ∀ k, ((session tinyEnv [] false stopCommand).state k).printed = []) := by
  have hslot : (init (List.replicate 65536 0)).ViaSlot true startBytes :=
    ⟨rfl, by rw [init, length_replicate]; decide, loadU32_replicate_zero (by omega)⟩
  refine ⟨⟨turning_session, hslot, rfl, ?_⟩, turning_session, rfl, ?_⟩
  · have hfirst : (session tinyEnv (List.replicate 65536 0) true startCommand).state 1 =
        { init (List.replicate 65536 0) with
          handed := [startCommand]
          slot := Ipc.stored (List.replicate 65536 0) none startBytes } :=
      (some.inj ((session _ _ true startCommand).next 0)).symm.trans (handOver_of_viaSlot rfl hslot)
    have hwait : (session tinyEnv (List.replicate 65536 0) true startCommand).label 1 = .wait := by
      rw [label_session, hfirst]
      rfl
    rintro (- | k)
    · rfl
    · rw [state_session_of_wait hwait (Nat.le_add_left 1 k), hfirst]
      rfl
  · rintro (- | - | - | k)
    iterate 3 rfl
    rw [state_session_of_wait (n := 3) rfl (Nat.le_add_left 3 k)]
    rfl

end Agent

end Netcap
