import CounterTerrorist.Foundations.Correlation
import CounterTerrorist.Sidecar.Manager

/-!
# Responses are matched to calls

The waiters of the manager are a correlation table: a call waits under its sidecar and id, a line is
a message whose key is the sidecar it came from and the id it carries. Every step of the manager is
a run of the table (`table_step`), so answers are matched in every run of the manager.

What a call returns is then a matter of the call alone. `Origin` says where the result of a written
command can come from: its timer, or the response that the table knows about.
-/

namespace Sidecar

open Core List Machine Option Call

/-! ### The table -/

/-- The key of a line: where it came from, and the id that it carries. -/
def lineKey (env : Env) (message : String × String) : Option (String × String) :=
  ((readLine env message.2).bind idOf).map fun id ↦ (message.1, id)

/-- The key of a call, once it has an id. -/
def Call.key (c : Call) : Option (String × String) :=
  c.stage.request.map fun q ↦ (c.name, q.id)

/-- The number of the line that the call was answered with. -/
def Call.answer (c : Call) : Option ℕ := (c.stage.request.bind Request.response).map Response.line

namespace Call

variable {c : Call} {q : Request}

theorem key_eq (hq : c.stage.request = some q) : c.key = some (c.name, q.id) := by
  rw [key, hq]
  rfl

theorem answer_eq (hq : c.stage.request = some q) : c.answer = q.response.map Response.line := by
  rw [answer, hq, bind_some]

@[simp] theorem key_expire (env : Env) : (c.expire env q).key = c.key := by
  simp [key, expire, Function.comp_def]

@[simp] theorem answer_expire (env : Env) : (c.expire env q).answer = c.answer := by
  rcases hq : c.stage.request with - | q' <;> simp [answer, expire, hq]

@[simp] theorem key_respond (r : Response) : (c.respond r).key = c.key := by
  rw [respond]
  split
  · rfl
  · simp [key, Function.comp_def]

theorem answer_respond (r : Response) (hkey : c.key.isSome) (hans : c.answer = none) :
    (c.respond r).answer = some r.line := by
  obtain ⟨k, hk⟩ := isSome_iff_exists.1 hkey
  obtain ⟨q, hq, -⟩ := map_eq_some_iff.1 hk
  have hnone : c.stage.request.bind Request.response = none := map_eq_none_iff.1 hans
  rw [respond, hnone]
  simp [answer, hq]

end Call

namespace SidecarManager

variable {env : Env} {s t : SidecarManager} {i : ℕ} {c c' : Call}

/-- The manager as a table. -/
def table (s : SidecarManager) : Correlation.Table ℕ (String × String) (String × String) where
  keyOf i := s.calls[i]?.bind Call.key
  pending := s.responseWaiters
  answer i := s.calls[i]?.bind Call.answer
  received := s.received

section

variable {β : Type} (hc : s.calls[i]? = some c)
include hc

/-- Looking something up in the calls, after one of them has changed. -/
theorem lookup_set (f : Call → Option β) : (fun j : ℕ ↦ (s.calls.set i c')[j]?.bind f) =
      Function.update (fun j ↦ s.calls[j]?.bind f) i (f c') := by
  have hlt : i < s.calls.length := (List.getElem?_eq_some_iff.1 hc).1
  funext j
  rw [Function.update_apply, getElem?_set]
  by_cases heq : j = i
  · subst heq
    simp [hlt]
  · rw [if_neg (Ne.symm heq), if_neg heq]

theorem lookup_set_of_eq {f : Call → Option β} (hf : f c' = f c) :
    (fun j : ℕ ↦ (s.calls.set i c')[j]?.bind f) = fun j ↦ s.calls[j]?.bind f := by
  rw [lookup_set hc f, hf, Function.update_eq_self_iff, hc, bind_some]

theorem keyOf_eq : s.table.keyOf i = c.key := by
  show s.calls[i]?.bind _ = _
  rw [hc, bind_some]

theorem answer_eq : s.table.answer i = c.answer := by
  show s.calls[i]?.bind _ = _
  rw [hc, bind_some]

/-- A change that the table does not see. -/
theorem table_put (hkey : c'.key = c.key) (hans : c'.answer = c.answer) :
    (s.put i c').table = s.table := by
  simp only [table, put, lookup_set_of_eq hc hkey, lookup_set_of_eq hc hans]

/-- A call goes on with the request it had. -/
theorem table_put_stage {stage : Stage} (hreq : stage.request = c.stage.request) :
    (s.put i { c with stage := stage }).table = s.table := by
  refine table_put hc ?_ ?_
  · rw [key, hreq]
    rfl
  · rw [answer, hreq]
    rfl

/-- A call ends, and its waiter goes. -/
theorem table_leave {q : Request} (hq : c.stage.request = some q) (written : Bool)
    (outcome : Outcome) :
    (s.leave i c q written outcome).table = s.table.forget (c.name, q.id) := by
  have hput : (s.put i (c.leave q written outcome)).table = s.table :=
    table_put hc (Call.key_eq hq).symm (Call.answer_eq hq).symm
  rw [← hput]
  rfl

/-- A call gets its id and waits. -/
theorem table_enqueue (hst : c.stage = .spawning) (id : String) :
    (s.enqueue i c id).table = s.table.register i (c.name, id) := by
  have hans : none = c.answer := by rw [answer, hst]; rfl
  simp only [table, enqueue, put, addWaiter]
  rw [lookup_set hc key, lookup_set_of_eq hc hans]
  rfl

end

/-- A new call that has no id yet. -/
theorem table_append (s : SidecarManager) (hkey : c.key = none) (hans : c.answer = none) :
    table { s with calls := s.calls ++ [c] } = s.table := by
  have hlook {β : Type} {f : Call → Option β} (hf : f c = none) :
      (fun j : ℕ ↦ (s.calls ++ [c])[j]?.bind f) = fun j ↦ s.calls[j]?.bind f := by
    funext j
    rw [getElem?_append]
    split
    · rfl
    · rename_i hge
      rw [getElem?_eq_none (Nat.le_of_not_lt hge), getElem?_singleton]
      split
      · exact hf
      · rfl
  simp only [table, hlook hkey, hlook hans]

theorem table_sendCommand (s : SidecarManager) (name : String) (cmd : Command) (now : ℤ) :
    (s.sendCommand name cmd now).table = s.table := by
  obtain ⟨breakers, stage, heq, hst⟩ := s.sendCommand_eq name cmd now
  have hreq : stage.request = none := by
    rcases hst with rfl | ⟨r, rfl⟩ <;> rfl
  rw [heq]
  exact table_append s (by rw [key, hreq]; rfl) (by rw [answer, hreq]; rfl)

/-- A line is a message. -/
theorem table_handleIpcLine (h : s.table.Matched (lineKey env)) (name text : String) :
    (s.handleIpcLine env name text).table = s.table.receive (lineKey env) (name, text) := by
  rw [handleIpcLine, Correlation.Table.receive, lineKey]
  rcases hdata : readLine env text with - | data
  · rfl
  rcases hid : idOf data with - | id
  · simp only [hid, bind_some]
    rfl
  have hpend : s.table.pending (name, id) = s.responseWaiters (name, id) := rfl
  simp only [hid, bind_some, map_some, hpend]
  rcases hi : s.responseWaiters (name, id) with - | i
  · rfl
  -- whoever waits has this key and no answer yet
  obtain ⟨hkey, hans⟩ := h.waits (name, id) i hi
  obtain ⟨c, hc, hckey⟩ := bind_eq_some_iff.1 hkey
  rw [answer_eq hc] at hans
  have hset : s.calls.modify i (fun c ↦ c.respond ⟨resultOf data, s.received.length⟩) =
      s.calls.set i (c.respond ⟨resultOf data, s.received.length⟩) := by
    rw [modify_eq_set_getElem?, hc]
    rfl
  have hanswered := answer_respond (c := c) ⟨resultOf data, s.received.length⟩
    (by rw [hckey]; rfl) hans
  simp only [table, removeWaiter, hset]
  rw [lookup_set hc answer, hanswered, lookup_set_of_eq hc (c.key_respond _)]
  rfl

/-- Every step of the manager is a run of its table. -/
theorem table_step {a : Action} (h : s.table.Matched (lineKey env))
    (hstep : s.step env a = some t) :
    ∃ as, run (Correlation.Table.step (lineKey env)) s.table as = some t.table := by
  have hsame (h : t.table = s.table) :
      ∃ as, run (Correlation.Table.step (lineKey env)) s.table as = some t.table :=
    ⟨[], congrArg some h.symm⟩
  have hforget {k : String × String} (h : t.table = s.table.forget k) :
      ∃ as, run (Correlation.Table.step (lineKey env)) s.table as = some t.table :=
    ⟨[.forget k], congrArg some h.symm⟩
  cases a with
  | sendCommand name cmd now =>
    obtain rfl := some.inj hstep
    exact hsame (s.table_sendCommand name cmd now)
  | timeout i =>
    obtain ⟨c, q, hc, -, rfl⟩ := exists_of_fire hstep
    have hput : (s.put i (c.expire env q)).table = s.table :=
      table_put hc (key_expire env) (answer_expire env)
    refine hforget (k := (c.name, q.id)) ?_
    rw [← hput]
    rfl
  | line name text =>
    obtain rfl := some.inj hstep
    exact ⟨[.receive (name, text)], congrArg some (table_handleIpcLine h name text).symm⟩
  | resume i reply =>
    obtain ⟨c, hc, hres⟩ := resumed_of_resume hstep
    cases hres with
    | gaveUp outcome hst hfails | entered hst hfree | wroteSlot hst hfree hname
    | wrote hst | reported now hst => exact hsame (table_put_stage hc (by rw [hst]; rfl))
    | enqueued id hst hvalid =>
      have hkey : s.table.keyOf i = none := by rw [keyOf_eq hc, key, hst]; rfl
      refine ⟨[.register i (c.name, id)], ?_⟩
      rw [run, Correlation.Table.step, if_pos hkey, table_enqueue hc hst]
      rfl
    | threwEarly message hst hfree | threw message hst | settled hst =>
      exact hforget (table_leave hc (by rw [hst]; rfl) ..)

end SidecarManager

/-! ### Where results come from -/

/-- A result of a call: that of its timer, or that of its response. -/
def Origin (env : Env) (name : String) (q : Option Request) (v : CommandResult) : Prop :=
  ∃ q', q = some q' ∧
    (v = env.timeoutResult name q'.type ∨ ∃ r, q'.response = some r ∧ r.result = v)

/-- Once the command has been written, a call decides for one of its own results. -/
def Stage.Justified (env : Env) (name : String) : Stage → Prop
  | racing q race => ∀ v, race = some v → Origin env name (some q) v
  | returned q written outcome => written = true →
    ∃ v, outcome = .result v ∧ Origin env name q v
  | done q written result => written = true →
    ∃ v, result = env.report (.result v) ∧ Origin env name q v
  | _ => True

/-- The value of a response is what its line says. -/
def FromLine (env : Env) (received : List (String × String)) (r : Response) : Prop :=
  ∃ m data, received[r.line]? = some m ∧ readLine env m.2 = some data ∧ r.result = resultOf data

/-- What holds of every call. -/
structure CallOk (env : Env) (received : List (String × String)) (c : Call) : Prop where
  response : ∀ q r, c.stage.request = some q → q.response = some r → FromLine env received r
  justified : c.stage.Justified env c.name

section

variable {env : Env} {name : String} {received : List (String × String)} {c : Call} {q : Request}
  {v : CommandResult} {stage : Stage}

/-- The promises of a request only gain values. -/
def Extends (q q' : Request) : Prop :=
  q'.type = q.type ∧ ∀ r, q.response = some r → q'.response = some r

variable {f : Request → Request}

theorem Origin.map {q : Option Request} (h : Origin env name q v)
    (hf : ∀ q', q = some q' → Extends q' (f q')) : Origin env name (q.map f) v := by
  obtain ⟨q', rfl, hv⟩ := h
  obtain ⟨htype, hresp⟩ := hf q' rfl
  refine ⟨f q', rfl, ?_⟩
  rcases hv with hv | ⟨r, hr, hv⟩
  · exact .inl (by rw [htype, hv])
  · exact .inr ⟨r, hresp r hr, hv⟩

theorem Stage.Justified.modify (h : stage.Justified env name)
    (hf : ∀ q, stage.request = some q → Extends q (f q)) : (stage.modify f).Justified env name := by
  cases stage with
  | spawning | queued q prevLock | writing q => trivial
  | racing q race => exact fun v hv ↦ (h v hv).map hf
  | returned q written outcome | done q written result =>
    intro hwritten
    obtain ⟨v, hv, horig⟩ := h hwritten
    exact ⟨v, hv, horig.map hf⟩

theorem Stage.Justified.settle (h : stage.Justified env name)
    (hv : ∀ q, stage.request = some q → Origin env name (some q) v) :
    (stage.settle v).Justified env name := by
  cases stage with
  | racing q race =>
    intro w hw
    rcases race with - | w'
    · obtain rfl := some.inj hw
      exact hv q rfl
    · exact h w hw
  | _ => exact h

section

variable (h : CallOk env received c)
include h

theorem CallOk.mono {later : List (String × String)}
    (hinit : received <+: later) : CallOk env later c := by
  refine ⟨fun q r hq hr ↦ ?_, h.justified⟩
  obtain ⟨m, data, hm, hdata, hres⟩ := h.response q r hq hr
  obtain ⟨rest, rfl⟩ := hinit
  have hlt : r.line < received.length := (List.getElem?_eq_some_iff.1 hm).1
  exact ⟨m, data, (getElem?_append_left hlt).trans hm, hdata, hres⟩

theorem CallOk.respond {r : Response} (hr : FromLine env received r) :
    CallOk env received (c.respond r) := by
  rw [Call.respond]
  split
  · exact h
  · rename_i hnone
    have hextends (q : Request) (hq : c.stage.request = some q) :
        Extends q { q with response := some r } := by
      refine ⟨rfl, fun r' hr' ↦ absurd ?_ hnone⟩
      rw [hq, bind_some, hr']
      rfl
    refine ⟨fun q' r' hq' hr' ↦ ?_, (h.justified.modify hextends).settle fun q' hq' ↦ ?_⟩
    · rw [Stage.request_settle, Stage.request_modify] at hq'
      obtain ⟨q, -, rfl⟩ := map_eq_some_iff.1 hq'
      obtain rfl := some.inj hr'
      exact hr
    · rw [Stage.request_modify] at hq'
      obtain ⟨q, -, rfl⟩ := map_eq_some_iff.1 hq'
      exact ⟨_, rfl, .inr ⟨r, rfl, rfl⟩⟩

theorem CallOk.expire (hq : c.stage.request = some q) : CallOk env received (c.expire env q) := by
  have hextends (q : Request) (_ : c.stage.request = some q) :
      Extends q { q with timedOut := true, armed := false } := ⟨rfl, fun _ hr ↦ hr⟩
  refine ⟨fun q' r hq' hr ↦ ?_, (h.justified.modify hextends).settle fun q' hq' ↦ ?_⟩
  · rw [Call.expire, Stage.request_settle, Stage.request_modify, hq] at hq'
    obtain rfl := some.inj hq'
    exact h.response q r hq hr
  · rw [Stage.request_modify, hq] at hq'
    obtain rfl := some.inj hq'
    exact ⟨_, rfl, .inl rfl⟩

/-- A call goes on with the request it had. -/
theorem CallOk.of_request {stage : Stage} (hreq : ∀ q, stage.request = some q →
      ∃ q', c.stage.request = some q' ∧ q.response = q'.response)
    (hjust : stage.Justified env c.name) :
    CallOk env received { c with stage := stage } := by
  refine ⟨fun q r hq hr ↦ ?_, hjust⟩
  obtain ⟨q', hq', heq⟩ := hreq q hq
  exact h.response q' r hq' (heq ▸ hr)

end

theorem justified_startRace (env : Env) (c : Call) (q : Request) :
    (c.startRace env q).stage.Justified env c.name := by
  intro v hv
  refine ⟨q, rfl, ?_⟩
  rcases hr : q.response with - | r
  · rw [hr] at hv
    obtain ⟨-, hv⟩ := ite_none_right_eq_some.1 hv
    exact .inl (some.inj hv).symm
  · rw [hr] at hv
    exact .inr ⟨r, rfl, some.inj hv⟩

end

namespace SidecarManager

variable {env : Env} {s t : SidecarManager} {i : ℕ} {c : Call}

/-- Every call is in order. -/
def CallsOk (env : Env) (s : SidecarManager) : Prop := ∀ c ∈ s.calls, CallOk env s.received c

section

variable (h : CallsOk env s)
include h

theorem CallsOk.put {c' : Call} (hc' : CallOk env s.received c') (i : ℕ) :
    CallsOk env (s.put i c') := by
  intro c hc
  rcases mem_or_eq_of_mem_set hc with hc | rfl
  · exact h c hc
  · exact hc'

/-- A call that goes on stays in order. -/
theorem CallsOk.resumed (hc : s.calls[i]? = some c)
    (hres : Resumed env s i c t) : CallsOk env t := by
  have hok := h c (mem_of_getElem? hc)
  have hleave {q : Request} {written : Bool} {outcome : Outcome} (hq : c.stage.request = some q)
      (hjust : (c.leave q written outcome).stage.Justified env c.name) :
      CallOk env s.received (c.leave q written outcome) := by
    refine hok.of_request (fun q' hq' ↦ ⟨q, hq, ?_⟩) hjust
    obtain rfl := some.inj hq'
    rfl
  have hrace {q : Request} (hq : c.stage.request = some q) :
      CallOk env s.received (c.startRace env q) :=
    hok.of_request (fun q' hq' ↦ ⟨q', hq.trans hq', rfl⟩) (justified_startRace env c q)
  cases hres with
  | gaveUp outcome hst hfails =>
    have hnew : CallOk env s.received { c with stage := .returned none false outcome } :=
      ⟨nofun, nofun⟩
    exact h.put hnew i
  | enqueued id hst hvalid =>
    let q : Request := ⟨id, (c.cmd.withId id).get "type", none, false, true⟩
    have hnew : CallOk env s.received { c with stage := .queued q (s.stdinLocks c.name) } := by
      refine ⟨fun q' r hq' hr ↦ ?_, trivial⟩
      obtain rfl := some.inj hq'
      cases hr
    exact h.put hnew i
  | @entered q prevLock hst hfree =>
    have hnew : CallOk env s.received { c with stage := .writing q } :=
      hok.of_request (fun q' hq' ↦ ⟨q', by rw [hst]; exact hq', rfl⟩) trivial
    exact h.put hnew i
  | wroteSlot hst hfree hname | wrote hst => exact h.put (hrace (by rw [hst]; rfl)) i
  | threwEarly message hst hfree | threw message hst =>
    exact h.put (hleave (by rw [hst]; rfl) fun hwritten ↦ by cases hwritten) i
  | @settled q r hst =>
    have hjust := hok.justified
    rw [hst] at hjust
    refine h.put (hleave (by rw [hst]; rfl) fun _ ↦ ⟨r, rfl, ?_⟩) i
    exact (hjust r rfl).map (f := fun q ↦ { q with armed := false })
      fun _ _ ↦ ⟨rfl, fun _ hr ↦ hr⟩
  | @reported q written outcome now hst =>
    have hjust := hok.justified
    rw [hst] at hjust
    have hnew : CallOk env s.received { c with stage := .done q written (env.report outcome) } := by
      refine hok.of_request (fun q' hq' ↦ ⟨q', by rw [hst]; exact hq', rfl⟩) fun hwritten ↦ ?_
      obtain ⟨v, rfl, horig⟩ := hjust hwritten
      exact ⟨v, rfl, horig⟩
    exact h.put hnew i

/-- A line keeps all calls in order. -/
theorem CallsOk.handleIpcLine (name text : String) :
    CallsOk env (s.handleIpcLine env name text) := by
  have hkept : ∀ c ∈ s.calls, CallOk env (s.received ++ [(name, text)]) c :=
    fun c hc ↦ (h c hc).mono (prefix_append _ _)
  have hrecv : (s.handleIpcLine env name text).received = s.received ++ [(name, text)] := by
    obtain ⟨calls, waiters, heq, -⟩ := handleIpcLine_eq env s name text
    rw [heq]
  rw [CallsOk, hrecv]
  refine forall_handleIpcLine hkept fun data hdata c hc ↦ hc.respond ?_
  exact ⟨(name, text), data, getElem?_concat_length, hdata, rfl⟩

/-- Every step keeps all calls in order. -/
theorem CallsOk.step {a : Action} (hstep : s.step env a = some t) : CallsOk env t := by
  cases a with
  | sendCommand name cmd now =>
    obtain ⟨breakers, stage, heq, hst⟩ := s.sendCommand_eq name cmd now
    obtain rfl := some.inj hstep
    rw [heq]
    intro c hc
    rcases mem_append.1 hc with hc | hc
    · exact h c hc
    · obtain rfl := mem_singleton.1 hc
      refine ⟨fun q r hq ↦ ?_, ?_⟩
      · rcases hst with rfl | ⟨r, rfl⟩ <;> cases hq
      · rcases hst with rfl | ⟨r, rfl⟩
        · trivial
        · exact nofun
  | resume i reply =>
    obtain ⟨c, hc, hres⟩ := resumed_of_resume hstep
    exact h.resumed hc hres
  | timeout i =>
    obtain ⟨c, q, hc, hq, rfl⟩ := exists_of_fire hstep
    exact h.put ((h c (mem_of_getElem? hc)).expire hq) i
  | line name text =>
    obtain rfl := some.inj hstep
    exact h.handleIpcLine name text

end

/-! ### Responses are matched -/

/-- In every run the answers are matched and all calls are in order. -/
theorem run_matched {as : List Action} (hrun : run (step env) init as = some t) :
    t.table.Matched (lineKey env) ∧ CallsOk env t := by
  refine run_invariant' (P := fun s ↦ s.table.Matched (lineKey env) ∧ CallsOk env s)
    (fun {s a t} ⟨hmatched, hok⟩ hstep ↦ ?_) ⟨?_, fun c hc ↦ by cases hc⟩ hrun
  · obtain ⟨bs, hbs⟩ := table_step hmatched hstep
    exact ⟨Correlation.Table.run_matched hmatched hbs, hok.step hstep⟩
  · exact Correlation.Table.matched_empty

/-- Line `n` answers the call: it came from the sidecar of that name, it carries exactly the id that
was generated for the call, and this is the result it stands for. -/
def AnsweredBy (env : Env) (s : SidecarManager) (c : Call) (n : ℕ) (v : CommandResult) : Prop :=
  ∃ text data id, s.received[n]? = some (c.name, text) ∧ readLine env text = some data ∧
    data.get "id" = .str id ∧ c.stage.request.map Request.id = some id ∧ v = resultOf data

theorem get_id_of_idOf {data : JsTree} {id : String} (h : idOf data = some id) :
    data.get "id" = .str id := by
  rw [idOf] at h
  split at h
  · rename_i id' heq
    obtain ⟨-, h⟩ := ite_none_left_eq_some.1 h
    rw [heq, some.inj h]
  · cases h

/-- The response of a call came with a line that answers it. -/
theorem answeredBy_of_response (hmatched : s.table.Matched (lineKey env))
    (hok : CallOk env s.received c) (hc : s.calls[i]? = some c) {q : Request}
    (hq : c.stage.request = some q) {r : Response} (hr : q.response = some r) :
    c.answer = some r.line ∧ AnsweredBy env s c r.line r.result := by
  have hans : c.answer = some r.line := by rw [Call.answer_eq hq, hr]; rfl
  refine ⟨hans, ?_⟩
  obtain ⟨m, data, hm, hdata, hres⟩ := hok.response q r hq hr
  -- the table has the same line, with the key of the call
  obtain ⟨m', k, hm', hkey, hown⟩ := hmatched.own i r.line ((answer_eq hc).trans hans)
  obtain rfl : m' = m := some.inj (hm'.symm.trans hm)
  rw [keyOf_eq hc, Call.key_eq hq] at hown
  obtain rfl := some.inj hown
  obtain ⟨id, hid, hpair⟩ := map_eq_some_iff.1 hkey
  rw [hdata] at hid
  obtain ⟨hname, rfl⟩ := Prod.mk.inj hpair
  exact ⟨m'.2, data, q.id, hname ▸ hm, hdata, get_id_of_idOf hid, by rw [hq]; rfl, hres⟩

/-- For every run of calls and lines: a call that returns after its command was written returns what
`sendCommand` makes of its own timeout or of a line that answers it; and no line resolves two
calls. -/
theorem responses_matched {as : List Action} (hrun : Machine.run (step env) init as = some t) :
    (∀ (i : ℕ) (c : Call) (q : Option Request) (r : CommandResult), t.calls[i]? = some c →
      c.stage = .done q true r →
      ∃ v, r = env.report (.result v) ∧
        ((∃ q', q = some q' ∧ v = env.timeoutResult c.name q'.type) ∨
          ∃ n, c.answer = some n ∧ AnsweredBy env t c n v)) ∧
    (∀ (i j : ℕ) (c d : Call) (n : ℕ), t.calls[i]? = some c → t.calls[j]? = some d →
      c.answer = some n → d.answer = some n → i = j) := by
  obtain ⟨hmatched, hok⟩ := run_matched hrun
  refine ⟨fun i c q r hc hstage ↦ ?_, fun i j c d n hc hd hn hn' ↦ ?_⟩
  · have hcall := hok c (mem_of_getElem? hc)
    have hjustified := hcall.justified
    rw [hstage] at hjustified
    obtain ⟨v, hv, q', rfl, htimeout | ⟨response, hresponse, rfl⟩⟩ := hjustified rfl
    · exact ⟨v, hv, .inl ⟨q', rfl, htimeout⟩⟩
    · have hrequest : c.stage.request = some q' := by rw [hstage]; rfl
      exact ⟨_, hv, .inr ⟨_, answeredBy_of_response hmatched hcall hc hrequest hresponse⟩⟩
  · exact hmatched.once i j n ((answer_eq hc).trans hn) ((answer_eq hd).trans hn')

/-! ### A run -/

/-- A manager for lines that are ids and nothing else. -/
def echoEnv : Env where
  secrets := []
  parse line := some (.obj [("id", .str line), ("success", .bool true)])
  validateRequest _ _ := true
  coerceString _ := ""

/-- Two calls to one sidecar and one to another. The first one is answered while the second waits
for the lock; a line with its id from the other sidecar, and a second one from its own, find nobody.
The second one runs into its timeout. -/
def crossTalk : List Action :=
  [.sendCommand "netcap" (.text "GetStatus") 0, .sendCommand "netcap" (.text "StopCapture") 0,
    .sendCommand "decoy" (.text "GetStatus") 0,
    .resume 0 (.sidecar "u0"), .resume 1 (.sidecar "u1"), .resume 2 (.sidecar "u2"),
    .line "decoy" "u0", .resume 0 (.locked none true), .line "netcap" "u0", .line "netcap" "u0",
    .resume 0 .settled, .resume 0 (.reported 1),
    .resume 1 (.locked none false), .resume 1 .wrote, .line "netcap" "u2", .timeout 1,
    .line "netcap" "u1", .resume 1 .settled, .resume 1 (.reported 2)]

theorem responses_matched_crossTalk :
    ∃ t c q r v, Machine.run (step echoEnv) init crossTalk = some t ∧ t.calls[0]? = some c ∧
      c.stage = .done q true r ∧ c.answer = some 1 ∧ AnsweredBy echoEnv t c 1 v := by
  obtain ⟨t, c, q, r, hrun, hc, hstage, hanswer, hsuccess⟩ :
      ∃ t c q r, run (step echoEnv) init crossTalk = some t ∧ t.calls[0]? = some c ∧
        c.stage = .done q true r ∧ c.answer = some 1 ∧ r.success = true :=
    ⟨_, _, _, _, rfl, rfl, rfl, rfl, rfl⟩
  obtain ⟨v, rfl, ⟨q', -, rfl⟩ | ⟨n, hn, hby⟩⟩ := (responses_matched hrun).1 0 c q r hc hstage
  · -- a timeout is no success
    cases hsuccess
  · obtain rfl : n = 1 := some.inj (hn.symm.trans hanswer)
    exact ⟨t, c, q, _, v, hrun, hc, hstage, hanswer, hby⟩

end SidecarManager

end Sidecar
