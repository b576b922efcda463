import CounterTerrorist.Mesh.Consensus

/-!
# Whose votes make a quorum

An approval counts if its signature is valid. What was signed is not compared with the request: a
payload that a node has signed at any time, for whatever reason, is a vote for everything. So an
answer `true` means that enough nodes have signed something (`canPass_of_run`). It means that enough
nodes have signed this request if all approvals are about it (`quorum_signed`); and an approval that
is not about it is counted, too.

## The proof

Along every run the list in the store has only this node and nodes with approvals, without
repetitions, and the counter has the approvals of the tasks that are done (`QuorumCall.Inv`).
-/

namespace Mesh

open Core List Machine Option QuorumState

namespace QuorumCall

variable (c : QuorumCall)

/-! ### Votes -/

/-- The reply of a node counts as an approval. -/
def approves (p : Peer) : Bool :=
  match afterReply p.reply with
  | .verifying payload signature => c.isValid p.node payload signature
  | _ => false

/-- The nodes whose replies count. -/
def approvers : Finset String :=
  ((c.verifiedNodes.filter c.approves).map (·.node.id)).toFinset

/-- A payload is about this request. -/
def names (payload : JsTree) : Bool :=
  (payload.get "sagaId").isStr c.sagaId && (payload.get "action").isStr c.action

/-- A node has returned a validly signed payload that is about this request. -/
def signedFor (p : Peer) : Bool :=
  match p.reply with
  | none => false
  | some res =>
    match res.get "signature" with
    | .str signature =>
      c.isValid p.node (res.get "payload") signature && c.names (res.get "payload")
    | _ => false

/-- The nodes that have done so. -/
def signers : Finset String :=
  ((c.verifiedNodes.filter c.signedFor).map (·.node.id)).toFinset

/-- The replies can make a quorum. With a store, nodes are counted by their ids, together with this
one. Without one, replies are counted. A store that lacks some of its functions never gets there. -/
def CanPass : Prop :=
  (c.mesh.signPayload c.env c.requestPayload).isOk = true ∧
    if c.has (·.watch) = true then
      c.has (·.set) = true ∧ c.has (·.atomic) = true ∧
        c.threshold ≤ (insert c.mesh.nodeId c.approvers).card
    else c.has (·.atomic) = false ∧ c.threshold ≤ 1 + c.verifiedNodes.countP c.approves

/-- Every approval that counts is about this request; where replies are counted and not nodes, no
two of them come under one id. -/
structure OwnVotes : Prop where
  about : ∀ p ∈ c.verifiedNodes, c.approves p = true → c.signedFor p = true
  distinct : c.has (·.atomic) = false →
    ((c.verifiedNodes.filter c.approves).map (·.node.id)).Nodup

/-- The approval of a node is on the list in the store, or in the counter. -/
def Counted (p : Peer) (s : QuorumState) : Prop :=
  if c.has (·.atomic) = true then ∃ saga, s.saga = some saga ∧ p.node.id ∈ saga.approvals
  else s.approvals = 2

/-! ### What a step does -/

/-- What a task can do: where it goes, and what becomes of the rest. -/
inductive TaskStep (s : QuorumState) (task : PeerTask) : Stage → QuorumState → Prop
  | replied (h : task.stage = .asking) : TaskStep s task (afterReply task.peer.reply) s
  | refused {payload : JsTree} {signature : String} (h : task.stage = .verifying payload signature)
      (hvalid : c.isValid task.peer.node payload signature = false) : TaskStep s task .done s
  | verified {payload : JsTree} {signature : String}
      (h : task.stage = .verifying payload signature)
      (hvalid : c.isValid task.peer.node payload signature = true)
      (hatomic : c.has (·.atomic) = true) : TaskStep s task (.reading 0) s
  | counted {payload : JsTree} {signature : String} (h : task.stage = .verifying payload signature)
      (hvalid : c.isValid task.peer.node payload signature = true)
      (hatomic : c.has (·.atomic) = false) :
      TaskStep s task .done { s with approvals := s.approvals + 1 }
  | read {attempts : ℕ} {saga : ConsensusSaga} (h : task.stage = .reading attempts)
      (hsaga : s.saga = some saga) : TaskStep s task (.writing attempts saga s.version) s
  | written {attempts : ℕ} {saga : ConsensusSaga}
      (h : task.stage = .writing attempts saga s.version) :
      TaskStep s task .done
        { s with
          saga := some (c.withApproval saga task.peer.node.id)
          version := s.version + 1 }
  | again {attempts version : ℕ} {saga : ConsensusSaga}
      (h : task.stage = .writing attempts saga version) :
      TaskStep s task (.reading (attempts + 1)) s
  | stopped (h : (∃ attempts, task.stage = .reading attempts) ∨
      ∃ attempts saga version, task.stage = .writing attempts saga version) :
      TaskStep s task .done s

/-- The answer: that of the tasks, that of the watcher, or that time is over. -/
inductive Answers (s : QuorumState) : Bool → Prop
  | joined (hwatch : c.has (·.watch) = false)
      (hdone : s.tasks.all (·.stage.isDone) = true) :
      Answers s (decide (c.threshold ≤ s.approvals))
  | watched {saga : ConsensusSaga} (hwatch : c.has (·.watch) = true) (hsaga : s.saga = some saga)
      (hstatus : saga.status = .approved) : Answers s true
  | stopped : Answers s false

/-- **A task moves, or the caller gets an answer, or nothing happens.** -/
theorem step_cases {s t : QuorumState} {a : QuorumLabel} (h : c.step s a = some t) :
    (∃ i task stage s', s.tasks[i]? = some task ∧ c.TaskStep s task stage s' ∧
      t = s'.advance i task.peer stage) ∨
    (∃ approved, s.outcome = .waiting ∧ c.Answers s approved ∧
      t = { s with outcome := .returned approved }) ∨ t = s := by
  cases a with
  | reply i =>
    obtain ⟨task, hi, h⟩ := bind_eq_some_iff.1 h
    split at h
    · rename_i hst
      exact .inl ⟨i, task, _, s, hi, .replied hst, (some.inj h).symm⟩
    · cases h
  | verify i =>
    obtain ⟨task, hi, h⟩ := bind_eq_some_iff.1 h
    refine .inl ⟨i, task, ?_⟩
    split at h
    · rename_i hst
      split_ifs at h with hvalid hatomic
      · exact ⟨_, s, hi, .verified hst hvalid hatomic, (some.inj h).symm⟩
      · exact ⟨_, _, hi, .counted hst hvalid (Bool.not_eq_true _ ▸ hatomic),
          (some.inj h).symm⟩
      · exact ⟨_, s, hi, .refused hst (Bool.not_eq_true _ ▸ hvalid), (some.inj h).symm⟩
    · cases h
  | get i =>
    obtain ⟨task, hi, h⟩ := bind_eq_some_iff.1 h
    refine .inl ⟨i, task, ?_⟩
    split at h
    · rename_i attempts hst
      split at h
      · rename_i saga hsaga
        split_ifs at h
        · exact ⟨_, s, hi, .read hst hsaga, (some.inj h).symm⟩
        · exact ⟨_, s, hi, .stopped (.inl ⟨_, hst⟩), (some.inj h).symm⟩
      · exact ⟨_, s, hi, .stopped (.inl ⟨_, hst⟩), (some.inj h).symm⟩
    · cases h
  | commit i =>
    obtain ⟨task, hi, h⟩ := bind_eq_some_iff.1 h
    refine .inl ⟨i, task, ?_⟩
    split at h
    · rename_i attempts saga version hst
      split_ifs at h with hver
      · exact ⟨_, _, hi, .written (hver ▸ hst), (some.inj h).symm⟩
      · exact ⟨_, s, hi, .again hst, (some.inj h).symm⟩
      · exact ⟨_, s, hi, .stopped (.inr ⟨_, _, _, hst⟩), (some.inj h).symm⟩
    · cases h
  | fail i =>
    obtain ⟨task, hi, h⟩ := bind_eq_some_iff.1 h
    refine .inl ⟨i, task, ?_⟩
    split at h
    · rename_i hst
      exact ⟨_, s, hi, .stopped (.inl ⟨_, hst⟩), (some.inj h).symm⟩
    · rename_i hst
      exact ⟨_, s, hi, .stopped (.inr ⟨_, _, _, hst⟩), (some.inj h).symm⟩
    · cases h
  | join =>
    rw [step] at h
    split_ifs at h with hjoin
    exact .inr (.inl ⟨_, hjoin.2.1, .joined hjoin.1 hjoin.2.2, (some.inj h).symm⟩)
  | watch =>
    rw [step] at h
    split_ifs at h with hwatch
    split at h
    · rename_i hsaga
      exact .inr (.inl ⟨_, hwatch.2, .watched hwatch.1 hsaga rfl, (some.inj h).symm⟩)
    · exact .inr (.inl ⟨_, hwatch.2, .stopped, (some.inj h).symm⟩)
    · exact .inr (.inr (some.inj h).symm)
  | watchFail | timeout =>
    rw [step] at h
    split_ifs at h with hwatch
    exact .inr (.inl ⟨_, hwatch.2, .stopped, (some.inj h).symm⟩)

/-! ### What holds all the time -/

/-- What the store says is right. -/
structure SagaSound (saga : ConsensusSaga) : Prop where
  stored : c.has (·.set) = true
  nodup : saga.approvals.Nodup
  approvals : ∀ id ∈ saga.approvals, id ∈ insert c.mesh.nodeId c.approvers
  approved : saga.status = .approved →
    c.has (·.atomic) = true ∧ c.threshold ≤ saga.approvals.length

/-- A task is where its reply has led it. -/
def TaskSound (task : PeerTask) : Prop :=
  match task.stage with
  | .asking | .done => True
  | .verifying payload signature => afterReply task.peer.reply = .verifying payload signature
  | .reading _ => c.approves task.peer = true ∧ c.has (·.atomic) = true
  | .writing _ saga _ =>
    c.approves task.peer = true ∧ c.has (·.atomic) = true ∧ c.SagaSound saga

/-- The tasks that are done and had an approval. -/
def counted (s : QuorumState) : ℕ :=
  s.tasks.countP fun task ↦ task.stage.isDone && c.approves task.peer

structure Inv (s : QuorumState) : Prop where
  signed : (c.mesh.signPayload c.env c.requestPayload).isOk = true
  peers : s.tasks.map PeerTask.peer = c.verifiedNodes
  tasks : ∀ task ∈ s.tasks, c.TaskSound task
  saga : ∀ saga, s.saga = some saga → c.SagaSound saga
  counter : s.approvals = 1 + if c.has (·.atomic) = true then 0 else c.counted s
  outcome : s.outcome = .returned true → c.CanPass

variable {c} {s t : QuorumState} {i : ℕ} {task : PeerTask} {stage : Stage}

theorem afterReply_cases (reply : Option JsTree) : afterReply reply = .done ∨
      ∃ payload signature, afterReply reply = .verifying payload signature := by
  unfold afterReply
  split
  · exact .inl rfl
  · split
    · split
      · exact .inr ⟨_, _, rfl⟩
      · exact .inl rfl
    · exact .inl rfl

variable {p : Peer} {saga : ConsensusSaga} {seen : Finset String}

theorem approves_eq {payload : JsTree} {signature : String}
    (h : afterReply p.reply = .verifying payload signature) :
    c.approves p = c.isValid p.node payload signature := by
  rw [approves, h]

theorem counted_advance (hi : s.tasks[i]? = some task) (hst : task.stage.isDone = false) :
    c.counted (s.advance i task.peer stage) =
      c.counted s + if (stage.isDone && c.approves task.peer) = true then 1 else 0 := by
  obtain ⟨hlt, rfl⟩ := List.getElem?_eq_some_iff.1 hi
  rw [counted, advance, countP_set hlt, hst]
  rfl

section

variable (h : c.Inv s) (hi : s.tasks[i]? = some task)
include h hi

/-- A task moves on, and the counter may change. -/
theorem Inv.advance {n : ℕ} (hsound : c.TaskSound ⟨task.peer, stage⟩)
    (hcnt : n = 1 + if c.has (·.atomic) = true then 0
      else c.counted (s.advance i task.peer stage)) :
    c.Inv { s.advance i task.peer stage with approvals := n } where
  signed := h.signed
  peers := by
    obtain ⟨hlt, rfl⟩ := List.getElem?_eq_some_iff.1 hi
    have hmap : i < (s.tasks.map PeerTask.peer).length := (length_map _).symm ▸ hlt
    rw [advance, map_set, ← getElem_map PeerTask.peer (h := hmap), set_getElem_self, h.peers]
  tasks := by
    intro task' htask'
    rcases mem_or_eq_of_mem_set htask' with hmem | rfl
    · exact h.tasks task' hmem
    · exact hsound
  saga := h.saga
  counter := hcnt
  outcome := h.outcome

/-- A task moves on, and the counter stays right. -/
theorem Inv.move (hopen : task.stage.isDone = false) (hsound : c.TaskSound ⟨task.peer, stage⟩)
    (hcnt : c.has (·.atomic) = true ∨ (stage.isDone && c.approves task.peer) = false) :
    c.Inv (s.advance i task.peer stage) := by
  refine h.advance hi hsound (h.counter.trans ?_)
  rcases hcnt with hatomic | hsame
  · rw [if_pos hatomic, if_pos hatomic]
  · rw [counted_advance hi hopen, hsame]
    rfl

end

theorem SagaSound.withApproval (h : c.SagaSound saga) (hatomic : c.has (·.atomic) = true)
    (hp : p ∈ c.verifiedNodes) (happ : c.approves p = true) :
    c.SagaSound (c.withApproval saga p.node.id) where
  stored := h.stored
  nodup := Tally.nodup_distinct _
  approvals := by
    intro id hid
    rcases mem_append.1 (Tally.mem_distinct.1 hid) with hid | hid
    · exact h.approvals id hid
    · rw [mem_singleton.1 hid, Finset.mem_insert]
      exact .inr (List.mem_toFinset.2 (List.mem_map_of_mem (mem_filter.2 ⟨hp, happ⟩)))
  approved := by
    intro hstatus
    refine ⟨hatomic, ?_⟩
    rw [QuorumCall.withApproval] at hstatus
    split at hstatus
    · assumption
    · cases hstatus

/-- An approved list is long enough. -/
theorem SagaSound.le_card (h : c.SagaSound saga) (happ : saga.status = .approved) :
    c.threshold ≤ (insert c.mesh.nodeId c.approvers).card := by
  have hsub : saga.approvals.toFinset ⊆ insert c.mesh.nodeId c.approvers := fun id hid ↦
    h.approvals id (List.mem_toFinset.1 hid)
  calc c.threshold ≤ saga.approvals.length := (h.approved happ).2
    _ = saga.approvals.toFinset.card := (toFinset_card_of_nodup h.nodup).symm
    _ ≤ (insert c.mesh.nodeId c.approvers).card := Finset.card_le_card hsub

theorem Inv.peer_mem (h : c.Inv s) (hi : s.tasks[i]? = some task) :
    task.peer ∈ c.verifiedNodes := by
  rw [← h.peers]
  exact List.mem_map_of_mem (mem_of_getElem? hi)

/-- When all tasks are done, all approvals have been counted. -/
theorem Inv.counted_eq (h : c.Inv s) (hdone : s.tasks.all (·.stage.isDone) = true) :
    c.counted s = c.verifiedNodes.countP c.approves := by
  rw [← h.peers, countP_map]
  refine countP_congr fun task htask ↦ ?_
  rw [List.all_eq_true.1 hdone task htask]
  rfl

/-- An answer `true` needs enough approvals. -/
theorem Inv.canPass (hthreshold : 2 ≤ c.threshold) (h : c.Inv s) {approved : Bool}
    (hans : c.Answers s approved) (htrue : approved = true) : c.CanPass := by
  refine ⟨h.signed, ?_⟩
  cases hans with
  | joined hwatch hdone =>
    have hctr := h.counter
    rw [if_neg (Bool.eq_false_iff.1 hwatch)]
    have henough := of_decide_eq_true htrue
    cases hatomic : c.has (·.atomic) with
    | true =>
      rw [if_pos hatomic] at hctr
      omega
    | false =>
      rw [if_neg (Bool.eq_false_iff.1 hatomic), h.counted_eq hdone] at hctr
      exact ⟨rfl, hctr ▸ henough⟩
  | watched hwatch hsaga hstatus =>
    have hsound := h.saga _ hsaga
    rw [if_pos hwatch]
    exact ⟨hsound.stored, (hsound.approved hstatus).1, hsound.le_card hstatus⟩
  | stopped => cases htrue

/-- What a task does breaks nothing. -/
theorem Inv.taskStep {s' : QuorumState} (h : c.Inv s) (hi : s.tasks[i]? = some task)
    (htask : c.TaskStep s task stage s') : c.Inv (s'.advance i task.peer stage) := by
  have hsound := h.tasks task (mem_of_getElem? hi)
  obtain ⟨peer, now⟩ := task
  cases htask with
  | replied hst =>
    cases hst
    obtain hdone | ⟨payload, signature, hver⟩ := afterReply_cases peer.reply
    · refine h.move hi rfl ?_ (.inr ?_)
      · rw [hdone]
        trivial
      · rw [approves, hdone]
        rfl
    · refine h.move hi rfl ?_ (.inr ?_)
      · rw [hver]
        exact hver
      · rw [hver]
        rfl
  | refused hst hvalid =>
    cases hst
    have hno : c.approves peer = false := (approves_eq hsound).trans hvalid
    exact h.move hi rfl trivial (.inr (by rw [hno]; rfl))
  | verified hst hvalid hatomic =>
    cases hst
    exact h.move hi rfl ⟨(approves_eq hsound).trans hvalid, hatomic⟩ (.inl hatomic)
  | counted hst hvalid hatomic =>
    cases hst
    have hyes : c.approves peer = true := (approves_eq hsound).trans hvalid
    have hctr := h.counter
    rw [if_neg (Bool.eq_false_iff.1 hatomic)] at hctr
    refine h.advance hi trivial ?_
    rw [if_neg (Bool.eq_false_iff.1 hatomic), counted_advance hi rfl, hyes, hctr]
    rfl
  | read hst hsaga =>
    cases hst
    exact h.move hi rfl ⟨hsound.1, hsound.2, h.saga _ hsaga⟩ (.inl hsound.2)
  | written hst =>
    cases hst
    obtain ⟨hyes, hatomic, hsaga⟩ := hsound
    have hnew := hsaga.withApproval hatomic (h.peer_mem hi) hyes
    have hstored : c.Inv { s with
        saga := some (c.withApproval _ peer.node.id)
        version := s.version + 1 } :=
      { h with saga := fun saga hsaga ↦ some.inj hsaga ▸ hnew }
    exact hstored.move hi rfl trivial (.inl hatomic)
  | again hst =>
    cases hst
    exact h.move hi rfl ⟨hsound.1, hsound.2.1⟩ (.inl hsound.2.1)
  | stopped hst =>
    obtain ⟨attempts, hst⟩ | ⟨attempts, saga, version, hst⟩ := hst <;> cases hst
    · exact h.move hi rfl trivial (.inl hsound.2)
    · exact h.move hi rfl trivial (.inl hsound.2.1)

/-- **No step breaks it.** -/
theorem Inv.step (hthreshold : 2 ≤ c.threshold) {a : QuorumLabel} (h : c.Inv s)
    (hstep : c.step s a = some t) : c.Inv t := by
  obtain ⟨i, task, stage, s', hi, htask, rfl⟩ | ⟨approved, -, hans, rfl⟩ | rfl :=
    step_cases c hstep
  · exact h.taskStep hi htask
  · refine { h with outcome := fun htrue ↦ ?_ }
    cases htrue
    exact h.canPass hthreshold hans rfl
  · exact h

/-! ### The result -/

theorem advance_advance (s : QuorumState) (i : ℕ) (p : Peer) (stage stage' : Stage) :
    (s.advance i p stage).advance i p stage' = s.advance i p stage' := by
  rw [advance, advance, advance, set_set]

theorem getElem?_advance (hi : i < s.tasks.length) :
    (s.advance i p stage).tasks[i]? = some ⟨p, stage⟩ := getElem?_set_self hi

theorem two_le_threshold (hsize : 3 ≤ c.size) : 2 ≤ c.threshold := by
  rw [threshold, quorumThreshold_eq (.inl hsize), splitBrainThreshold]
  split <;> omega

section

variable (hsingle : c.singleNode ≠ some "true") (hsize : 3 ≤ c.size)
include hsingle hsize

/-- In the ordinary case nothing is decided at the start. -/
theorem start_eq : c.start =
      let saga := if c.has (·.set) = true then some ⟨[c.mesh.nodeId], .pending⟩ else none
      if (c.mesh.signPayload c.env c.requestPayload).isOk = true then
        ⟨saga, 0, 1, c.verifiedNodes.map (⟨·, .asking⟩), .waiting⟩
      else ⟨saga, 0, 1, [], .threw⟩ := by
  rw [start, if_neg (not_or.2 ⟨hsingle, by omega⟩)]
  cases c.mesh.signPayload c.env c.requestPayload <;> rfl

theorem inv_start
    (hsig : (c.mesh.signPayload c.env c.requestPayload).isOk = true) : c.Inv c.start := by
  rw [start_eq hsingle hsize, if_pos hsig]
  refine ⟨hsig, ?_, ?_, ?_, ?_, Outcome.noConfusion⟩
  · rw [List.map_map]
    exact List.map_id _
  · intro task htask
    obtain ⟨p, -, rfl⟩ := List.mem_map.1 htask
    trivial
  · intro saga hsaga
    split_ifs at hsaga with hset
    obtain rfl := some.inj hsaga
    refine ⟨hset, nodup_singleton _, ?_, SagaStatus.noConfusion⟩
    intro id hid
    rw [mem_singleton.1 hid]
    exact Finset.mem_insert_self _ _
  · have hnone (saga : Option ConsensusSaga) :
        c.counted ⟨saga, 0, 1, c.verifiedNodes.map (⟨·, .asking⟩), .waiting⟩ = 0 := by
      rw [counted, countP_map]
      exact countP_eq_zero.2 fun p _ h ↦ Bool.false_ne_true h
    rw [hnone, ite_self]

/-- **Replies that cannot make a quorum do not make one**, in any order of the steps. -/
theorem canPass_of_run {labels : List QuorumLabel} (hrun : run c.step c.start labels = some s)
    (htrue : s.outcome = .returned true) : c.CanPass := by
  by_cases hsig : (c.mesh.signPayload c.env c.requestPayload).isOk = true
  · have hinv := run_invariant' (P := c.Inv)
      (fun h hstep ↦ h.step (two_le_threshold hsize) hstep) (inv_start hsingle hsize hsig) hrun
    exact hinv.outcome htrue
  · -- Nobody was asked, and nobody answers.
    have hthrew : s.tasks = [] ∧ s.outcome = .threw := by
      refine run_invariant' (P := fun s ↦ s.tasks = [] ∧ s.outcome = .threw) ?_ ?_ hrun
      · rintro u a v ⟨htasks, hout⟩ hstep
        obtain ⟨i, task, stage, s', hi, -⟩ | ⟨approved, hwait, -⟩ | rfl := step_cases c hstep
        · rw [htasks] at hi
          cases hi
        · rw [hout] at hwait
          cases hwait
        · exact ⟨htasks, hout⟩
      · rw [start_eq hsingle hsize, if_neg hsig]
        exact ⟨rfl, rfl⟩
    rw [hthrew.2] at htrue
    cases htrue

/-- **Every approval is counted in some run**, whatever it is about. -/
theorem exists_run_counted (hsig : (c.mesh.signPayload c.env c.requestPayload).isOk = true)
    (hset : c.has (·.atomic) = true → c.has (·.set) = true) (hp : p ∈ c.verifiedNodes)
    (happ : c.approves p = true) :
    ∃ labels s, run c.step c.start labels = some s ∧ c.Counted p s := by
  obtain ⟨i, hi⟩ := getElem?_of_mem hp
  obtain ⟨payload, signature, hver⟩ : ∃ payload signature,
      afterReply p.reply = .verifying payload signature := by
    obtain hdone | hver := afterReply_cases p.reply
    · rw [approves, hdone] at happ
      cases happ
    · exact hver
  have hvalid : c.isValid p.node payload signature = true := (approves_eq hver).symm.trans happ
  have hstart := start_eq hsingle hsize
  rw [if_pos hsig] at hstart
  have htask : c.start.tasks[i]? = some ⟨p, .asking⟩ := by
    rw [hstart]
    simp [hi]
  have hlt : i < c.start.tasks.length := (List.getElem?_eq_some_iff.1 htask).1
  have hreply : c.step c.start (.reply i) =
      some (c.start.advance i p (.verifying payload signature)) := by
    rw [step, htask, bind_some, ← hver]
  cases hatomic : c.has (·.atomic) with
  | false =>
    refine ⟨[.reply i, .verify i], { c.start.advance i p .done with approvals := 2 },
      run_cons.2 ⟨_, hreply, run_cons.2 ⟨_, ?_, rfl⟩⟩, ?_⟩
    · rw [step, getElem?_advance hlt]
      simp [hvalid, hatomic, hstart, advance]
    · rw [Counted, hatomic]
      rfl
  | true =>
    refine ⟨[.reply i, .verify i, .get i, .commit i], { c.start.advance i p .done with
        saga := some (c.withApproval ⟨[c.mesh.nodeId], .pending⟩ p.node.id)
        version := 1 }, run_cons.2 ⟨_, hreply, run_cons.2 ⟨c.start.advance i p (.reading 0), ?_,
      run_cons.2 ⟨c.start.advance i p (.writing 0 ⟨[c.mesh.nodeId], .pending⟩ 0), ?_,
        run_cons.2 ⟨_, ?_, rfl⟩⟩⟩⟩, ?_⟩
    · rw [step, getElem?_advance hlt]
      simp [hvalid, hatomic, advance_advance]
    · rw [step, getElem?_advance hlt]
      simp [hstart, advance, hset hatomic]
    · rw [step, getElem?_advance hlt]
      simp [hstart, advance]
    · rw [Counted, if_pos hatomic]
      exact ⟨_, rfl, Tally.mem_distinct.2 (by simp)⟩

end

/-- **A quorum stands for signed votes on this request if all approvals are about it.** For all
replies to a request with at least two verified nodes: if the condition holds, then in every order
of the steps an answer `true` means that enough nodes have returned a validly signed payload that
names the request and the action. And every approval with a valid signature is counted in some
order, so that the condition leaves out only replies for which a vote on something else counts. -/
theorem quorum_signed (c : QuorumCall) (hsingle : c.singleNode ≠ some "true")
    (hsize : 3 ≤ c.size) :
    (c.OwnVotes → ∀ labels s, Machine.run c.step c.start labels = some s →
      s.outcome = .returned true → c.threshold - 1 ≤ c.signers.card) ∧
    ((c.mesh.signPayload c.env c.requestPayload).isOk = true →
      (c.has (·.atomic) = true → c.has (·.set) = true) → ∀ p ∈ c.verifiedNodes,
        c.approves p = true →
          ∃ labels s, Machine.run c.step c.start labels = some s ∧ c.Counted p s) := by
  refine ⟨fun hown labels s hrun htrue ↦ ?_, fun hsig hset p ↦
    exists_run_counted hsingle hsize hsig hset⟩
  have hsub : c.approvers.card ≤ c.signers.card := by
    refine Finset.card_le_card fun id hid ↦ ?_
    obtain ⟨p, hp, rfl⟩ := List.mem_map.1 (List.mem_toFinset.1 hid)
    obtain ⟨hmem, happ⟩ := mem_filter.1 hp
    exact List.mem_toFinset.2
      (List.mem_map_of_mem (mem_filter.2 ⟨hmem, hown.about p hmem happ⟩))
  obtain ⟨-, hpass⟩ := canPass_of_run hsingle hsize hrun htrue
  split at hpass
  · have hcard := Finset.card_insert_le c.mesh.nodeId c.approvers
    omega
  · have hcard : c.approvers.card = c.verifiedNodes.countP c.approves := by
      rw [approvers, toFinset_card_of_nodup (hown.distinct hpass.1), length_map,
        countP_eq_length_filter]
    omega

end QuorumCall

/-! ### Two requests -/

/-- A reply with a payload that node `a` has signed. -/
def signedReply (sagaId action canonical : String) : JsTree :=
  .obj [("approved", .bool true),
    ("payload", .obj [("action", .str action), ("sagaId", .str sagaId)]),
    ("signature", .str (nodeKeySignature "a" canonical))]

/-- Node `me` asks the nodes `a` and `b` about a lockdown; node `b` does not answer. -/
def lockdownCall (reply : JsTree) : QuorumCall where
  env := plainSigning
  mesh := .named "me" true
  singleNode := none
  allowSmallQuorum := true
  kv := some ⟨true, true, true⟩
  action := "LOCKDOWN"
  data := .null
  sagaId := "new"
  now := 0
  nodes := [⟨numberedPeer "a", some reply⟩, ⟨numberedPeer "b", none⟩]

/-- The vote of node `a` on this request. -/
def freshReply : JsTree :=
  signedReply "new" "LOCKDOWN" "\x7b\x22action\x22:\x22LOCKDOWN\x22,\x22sagaId\x22:\x22new\x22\x7d"

/-- Its vote on another one. -/
def staleReply : JsTree :=
  signedReply "old" "STATUS" "\x7b\x22action\x22:\x22STATUS\x22,\x22sagaId\x22:\x22old\x22\x7d"

namespace QuorumCall

theorem quorum_signed_fresh :
    (lockdownCall freshReply).approvers = {"a"} ∧
      ∀ labels s, Machine.run (lockdownCall freshReply).step (lockdownCall freshReply).start
          labels = some s → s.outcome = .returned true →
        (lockdownCall freshReply).threshold - 1 ≤ (lockdownCall freshReply).signers.card :=
  ⟨by decide, (quorum_signed (lockdownCall freshReply) (by decide) (by decide)).1
    ⟨by decide, by decide⟩⟩

/-- The old vote makes a quorum, although nobody has voted on this request. -/
theorem stale_vote_counts :
    (Machine.run (lockdownCall staleReply).step (lockdownCall staleReply).start
        [.reply 0, .verify 0, .get 0, .commit 0, .watch]).map (·.outcome) =
          some (.returned true) ∧
      (lockdownCall staleReply).signers = ∅ ∧ (lockdownCall staleReply).threshold = 2 := by
  decide

end QuorumCall

end Mesh
