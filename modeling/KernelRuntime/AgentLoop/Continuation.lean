import KernelRuntime.AgentLoop.Redelivery
import KernelRuntime.AgentLoop.System

/-! # When a batch continues its task

A batch is on `execution_queue`; its calls are finished by the worker, by the events of approved
calls, and by denials. `Settled` is what the task needs from this: it continues once, when no call is
open any more. Other tasks may be anywhere in the queue and the tables. -/

namespace KernelRuntime.AgentLoop
open Approval
set_option autoImplicit false

/-- The steps that finish the calls of a batch. -/
def batchStep (env : Env) (w : World) : Label → Option World
  | .executeTools => deliverTools env w
  | .approve req => some (approveToolCall req w)
  | _ => none

/-- The row waits for a decision. -/
def isPending (r : MessageModel) : Bool :=
  r.extraMetadata.any fun m => decide (m.status = .needsApproval)

section Counts
variable (taskId : Option String)

/-- The rows of the task that wait for a decision. -/
def waitingRows (rows : List MessageModel) : ℕ :=
  rows.countP fun r => decide (r.taskId = taskId) && isPending r

def eventsOf (stream : List (StreamMessage ToolEvent)) : ℕ :=
  stream.countP fun m => decide (m.data.taskId = taskId)

def thinksOf (stream : List (StreamMessage ThinkEvent)) : ℕ :=
  stream.countP fun m => decide (m.data.taskId = taskId)

/-- The calls of the task that are not finished: those that wait for a decision, and the events that
are still to be delivered. -/
def openCalls (w : World) : ℕ := waitingRows taskId w.db.messages + eventsOf taskId w.executionQueue

/-- The task continues exactly once, when none of its calls is open, and none is given up. -/
structure Settled (w : World) : Prop where
  continued : thinksOf taskId w.taskQueue = if openCalls taskId w = 0 then 1 else 0
  alive : eventsOf taskId w.deadLetters = 0

end Counts

/-- Governance asks for an approval of the call. -/
def AsksApproval (env : Env) (session : SessionModel) (spec : ToolSpec) : Prop :=
  ∃ e, PolicyEngine.assertActionAllowed env.fs session spec.name spec.args = .error e ∧
    e.cls = .governanceApprovalRequiredError

/-- A delivery of the task that does not answer all calls is not the last attempt; one that answers
all and asks for no approval leaves nothing of the task open; and a denial is not the end of the last
open call. -/
def StepOk (env : Env) (taskId : Option String) (w : World) : Label → Prop
  | .executeTools => ∀ message queue session, w.executionQueue = message :: queue →
      message.data.taskId = taskId →
      loadSession w.db message.data.sessionId message.data.tenantId = some session →
      ((∀ spec ∈ message.data.tools, Answerable env session spec) ∨ message.attemptCount + 1 < 3) ∧
      ((∀ spec ∈ message.data.tools, Answerable env session spec ∧ ¬ AsksApproval env session spec) →
        openCalls taskId w = 1)
  | .approve req => ∀ message m, PendingAt w req message m → message.taskId = taskId →
      req.decision = "denied" → 2 ≤ openCalls taskId w
  | _ => True

/-! ## What the steps do to the counts -/

theorem isPending_of_storedAs {turn : Turn} {sessionId tenantId : String} {r : MessageModel}
    (h : turn.StoredAs sessionId tenantId r) :
    isPending r = turn.metadata.any fun m => decide (m.status = .needsApproval) := by
  unfold isPending
  rw [h.extraMetadata]

/-- The rows that wait after a delivery of the task are those of the calls that wait. -/
theorem waitingRows_reports {event : ToolEvent} {calls : List (ToolSpec × CallResult)}
    {turns : List Turn} (hreports : List.Forall₂ (Reports event) calls turns)
    {sessionId tenantId : String} {rows : List MessageModel}
    (hrows : List.Forall₂ (fun turn => Turn.StoredAs turn sessionId tenantId) turns rows) :
    waitingRows event.taskId rows = calls.countP fun c => c.2.waits := by
  induction hreports generalizing rows with
  | nil =>
    cases hrows
    rfl
  | @cons call turn calls turns hreport _ ih =>
    cases hrows with
    | @cons _ r _ rows hrow hrows =>
      have hcount := ih hrows
      have htask : r.taskId = event.taskId := hrow.taskId.trans hreport.taskId
      have hpending : isPending r = call.2.waits := by
        rw [isPending_of_storedAs hrow, hreport.metadata]
        cases call.2.waits <;> rfl
      unfold waitingRows at hcount ⊢
      rw [List.countP_cons, List.countP_cons, hcount, htask, hpending]
      simp

theorem waitingRows_eq_zero {taskId : Option String} {rows : List MessageModel}
    (h : ∀ r ∈ rows, r.taskId ≠ taskId) : waitingRows taskId rows = 0 := by
  unfold waitingRows
  rw [List.countP_eq_zero]
  intro r hr
  simp [h r hr]

theorem mem_rows_taskId {turns : List Turn} {taskId : Option String} {sessionId tenantId : String}
    {rows : List MessageModel} (hturns : ∀ turn ∈ turns, turn.taskId = taskId)
    (hrows : List.Forall₂ (fun turn => Turn.StoredAs turn sessionId tenantId) turns rows) :
    ∀ r ∈ rows, r.taskId = taskId ∧ r.sessionId = sessionId ∧ r.tenantId = tenantId := by
  induction hrows with
  | nil => exact fun _ h => absurd h List.not_mem_nil
  | cons hrow _ ih =>
    intro r hr
    rcases List.mem_cons.mp hr with rfl | hr
    · exact ⟨hrow.taskId.trans (hturns _ List.mem_cons_self), hrow.sessionId, hrow.tenantId⟩
    · exact ih (fun turn h => hturns turn (List.mem_cons_of_mem _ h)) r hr

theorem waitingRows_append (taskId : Option String) (rows rows' : List MessageModel) :
    waitingRows taskId (rows ++ rows') = waitingRows taskId rows + waitingRows taskId rows' :=
  List.countP_append

theorem eventsOf_append (taskId : Option String) (s s' : List (StreamMessage ToolEvent)) :
    eventsOf taskId (s ++ s') = eventsOf taskId s + eventsOf taskId s' := List.countP_append

theorem thinksOf_append (taskId : Option String) (s s' : List (StreamMessage ThinkEvent)) :
    thinksOf taskId (s ++ s') = thinksOf taskId s + thinksOf taskId s' := List.countP_append

theorem eventsOf_cons (taskId : Option String) (m : StreamMessage ToolEvent)
    (s : List (StreamMessage ToolEvent)) :
    eventsOf taskId (m :: s) = eventsOf taskId s + if m.data.taskId = taskId then 1 else 0 := by
  unfold eventsOf
  rw [List.countP_cons]
  simp

theorem eventsOf_eq_zero {taskId : Option String} {s : List (StreamMessage ToolEvent)}
    (h : ∀ m ∈ s, m.data.taskId ≠ taskId) : eventsOf taskId s = 0 := by
  unfold eventsOf
  rw [List.countP_eq_zero]
  intro m hm
  simp [h m hm]

theorem thinksOf_eq_zero {taskId : Option String} {s : List (StreamMessage ThinkEvent)}
    (h : ∀ m ∈ s, m.data.taskId ≠ taskId) : thinksOf taskId s = 0 := by
  unfold thinksOf
  rw [List.countP_eq_zero]
  intro m hm
  simp [h m hm]

theorem counts_of_touched {env : Env} {event : ToolEvent} {queue : List (StreamMessage ToolEvent)}
    {taskId : Option String} {w w' : World} (hclean : w.Clean) (h : Touched env event queue w w')
    (htask : event.taskId ≠ taskId) :
    waitingRows taskId w'.db.messages = waitingRows taskId w.db.messages ∧
      eventsOf taskId w'.executionQueue = eventsOf taskId queue ∧
      thinksOf taskId w'.taskQueue = thinksOf taskId w.taskQueue ∧
      eventsOf taskId w'.deadLetters = eventsOf taskId w.deadLetters := by
  obtain ⟨turns, hturns, hdb⟩ := h.db
  obtain ⟨thinks, hthinks, hcontinue⟩ := h.taskQueue
  obtain ⟨events, hevents, hsame⟩ := h.executionQueue
  obtain ⟨dead, hdead, hsame'⟩ := h.deadLetters
  have hrows := mem_rows_taskId hturns (Database.newRows_storedAs w.db env.nextSequence event.sessionId turns)
  refine ⟨?_, ?_, ?_, ?_⟩
  · rw [hdb, Database.messages_commit_addTurns hclean.flushed, waitingRows_append,
      waitingRows_eq_zero fun r hr h => htask ((hrows r hr).1.symm.trans h), Nat.add_zero]
  · rw [hevents, eventsOf_append, eventsOf_eq_zero fun m hm h => htask ((hsame m hm).1.symm.trans h),
      Nat.add_zero]
  · have hnone : thinksOf taskId thinks = 0 := by
      refine thinksOf_eq_zero fun m hm h => htask ?_
      rw [hcontinue m hm] at h
      exact h
    rw [hthinks, thinksOf_append, hnone, Nat.add_zero]
  · rw [hdead, eventsOf_append, eventsOf_eq_zero fun m hm h => htask ((hsame' m hm).1.symm.trans h),
      Nat.add_zero]

/-! ## What belongs to the task -/

/-- Events and waiting rows of the task are of its session, which exists. -/
structure Traced (taskId : Option String) (sessionId : String) (w : World) : Prop where
  clean : w.Clean
  session : ∃ s, w.db.findSession sessionId = some s
  events : ∀ m ∈ w.executionQueue, m.data.taskId = taskId → m.data.sessionId = sessionId ∧
    ∃ s, loadSession w.db m.data.sessionId m.data.tenantId = some s
  rows : ∀ r ∈ w.db.messages, r.taskId = taskId → isPending r = true →
    r.sessionId = sessionId ∧ r.tenantId = w.db.tenantOf sessionId

theorem loadSession_tenantOf {db : Database} {sessionId : String} {s : SessionModel}
    (h : db.findSession sessionId = some s) :
    ∃ s', loadSession db sessionId (some (db.tenantOf sessionId)) = some s' := by
  have hid : s.id = sessionId := by simpa using List.find?_some h
  have htenant : db.tenantOf sessionId = s.tenantId := by
    unfold Database.tenantOf
    rw [h]
  have hmem : s ∈ db.sessions := List.mem_of_find?_eq_some h
  unfold loadSession
  rw [← Option.isSome_iff_exists, List.find?_isSome]
  exact ⟨s, hmem, decide_eq_true ⟨hid, fun _ => by rw [htenant]⟩⟩

theorem mem_replaceF {α : Type} {f : α → Option α} {l : List α} {r : α} (h : r ∈ l.replaceF f) :
    r ∈ l ∨ ∃ a ∈ l, f a = some r := by
  induction l with
  | nil => exact Or.inl h
  | cons a l ih =>
    unfold List.replaceF at h
    cases hf : f a with
    | none =>
      rw [hf] at h
      rcases List.mem_cons.mp h with rfl | h
      · exact Or.inl List.mem_cons_self
      · rcases ih h with h | ⟨a', ha', hf'⟩
        · exact Or.inl (List.mem_cons_of_mem _ h)
        · exact Or.inr ⟨a', List.mem_cons_of_mem _ ha', hf'⟩
    | some b =>
      rw [hf] at h
      rcases List.mem_cons.mp h with rfl | h
      · exact Or.inr ⟨a, List.mem_cons_self, hf⟩
      · exact Or.inl (List.mem_cons_of_mem _ h)

theorem mem_decideRow {db : Database} {req : ApprovalRequest} {metadata : ApprovalMetadata}
    (hmetadata : metadata.status ≠ .needsApproval) {r : MessageModel}
    (hr : r ∈ (decideRow db req metadata).messages) (hpending : isPending r = true) :
    r ∈ db.messages := by
  rcases mem_replaceF hr with hr | ⟨a, _, ha⟩
  · exact hr
  · split_ifs at ha
    rw [← Option.some.inj ha] at hpending
    simp [isPending, hmetadata] at hpending

theorem Traced.touched {taskId : Option String} {sessionId : String} {env : Env} {w w' : World}
    {message : StreamMessage ToolEvent} {queue : List (StreamMessage ToolEvent)}
    (h : Traced taskId sessionId w) (hqueue : w.executionQueue = message :: queue)
    (ht : Touched env message.data queue w w') : Traced taskId sessionId w' := by
  obtain ⟨turns, hturns, hdb⟩ := ht.db
  obtain ⟨events, hevents, hsame⟩ := ht.executionQueue
  have hsessions : w'.db.sessions = w.db.sessions := by
    rw [hdb, Database.sessions_commit_addTurns]
  have hmessage : message ∈ w.executionQueue := by
    rw [hqueue]
    exact List.mem_cons_self
  refine ⟨ht.clean, ?_, ?_, ?_⟩
  · unfold Database.findSession
    rw [hsessions]
    exact h.session
  · intro m hm htask
    rw [loadSession_congr hsessions]
    rw [hevents] at hm
    rcases List.mem_append.mp hm with hm | hm
    · exact h.events m (by rw [hqueue]; exact List.mem_cons_of_mem _ hm) htask
    · obtain ⟨htask', hsession, htenant⟩ := hsame m hm
      rw [hsession, htenant]
      exact h.events message hmessage (htask'.symm.trans htask)
  · intro r hr htask hpending
    rw [Database.tenantOf_congr hsessions]
    rw [hdb, Database.messages_commit_addTurns h.clean.flushed] at hr
    rcases List.mem_append.mp hr with hr | hr
    · exact h.rows r hr htask hpending
    · obtain ⟨htask', hsession, htenant⟩ := mem_rows_taskId hturns
        (Database.newRows_storedAs w.db env.nextSequence message.data.sessionId turns) r hr
      have hown := (h.events message hmessage (htask'.symm.trans htask)).1
      exact ⟨hsession.trans hown, by rw [htenant, hown]⟩

theorem Traced.decided {taskId : Option String} {sessionId : String} {w w' : World}
    {req : ApprovalRequest} (h : Traced taskId sessionId w) (hd : Decision req w w') :
    Traced taskId sessionId w' := by
  have hstore : ∀ m : ApprovalMetadata, m.status ≠ .needsApproval →
      Traced taskId sessionId (w.store (decideRow w.db req m)) := by
    intro m hm
    refine ⟨⟨h.clean.usable, rfl, h.clean.flushed⟩, h.session, h.events, ?_⟩
    intro r hr htask hpending
    exact h.rows r (mem_decideRow hm hr hpending) htask hpending
  cases hd with
  | nothing => exact h
  | denied message m => exact hstore _ (by simp)
  | approved message m args hpending =>
    have hs := hstore { m with status := .approved, args := args } (by simp)
    refine ⟨⟨h.clean.usable, rfl, h.clean.flushed⟩, hs.session, ?_, hs.rows⟩
    intro event hevent htask
    rcases List.mem_append.mp hevent with hevent | hevent
    · exact hs.events event hevent htask
    · rw [List.mem_singleton.mp hevent] at htask ⊢
      obtain ⟨hmem, hmatches, hmetadata, hstatus⟩ := pendingAt_spec hpending
      have hwaits : isPending message = true := by simp [isPending, hmetadata, hstatus]
      obtain ⟨hsession, htenant⟩ := h.rows message hmem htask hwaits
      have hreq : req.sessionId = sessionId := hmatches.2.1.symm.trans hsession
      obtain ⟨s, hs⟩ := h.session
      refine ⟨hreq, ?_⟩
      have hfound := loadSession_tenantOf hs
      rw [← htenant, hmatches.2.2] at hfound
      show ∃ s, loadSession _ req.sessionId (some req.tenantId) = some s
      rw [hreq]
      exact hfound

/-! ## The counts of the task -/

theorem waits_iff {env : Env} {session : SessionModel} {spec : ToolSpec} {r : CallResult}
    (hr : classify env session spec = .ok r) : r.waits = true ↔ AsksApproval env session spec := by
  unfold AsksApproval
  unfold classify at hr
  cases hgov : PolicyEngine.assertActionAllowed env.fs session spec.name spec.args with
  | error e =>
    rw [hgov] at hr
    rw [← Except.ok.inj hr]
    simp [CallResult.waits]
  | ok u =>
    rw [hgov] at hr
    simp only at hr
    have hnot : r.waits = false := by
      split_ifs at hr
      · rw [← Except.ok.inj hr]
        rfl
      · cases hargs : spec.args with
        | obj fields =>
          rw [hargs] at hr
          simp only at hr
          split_ifs at hr
          · rw [← Except.ok.inj hr]
            rfl
          · rw [← Except.ok.inj hr]
            rfl
        | _ =>
          rw [hargs] at hr
          cases hr
    simp [hnot]

/-- No call of an event waits exactly when governance asks for no approval. -/
theorem countP_waits_eq_zero_iff {env : Env} {session : SessionModel} {tools : List ToolSpec}
    (hall : ∀ spec ∈ tools, Processable env session spec) :
    (handledCalls env session tools).countP (fun c => c.2.waits) = 0 ↔
      ∀ spec ∈ tools, ¬ AsksApproval env session spec := by
  rw [List.countP_eq_zero]
  constructor
  · intro hnone spec hspec hasks
    rw [← map_fst_handledCalls hall] at hspec
    obtain ⟨c, hc, rfl⟩ := List.mem_map.mp hspec
    exact hnone c hc ((waits_iff (mem_handledCalls hc).2).mpr hasks)
  · intro hnone c hc hwaits
    exact hnone c.1 (mem_handledCalls hc).1 ((waits_iff (mem_handledCalls hc).2).mp hwaits)

section Deliver
variable {env : Env} {w w' : World} {message : StreamMessage ToolEvent}
variable {queue : List (StreamMessage ToolEvent)} {session : SessionModel}

/-- The counts after a delivery of the task's own event. -/
structure Counted (env : Env) (session : SessionModel) (message : StreamMessage ToolEvent)
    (queue : List (StreamMessage ToolEvent)) (w w' : World) : Prop where
  returned : (∀ spec ∈ message.data.tools, Answerable env session spec) → ∃ k,
    (k = 0 ↔ ∀ spec ∈ message.data.tools, ¬ AsksApproval env session spec) ∧
    openCalls message.data.taskId w' =
      waitingRows message.data.taskId w.db.messages + k + eventsOf message.data.taskId queue ∧
    thinksOf message.data.taskId w'.taskQueue =
      thinksOf message.data.taskId w.taskQueue + (if k = 0 then 1 else 0) ∧
    eventsOf message.data.taskId w'.deadLetters = eventsOf message.data.taskId w.deadLetters
  retried : (¬ ∀ spec ∈ message.data.tools, Answerable env session spec) →
    message.attemptCount + 1 < 3 → 0 < openCalls message.data.taskId w' ∧
    thinksOf message.data.taskId w'.taskQueue = thinksOf message.data.taskId w.taskQueue ∧
    eventsOf message.data.taskId w'.deadLetters = eventsOf message.data.taskId w.deadLetters
  dropped : (¬ ∀ spec ∈ message.data.tools, Answerable env session spec) →
    3 ≤ message.attemptCount + 1 → 0 < eventsOf message.data.taskId w'.deadLetters

theorem thinksOf_continued (event : ToolEvent) (calls : List (ToolSpec × CallResult)) (n : ℕ) :
    thinksOf event.taskId (if (calls.any fun c => c.2.waits) = true then [] else
      [⟨n, continuation event, 0⟩]) = if (calls.countP fun c => c.2.waits) = 0 then 1 else 0 := by
  by_cases hwaits : (calls.any fun c => c.2.waits) = true
  · rw [if_pos hwaits, if_neg]
    · rfl
    · rw [List.countP_eq_zero]
      intro hnone
      obtain ⟨c, hc, hcwaits⟩ := List.any_eq_true.mp hwaits
      exact hnone c hc hcwaits
  · rw [if_neg hwaits, if_pos]
    · simp [thinksOf, continuation]
    · rw [List.countP_eq_zero]
      intro c hc hcwaits
      exact hwaits (List.any_eq_true.mpr ⟨c, hc, hcwaits⟩)

theorem deliverTools_counted (hw : w.Clean) (hqueue : w.executionQueue = message :: queue)
    (hsession : loadSession w.db message.data.sessionId message.data.tenantId = some session) :
    ∃ w', deliverTools env.reliable w = some w' ∧ Counted env session message queue w w' := by
  obtain ⟨w', hrun, hdelivered, hstreams⟩ := deliverTools_spec env hw hqueue hsession
  refine ⟨w', hrun, ?_⟩
  simp only [processable_iff] at hstreams
  obtain ⟨turns, hreports, hdb⟩ := hdelivered.db
  have hwaiting : waitingRows message.data.taskId w'.db.messages =
      waitingRows message.data.taskId w.db.messages +
        (handledCalls env session message.data.tools).countP fun c => c.2.waits := by
    rw [hdb, Database.messages_commit_addTurns hw.flushed, waitingRows_append,
      waitingRows_reports hreports (Database.newRows_storedAs _ _ _ _)]
  rcases hstreams with ⟨hall, hexecution, hdead, hthinks⟩ | ⟨hnot, hthinks, hretry⟩
  · have hprocessable : ∀ spec ∈ message.data.tools, Processable env session spec :=
      fun spec hspec => (processable_iff env session spec).mpr (hall spec hspec)
    refine ⟨fun _ => ⟨(handledCalls env session message.data.tools).countP fun c => c.2.waits,
      countP_waits_eq_zero_iff hprocessable, ?_, ?_, by rw [hdead]⟩, fun h => absurd hall h,
      fun h => absurd hall h⟩
    · unfold openCalls
      rw [hwaiting, hexecution]
    · rw [hthinks, thinksOf_append]
      congr 1
      exact thinksOf_continued _ _ _
  · refine ⟨fun h => absurd h hnot, fun _ hlimit => ?_, fun _ hlimit => ?_⟩
    · rw [retry_of_lt _ (by exact hlimit)] at hretry
      obtain ⟨hexecution, hdead⟩ := Prod.mk.inj hretry
      refine ⟨?_, by rw [hthinks], by rw [hdead]⟩
      unfold openCalls
      rw [hexecution, eventsOf_append, eventsOf_cons, if_pos (by rfl)]
      omega
    · rw [retry_of_le _ (by exact hlimit)] at hretry
      rw [(Prod.mk.inj hretry).2, eventsOf_append, eventsOf_cons, if_pos (by rfl)]
      omega

end Deliver

/-! ## The steps -/

theorem pendingAt_unique {w : World} {req : ApprovalRequest} {message message' : MessageModel}
    {m m' : ApprovalMetadata} (h : PendingAt w req message m) (h' : PendingAt w req message' m') :
    message' = message ∧ m' = m := by
  obtain ⟨hfind, hpending⟩ := h
  obtain ⟨hfind', hpending'⟩ := h'
  obtain rfl := Option.some.inj (hfind.symm.trans hfind')
  exact ⟨rfl, Option.some.inj (hpending'.symm.trans hpending)⟩

theorem waitingRows_decideRow (taskId : Option String) {w : World} {req : ApprovalRequest}
    {message : MessageModel} {m : ApprovalMetadata} (h : PendingAt w req message m)
    (metadata : ApprovalMetadata) (hmetadata : metadata.status ≠ .needsApproval) :
    waitingRows taskId (decideRow w.db req metadata).messages +
      (if message.taskId = taskId then 1 else 0) = waitingRows taskId w.db.messages := by
  obtain ⟨_, _, hextra, hstatus⟩ := pendingAt_spec h
  have hcount := countP_replaceF (fun r => decide (r.taskId = taskId) && isPending r) (Matches req)
    (fun r => { r with extraMetadata := some metadata }) w.db.messages h.1
  have hbefore : isPending message = true := by simp [isPending, hextra, hstatus]
  have hafter : isPending { message with extraMetadata := some metadata } = false := by
    simp [isPending, hmetadata]
  rw [hbefore, hafter] at hcount
  simpa [waitingRows, decideRow] using hcount

/-- What a request does to the counts of the task. -/
structure Decided (taskId : Option String) (req : ApprovalRequest) (w w' : World) : Prop where
  thinks : thinksOf taskId w'.taskQueue = thinksOf taskId w.taskQueue
  dead : eventsOf taskId w'.deadLetters = eventsOf taskId w.deadLetters
  denied : (∃ message m, PendingAt w req message m ∧ message.taskId = taskId ∧
    req.decision = "denied") → openCalls taskId w' + 1 = openCalls taskId w
  otherwise : (¬ ∃ message m, PendingAt w req message m ∧ message.taskId = taskId ∧
    req.decision = "denied") → openCalls taskId w' = openCalls taskId w

theorem decided_of_decision (taskId : Option String) {req : ApprovalRequest} {w w' : World}
    (h : Decision req w w') : Decided taskId req w w' := by
  cases h with
  | nothing hnone =>
    refine ⟨rfl, rfl, ?_, fun _ => rfl⟩
    rintro ⟨message, m, hpending, _, hdecision⟩
    refine absurd ?_ (hnone message m hpending ⟨{ m with status := .denied }, none⟩)
    unfold decideCall
    rw [if_pos hdecision]
  | denied message m hpending hdecision =>
    have hcount := waitingRows_decideRow taskId hpending { m with status := .denied } (by simp)
    refine ⟨rfl, rfl, ?_, ?_⟩
    · rintro ⟨message', m', hpending', htask, _⟩
      obtain ⟨rfl, rfl⟩ := pendingAt_unique hpending hpending'
      rw [if_pos htask] at hcount
      unfold openCalls
      rw [← hcount]
      show waitingRows taskId (decideRow w.db req _).messages + eventsOf taskId w.executionQueue + 1 = _
      omega
    · intro hnone
      have htask : message.taskId ≠ taskId := fun h => hnone ⟨message, m, hpending, h, hdecision⟩
      rw [if_neg htask] at hcount
      unfold openCalls
      rw [← hcount]
      rfl
  | approved message m args hpending hdecision =>
    have hcount := waitingRows_decideRow taskId hpending { m with status := .approved, args := args }
      (by simp)
    refine ⟨rfl, rfl, ?_, ?_⟩
    · rintro ⟨_, _, _, _, hdenied⟩
      exact absurd hdenied hdecision
    · intro _
      unfold openCalls
      show waitingRows taskId (decideRow w.db req _).messages +
        eventsOf taskId (w.executionQueue ++ [_]) = _
      rw [eventsOf_append, eventsOf_cons, ← hcount]
      simp only [eventsOf, List.countP_nil]
      omega

section Steps
variable {env : Env} {taskId : Option String} {sessionId : String} {w w' : World}

theorem traced_step (h : Traced taskId sessionId w) {i : Label}
    (hstep : batchStep env.reliable w i = some w') : Traced taskId sessionId w' := by
  cases i with
  | executeTools =>
    change deliverTools env.reliable w = some w' at hstep
    obtain ⟨message, queue, hqueue, htouched⟩ := deliverTools_inv h.clean hstep
    exact h.touched hqueue htouched
  | approve req =>
    obtain rfl := Option.some.inj hstep
    exact h.decided (approveToolCall_decision req w)
  | _ => cases hstep

/-- Before a delivery of the task nothing continues it. -/
theorem Settled.before_delivery (h : Settled taskId w) {message : StreamMessage ToolEvent}
    {queue : List (StreamMessage ToolEvent)} (hqueue : w.executionQueue = message :: queue)
    (htask : message.data.taskId = taskId) :
    openCalls taskId w = waitingRows taskId w.db.messages + eventsOf taskId queue + 1 ∧
      thinksOf taskId w.taskQueue = 0 := by
  have hopen : openCalls taskId w = waitingRows taskId w.db.messages + eventsOf taskId queue + 1 := by
    unfold openCalls
    rw [hqueue, eventsOf_cons, if_pos htask, Nat.add_assoc]
  have hthinks := h.continued
  rw [if_neg (by omega)] at hthinks
  exact ⟨hopen, hthinks⟩

theorem settled_step (hinv : Traced taskId sessionId w) (h : Settled taskId w) {i : Label}
    (hok : StepOk env taskId w i) (hstep : batchStep env.reliable w i = some w') :
    Settled taskId w' := by
  cases i with
  | executeTools =>
    change deliverTools env.reliable w = some w' at hstep
    obtain ⟨message, queue, hqueue, htouched⟩ := deliverTools_inv hinv.clean hstep
    by_cases htask : message.data.taskId = taskId
    · obtain ⟨_, session, hsession⟩ := hinv.events message (by rw [hqueue]; exact List.mem_cons_self)
        htask
      obtain ⟨hlive, hlast⟩ := hok message queue session hqueue htask hsession
      obtain ⟨hopen, hthinks⟩ := h.before_delivery hqueue htask
      obtain ⟨w'', hrun, hcounted⟩ := deliverTools_counted hinv.clean hqueue hsession
      obtain rfl := Option.some.inj (hrun.symm.trans hstep)
      have hdead := h.alive
      subst htask
      by_cases hall : ∀ spec ∈ message.data.tools, Answerable env session spec
      · obtain ⟨k, hk, hopen', hthinks', hdead'⟩ := hcounted.returned hall
        refine ⟨?_, hdead'.trans hdead⟩
        rw [hthinks', hthinks, Nat.zero_add]
        by_cases hnone : k = 0
        · have hopenOne := hlast fun spec hspec => ⟨hall spec hspec, hk.mp hnone spec hspec⟩
          rw [if_pos hnone, if_pos (by omega)]
        · rw [if_neg hnone, if_neg (by omega)]
      · obtain ⟨hopen', hthinks', hdead'⟩ := hcounted.retried hall (hlive.resolve_left hall)
        refine ⟨?_, hdead'.trans hdead⟩
        rw [hthinks', hthinks, if_neg (by omega)]
    · obtain ⟨hrows, hevents, hthinks, hdead⟩ := counts_of_touched hinv.clean htouched htask
      have hopen : openCalls taskId w' = openCalls taskId w := by
        unfold openCalls
        rw [hrows, hevents, hqueue, eventsOf_cons, if_neg htask, Nat.add_zero]
      exact ⟨by rw [hthinks, hopen]; exact h.continued, hdead.trans h.alive⟩
  | approve req =>
    obtain rfl := Option.some.inj hstep
    have hd := decided_of_decision taskId (approveToolCall_decision req w)
    refine ⟨?_, hd.dead.trans h.alive⟩
    have hthinks := h.continued
    rw [hd.thinks, hthinks]
    by_cases hdenied : ∃ message m, PendingAt w req message m ∧ message.taskId = taskId ∧
        req.decision = "denied"
    · have hcount := hd.denied hdenied
      obtain ⟨message, m, hpending, htask, hdecision⟩ := hdenied
      have htwo := hok message m hpending htask hdecision
      rw [if_neg (by omega), if_neg (by omega)]
    · rw [hd.otherwise hdenied]
  | _ => cases hstep

/-- A step that does not meet the condition leaves the task unsettled. -/
theorem not_settled_step (hinv : Traced taskId sessionId w) (h : Settled taskId w) {i : Label}
    (hnot : ¬ StepOk env taskId w i) :
    ∃ w', batchStep env.reliable w i = some w' ∧ ¬ Settled taskId w' := by
  cases i with
  | executeTools =>
    unfold StepOk at hnot
    push Not at hnot
    obtain ⟨message, queue, session, hqueue, htask, hsession, hbroken⟩ := hnot
    obtain ⟨hopen, hthinks⟩ := h.before_delivery hqueue htask
    have hdelivery : ∃ w', deliverTools env.reliable w = some w' ∧
        Counted env session message queue w w' := deliverTools_counted hinv.clean hqueue hsession
    obtain ⟨w', hrun, hcounted⟩ := hdelivery
    subst htask
    refine ⟨w', hrun, fun hsettled => ?_⟩
    by_cases hall : ∀ spec ∈ message.data.tools, Answerable env session spec
    · -- nothing waits, and the task continues although another call is open
      obtain ⟨hnone, hother⟩ := hbroken (Or.inl hall)
      obtain ⟨k, hk, hopen', hthinks', _⟩ := hcounted.returned hall
      have hzero : k = 0 := hk.mpr fun spec hspec => (hnone spec hspec).2
      have hcontinued := hsettled.continued
      rw [hthinks', hthinks, if_pos hzero, if_neg (by omega)] at hcontinued
      omega
    · -- the event is given up
      by_cases hlimit : message.attemptCount + 1 < 3
      · exact hall fun spec hspec => ((hbroken (Or.inr hlimit)).1 spec hspec).1
      · have hdead := hcounted.dropped hall (by omega)
        have halive := hsettled.alive
        omega
  | approve req =>
    unfold StepOk at hnot
    push Not at hnot
    obtain ⟨message, m, hpending, htask, hdecision, hfew⟩ := hnot
    have hd := decided_of_decision taskId (approveToolCall_decision req w)
    have hcount := hd.denied ⟨message, m, hpending, htask, hdecision⟩
    refine ⟨_, rfl, fun hsettled => ?_⟩
    have hbefore := h.continued
    have hafter := hsettled.continued
    rw [if_neg (by omega)] at hbefore
    rw [hd.thinks, hbefore, if_pos (by omega)] at hafter
    omega
  | _ => exact absurd True.intro hnot

end Steps

/-! ## Runs -/

/-- A batch has just been published for its task: nothing else of the task is under way. -/
structure Published (message : StreamMessage ToolEvent) (w : World) : Prop where
  clean : w.Clean
  event : w.executionQueue.filter (fun m => decide (m.data.taskId = message.data.taskId)) = [message]
  session : loadSession w.db message.data.sessionId message.data.tenantId ≠ none
  rows : waitingRows message.data.taskId w.db.messages = 0
  thinks : thinksOf message.data.taskId w.taskQueue = 0
  dead : eventsOf message.data.taskId w.deadLetters = 0

theorem Published.traced {message : StreamMessage ToolEvent} {w : World} (h : Published message w) :
    Traced message.data.taskId message.data.sessionId w := by
  obtain ⟨s, hs⟩ := Option.ne_none_iff_exists'.mp h.session
  refine ⟨h.clean, ?_, ?_, ?_⟩
  · have hmem := List.mem_of_find?_eq_some hs
    have hid : s.id = message.data.sessionId := by
      have hfound := List.find?_some hs
      exact (of_decide_eq_true hfound).1
    unfold Database.findSession
    rw [← Option.isSome_iff_exists, List.find?_isSome]
    exact ⟨s, hmem, decide_eq_true hid⟩
  · intro m hm htask
    have hmem : m ∈ w.executionQueue.filter fun m => decide (m.data.taskId = message.data.taskId) :=
      List.mem_filter.mpr ⟨hm, decide_eq_true htask⟩
    rw [h.event, List.mem_singleton] at hmem
    rw [hmem]
    exact ⟨rfl, s, hs⟩
  · intro r hr htask hpending
    have hnone := h.rows
    unfold waitingRows at hnone
    rw [List.countP_eq_zero] at hnone
    exact absurd (by simp [htask, hpending]) (hnone r hr)

theorem Published.settled {message : StreamMessage ToolEvent} {w : World} (h : Published message w) :
    Settled message.data.taskId w := by
  have hevents : eventsOf message.data.taskId w.executionQueue = 1 := by
    unfold eventsOf
    rw [List.countP_eq_length_filter, h.event]
    rfl
  refine ⟨?_, h.dead⟩
  rw [h.thinks, if_neg]
  unfold openCalls
  omega

/-- **The task continues exactly once, when all calls of its batch are finished, in exactly the runs
in which every delivery and every denial meets the condition.** -/
theorem settled_iff_guarded (env : Env) (message : StreamMessage ToolEvent) (w : World)
    (hpublished : Published message w) (is : List Label) :
    (∀ js ks t, is = js ++ ks → exec (batchStep env.reliable) w js = some t →
      Settled message.data.taskId t) ↔
    Guarded (batchStep env.reliable) (StepOk env message.data.taskId) w is :=
  always_iff_guarded (fun _ _ _ h hs => traced_step h hs)
    (fun _ _ _ hinv h hok hs => settled_step hinv h hok hs)
    (fun _ _ hinv h hnot => not_settled_step hinv h hnot) hpublished.traced hpublished.settled is

/-- The world in which the local task has published a batch. -/
def batchWorld (riskMode : String) (payload : List ToolSpec) : World :=
  (World.start [localSession riskMode]).putTools (batchEvent localTarget payload)

theorem batchWorld_published (riskMode : String) (payload : List ToolSpec) :
    Published ⟨0, batchEvent localTarget payload, 0⟩ (batchWorld riskMode payload) := by
  refine ⟨⟨rfl, rfl, rfl⟩, ?_, ?_, rfl, rfl, rfl⟩
  · simp [batchWorld, World.putTools, World.start]
  · have hfound : loadSession (batchWorld riskMode payload).db localTarget.sessionId
        (some localTarget.tenantId) = some (localSession riskMode) := by
      simp [batchWorld, World.putTools, World.start, loadSession, localTarget, localSession]
    exact fun h => nomatch hfound.symm.trans h

/-- A batch that reads a file continues its task once. -/
theorem settled_read_file : ∃ t, exec (batchStep localEnv.reliable) (batchWorld "auto" readPayload)
    [.executeTools] = some t ∧ Settled (some "t1") t := by
  have hguarded : Guarded (batchStep localEnv.reliable) (StepOk localEnv (some "t1"))
      (batchWorld "auto" readPayload) [.executeTools] := by
    refine ⟨?_, fun _ _ => True.intro⟩
    intro message queue session hqueue _ _
    obtain rfl : message = ⟨0, batchEvent localTarget readPayload, 0⟩ := (List.cons.inj hqueue).1.symm
    exact ⟨Or.inr (by decide), fun _ => rfl⟩
  have hsettled := (settled_iff_guarded localEnv ⟨0, batchEvent localTarget readPayload, 0⟩ _
    (batchWorld_published "auto" readPayload) [.executeTools]).mpr hguarded
  have hruns : (exec (batchStep localEnv.reliable) (batchWorld "auto" readPayload)
      [.executeTools]).isSome = true := by decide +kernel
  obtain ⟨t, hrun⟩ := Option.isSome_iff_exists.mp hruns
  exact ⟨t, hrun, hsettled [.executeTools] [] t rfl hrun⟩

/-- Two commands that need an approval. -/
def bashPayload : List ToolSpec :=
  [⟨some "call_1", "bash_execute", .obj [("command", .str "ls")]⟩,
   ⟨some "call_2", "bash_execute", .obj [("command", .str "pwd")]⟩]

/-- The first of two commands is approved and executed: the task continues while the second still
waits. -/
theorem continues_while_call_waits :
    ¬ ∀ (env : Env) (message : StreamMessage ToolEvent) (w t : World) (is : List Label),
      Published message w → exec (batchStep env.reliable) w is = some t →
      Settled message.data.taskId t := by
  intro h
  have hcounts : (exec (batchStep localEnv.reliable) (batchWorld "strict" bashPayload)
      [.executeTools, .approve ⟨"s1", 0, "approved", "acme"⟩, .executeTools]).map
        (fun t => (thinksOf (some "t1") t.taskQueue, openCalls (some "t1") t)) = some (1, 1) := by
    decide +kernel
  obtain ⟨t, hrun, hcount⟩ := Option.map_eq_some_iff.mp hcounts
  have hsettled := (h localEnv _ _ t _ (batchWorld_published "strict" bashPayload) hrun).continued
  obtain ⟨hthinks, hopen⟩ := Prod.mk.inj hcount
  change thinksOf (some "t1") t.taskQueue = if openCalls (some "t1") t = 0 then 1 else 0 at hsettled
  rw [hthinks, hopen] at hsettled
  exact absurd hsettled (by decide)

end KernelRuntime.AgentLoop
