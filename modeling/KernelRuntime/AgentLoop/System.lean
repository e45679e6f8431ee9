import KernelRuntime.AgentLoop.BrainEffects
import KernelRuntime.AgentLoop.Delivery
import KernelRuntime.Api.Approval

/-! # The agent loop as a system

Four things happen to the world: a user sends a message, the brain takes an event from `task_queue`,
the tool worker takes one from `execution_queue`, and a user decides on a call that waits. They come
in any order; each is taken to its end. -/

namespace KernelRuntime.AgentLoop
open Approval
set_option autoImplicit false

/-! ## The chat endpoint -/

structure ChatRequest where
  sessionId : String
  message : String
  shadowMode : Bool
  activeModelId : Option String
deriving DecidableEq

def ChatRequest.contextOf (req : ChatRequest) (context : Fields) : Fields :=
  let context := assocSet "shadow_mode" (.bool req.shadowMode) context
  match truthyText req.activeModelId with
  | some id => assocSet "active_model_id" (.str id) context
  | none => context

/-- What a unit of work of the API leaves. -/
def World.store (w : World) (db : Database) : World := { w with db := db, committed := db }

/-- The new task, and the session with the settings of the request. -/
def ChatRequest.record (req : ChatRequest) (tenantId taskId : String) (db : Database) : Database :=
  { db with
    sessions := db.sessions.map fun s =>
      if s.id = req.sessionId ∧ s.tenantId = tenantId then { s with context := req.contextOf s.context }
      else s
    tasks := db.tasks ++ [⟨taskId, tenantId, req.sessionId, req.message, "pending", 0⟩] }

/-- `send_chat_message`, for a request within the rate limit. The task gets an id that no task
has. -/
def sendChatMessage (tenantId taskId : String) (req : ChatRequest) (w : World) : Option World :=
  if taskId ≠ "" ∧ ∀ t ∈ w.db.tasks, t.id ≠ taskId then
    if w.db.sessions.any fun s => decide (s.id = req.sessionId ∧ s.tenantId = tenantId) then
      some ((w.store (req.record tenantId taskId w.db)).putThink
        ⟨some taskId, req.sessionId, req.message, some tenantId⟩)
    else some w
  else none

/-! ## The approval endpoint -/

/-- The row that the query of a request finds. -/
def Matches (req : ApprovalRequest) (m : MessageModel) : Prop :=
  m.id = req.messageId ∧ m.sessionId = req.sessionId ∧ m.tenantId = req.tenantId

instance (req : ApprovalRequest) (m : MessageModel) : Decidable (Matches req m) :=
  inferInstanceAs (Decidable (_ ∧ _ ∧ _))

def findMessage (db : Database) (req : ApprovalRequest) : Option MessageModel :=
  db.messages.find? fun m => decide (Matches req m)

/-- The row found gets the metadata of the decision. -/
def decideRow (db : Database) (req : ApprovalRequest) (metadata : ApprovalMetadata) : Database :=
  { db with messages := db.messages.replaceF fun m =>
      if Matches req m then some { m with extraMetadata := some metadata } else none }

def World.publishAll (w : World) : Option ToolEvent → World
  | some event => w.putTools event
  | none => w

/-- `approve_tool_call`, from the query to the publication. A request that finds no pending row, or
fails on its arguments, changes nothing. -/
def approveToolCall (req : ApprovalRequest) (w : World) : World :=
  match findMessage w.db req with
  | none => w
  | some message =>
    match req.pending message with
    | none => w
    | some m =>
      match decideCall req message m with
      | .error _ => w
      | .ok outcome => (w.store (decideRow w.db req outcome.metadata)).publishAll outcome.event

/-! ## The brain's subscription -/

def World.retryThink (w : World) (message : StreamMessage ThinkEvent) : World :=
  { w with
    taskQueue := (retry message w.taskQueue w.deadThinks).1
    deadThinks := (retry message w.taskQueue w.deadThinks).2 }

/-- One message of `task_queue` is delivered. -/
def deliverThink (env : Env) (run : BrainRun) (w : World) : Option World :=
  match w.taskQueue with
  | [] => none
  | message :: queue =>
    match processTaskEvent env message.data run { w with taskQueue := queue } with
    | .ok () w' => some w'.close
    | .error _ w' => some (w'.close.retryThink message)

/-! ## Steps -/

inductive Label where
  | chat (tenantId taskId : String) (req : ChatRequest)
  | think (run : BrainRun)
  | executeTools
  | approve (req : ApprovalRequest)

def step (env : Env) (w : World) : Label → Option World
  | .chat tenantId taskId req => sendChatMessage tenantId taskId req w
  | .think run => deliverThink env run w
  | .executeTools => deliverTools env w
  | .approve req => some (approveToolCall req w)

/-! ## What the steps do -/

/-- A delivery to the brain for an existing session. -/
structure Thought (env : Env) (target : Target) (session : SessionModel) (asks : Prop)
    (reply : ProviderReply) (message : StreamMessage ThinkEvent)
    (queue : List (StreamMessage ThinkEvent)) (w w' : World) : Prop where
  clean : w'.Clean
  executed : w'.executed = w.executed
  deadLetters : w'.deadLetters = w.deadLetters
  outcome :
    (∃ tasks before turns batches calls, tasks.map TaskModel.id = w.db.tasks.map TaskModel.id ∧
      (∀ turn ∈ before, PlainTurn target turn) ∧
      (calls ≠ [] → before.length = rowsBefore w.db target message.data.description) ∧
      Response env target (heard reply calls) turns batches ∧
      Asked asks ⟨target.taskId, conversation env target session
        ((w.withTasks tasks).db.addTurns env.nextSequence target.sessionId before)⟩ calls ∧
      w'.db = ((w.withTasks tasks).db.addTurns env.nextSequence target.sessionId
        (before ++ turns)).commit ∧
      w'.taskQueue = queue ∧
      w'.executionQueue = w.executionQueue ++ batches.map (fun b => ⟨w.nextMessage, b, 0⟩) ∧
      w'.llmCalls = w.llmCalls ++ calls) ∨
    (∃ tasks before calls, (∀ turn ∈ before, PlainTurn target turn) ∧
      Asked asks ⟨target.taskId, conversation env target session
        ((w.withTasks tasks).db.addTurns env.nextSequence target.sessionId before)⟩ calls ∧
      w'.db = w.db ∧
      (w'.taskQueue, w'.deadThinks) = retry message queue w.deadThinks ∧
      w'.executionQueue = w.executionQueue ∧
      w'.llmCalls = w.llmCalls ++ calls)

theorem Thought.asked {env : Env} {target : Target} {s : SessionModel} {asks : Prop} {reply : ProviderReply}
    {message : StreamMessage ThinkEvent} {queue : List (StreamMessage ThinkEvent)} {w w' : World}
    (h : Thought env target s asks reply message queue w w') : ∃ tasks before calls,
      (∀ turn ∈ before, PlainTurn target turn) ∧
      Asked asks ⟨target.taskId, conversation env target s
        ((w.withTasks tasks).db.addTurns env.nextSequence target.sessionId before)⟩ calls ∧
      w'.llmCalls = w.llmCalls ++ calls := by
  rcases h.outcome with ⟨tasks, before, _, _, calls, _, hplain, _, _, hasked, _, _, _, hcalls⟩ |
    ⟨tasks, before, calls, hplain, hasked, _, _, _, hcalls⟩
  · exact ⟨tasks, before, calls, hplain, hasked, hcalls⟩
  · exact ⟨tasks, before, calls, hplain, hasked, hcalls⟩

theorem deliverThink_spec (env : Env) (run : BrainRun) {w : World} {message : StreamMessage ThinkEvent}
    {queue : List (StreamMessage ThinkEvent)} {session : SessionModel} (hw : w.Clean)
    (hqueue : w.taskQueue = message :: queue)
    (hsession : loadSession w.db message.data.sessionId message.data.tenantId = some session) :
    let target : Target := ⟨message.data.taskId, message.data.sessionId, session.tenantId⟩
    ∃ w', deliverThink env.reliable run w = some w' ∧
      Thought env target session (WithinLimit w.db target ∧ AsksModel env session run) run.reply message
        queue w w' := by
  intro target
  have hstart : ({ w with taskQueue := queue } : World).usable = true := hw.usable
  have hends := processTaskEvent_ends env run hstart hsession
  unfold deliverThink
  rw [hqueue]
  simp only
  rcases hends.cases with ⟨_, w₁, hrun, tasks, hids, before, turns, batches, calls, hplain, hlength,
    hresponse, hasked, hwrote⟩ | ⟨e, w₁, hrun, tasks, before, calls, hplain, hasked, hpending⟩
  · rw [hrun]
    have hdb : w₁.close.db = ((w.withTasks tasks).db.addTurns env.nextSequence target.sessionId
        (before ++ turns)).commit := hwrote.committed.trans hwrote.db
    refine ⟨_, rfl, ⟨rfl, rfl, ?_⟩, hwrote.executed, hwrote.deadLetters, Or.inl ?_⟩
    · rw [hdb]
      rfl
    · exact ⟨tasks, before, turns, batches, calls, hids, hplain, hlength, hresponse, hasked, hdb,
        hwrote.taskQueue, hwrote.executionQueue, hwrote.llmCalls⟩
  · rw [hrun]
    have hdb : w₁.close.db = w.db := hpending.committed.trans hw.committed
    refine ⟨_, rfl, ⟨rfl, rfl, ?_⟩, hpending.executed, hpending.deadLetters, Or.inr ?_⟩
    · show w₁.close.db.flushed = []
      rw [hdb]
      exact hw.flushed
    · refine ⟨tasks, before, calls, hplain, hasked, hdb, ?_, hpending.executionQueue, hpending.llmCalls⟩
      show retry message w₁.taskQueue w₁.deadThinks = _
      rw [hpending.taskQueue, hpending.deadThinks]
      rfl

/-- Every delivery to the brain: when the model is asked, then for the session that was loaded. -/
theorem deliverThink_thought (env : Env) (run : BrainRun) {w : World}
    {message : StreamMessage ThinkEvent} {queue : List (StreamMessage ThinkEvent)} (hw : w.Clean)
    (hqueue : w.taskQueue = message :: queue) : ∃ target session asks w',
      deliverThink env.reliable run w = some w' ∧ target.taskId = message.data.taskId ∧
      target.sessionId = message.data.sessionId ∧
      Thought env target session asks run.reply message queue w w' ∧
      (asks → loadSession w.db message.data.sessionId message.data.tenantId = some session ∧
        target.tenantId = session.tenantId ∧ WithinLimit w.db target ∧ AsksModel env session run) := by
  cases hsession : loadSession w.db message.data.sessionId message.data.tenantId with
  | some session =>
    obtain ⟨w', hrun, hthought⟩ := deliverThink_spec env run hw hqueue hsession
    exact ⟨⟨message.data.taskId, message.data.sessionId, session.tenantId⟩, session, _, w', hrun, rfl,
      rfl, hthought, fun hasks => ⟨rfl, rfl, hasks⟩⟩
  | none =>
    have hstart : ({ w with taskQueue := queue } : World).usable = true := hw.usable
    have hends : Ends (processTaskEvent env.reliable message.data run) { w with taskQueue := queue }
        _ (fun _ _ => False) := processTaskEvent_missing hstart hsession
    rcases hends.cases with ⟨_, w₁, hrun, turns, batches, hresponse, hwrote⟩ | ⟨_, _, _, hfalse⟩
    · refine ⟨_, ⟨"", "", "", [], "", []⟩, False, w₁.close, ?_, rfl, rfl, ⟨⟨rfl, rfl, ?_⟩, hwrote.executed,
        hwrote.deadLetters, Or.inl ⟨w.db.tasks, [], turns, batches, [], rfl, no_plain _,
          fun h => absurd rfl h, hresponse, Or.inl rfl, hwrote.committed.trans hwrote.db, hwrote.taskQueue, hwrote.executionQueue,
          hwrote.llmCalls⟩⟩, False.elim⟩
      · unfold deliverThink
        rw [hqueue]
        simp only
        rw [hrun]
      · show w₁.committed.flushed = []
        rw [hwrote.committed, hwrote.db]
        rfl
    · exact hfalse.elim

theorem deliverThink_inv {env : Env} {run : BrainRun} {w w' : World} (hw : w.Clean)
    (hstep : deliverThink env.reliable run w = some w') : ∃ message queue target session asks,
      w.taskQueue = message :: queue ∧ target.taskId = message.data.taskId ∧
      target.sessionId = message.data.sessionId ∧
      Thought env target session asks run.reply message queue w w' ∧
      (asks → loadSession w.db message.data.sessionId message.data.tenantId = some session ∧
        target.tenantId = session.tenantId ∧ WithinLimit w.db target ∧ AsksModel env session run) := by
  cases hqueue : w.taskQueue with
  | nil =>
    unfold deliverThink at hstep
    rw [hqueue] at hstep
    cases hstep
  | cons message queue =>
    obtain ⟨target, session, asks, w'', hrun, hthought⟩ := deliverThink_thought env run hw hqueue
    obtain rfl := Option.some.inj (hrun.symm.trans hstep)
    exact ⟨message, queue, target, session, asks, rfl, hthought⟩

/-! ## What a request of the approval endpoint does -/

theorem countP_replaceF {α : Type} (p : α → Bool) (q : α → Prop) [DecidablePred q] (g : α → α)
    (l : List α) {a : α} (ha : l.find? (fun x => decide (q x)) = some a) :
    (l.replaceF fun x => if q x then some (g x) else none).countP p + (if p a then 1 else 0) =
      l.countP p + (if p (g a) then 1 else 0) := by
  induction l with
  | nil => cases ha
  | cons x l ih =>
    rw [List.find?_cons] at ha
    by_cases hq : q x
    · simp only [hq, decide_true] at ha
      obtain rfl := Option.some.inj ha
      simp only [List.replaceF, hq, if_true, List.countP_cons]
      omega
    · simp only [hq, decide_false] at ha
      have h := ih ha
      simp only [List.replaceF, hq, List.countP_cons, if_false] at h ⊢
      omega

/-- The pending row of a request. -/
def PendingAt (w : World) (req : ApprovalRequest) (message : MessageModel) (m : ApprovalMetadata) :
    Prop :=
  findMessage w.db req = some message ∧ req.pending message = some m

/-- The three things a request can do. -/
inductive Decision (req : ApprovalRequest) (w : World) : World → Prop
  | nothing (h : ∀ message m, PendingAt w req message m → ∀ outcome,
      decideCall req message m ≠ .ok outcome) : Decision req w w
  | denied (message : MessageModel) (m : ApprovalMetadata) (hpending : PendingAt w req message m)
      (hdecision : req.decision = "denied") :
      Decision req w (w.store (decideRow w.db req { m with status := .denied }))
  | approved (message : MessageModel) (m : ApprovalMetadata) (args : Json)
      (hpending : PendingAt w req message m) (hdecision : req.decision ≠ "denied") :
      Decision req w ((w.store (decideRow w.db req { m with status := .approved, args := args })).putTools
        ⟨.executeTool, message.taskId, req.sessionId, [⟨message.toolCallId, m.toolName, args⟩],
          some req.tenantId⟩)

theorem approveToolCall_decision (req : ApprovalRequest) (w : World) :
    Decision req w (approveToolCall req w) := by
  unfold approveToolCall
  cases hfind : findMessage w.db req with
  | none =>
    refine .nothing fun message m h => ?_
    rw [h.1] at hfind
    cases hfind
  | some message =>
    simp only
    cases hpending : req.pending message with
    | none =>
      refine .nothing fun message' m h => ?_
      obtain rfl := Option.some.inj (hfind.symm.trans h.1)
      rw [h.2] at hpending
      cases hpending
    | some m =>
      simp only
      by_cases hdecision : req.decision = "denied"
      · simp only [decideCall, hdecision, if_true]
        exact .denied message m ⟨hfind, hpending⟩ hdecision
      · cases hset : setItem m.args "__approved__" (.bool true) with
        | error e =>
          have herror : decideCall req message m = .error e := by
            simp only [decideCall, hdecision, if_false, hset]
            rfl
          rw [herror]
          refine .nothing fun message' m' h outcome => ?_
          obtain rfl := Option.some.inj (hfind.symm.trans h.1)
          obtain rfl := Option.some.inj (hpending.symm.trans h.2)
          rw [herror]
          rintro ⟨⟩
        | ok args =>
          have hok : decideCall req message m = .ok ⟨{ m with status := .approved, args := args },
              some ⟨.executeTool, message.taskId, req.sessionId, [⟨message.toolCallId, m.toolName, args⟩],
                some req.tenantId⟩⟩ := by
            simp only [decideCall, hdecision, if_false, hset]
            rfl
          rw [hok]
          exact .approved message m args ⟨hfind, hpending⟩ hdecision

theorem pendingAt_spec {w : World} {req : ApprovalRequest} {message : MessageModel}
    {m : ApprovalMetadata} (h : PendingAt w req message m) :
    message ∈ w.db.messages ∧ Matches req message ∧ message.extraMetadata = some m ∧
      m.status = .needsApproval := by
  obtain ⟨hfind, hpending⟩ := h
  have hmatches : Matches req message := by simpa using List.find?_some hfind
  unfold ApprovalRequest.pending at hpending
  rw [if_pos ⟨hmatches.1, hmatches.2.1, hmatches.2.2⟩, Option.filter_eq_some_iff] at hpending
  exact ⟨List.mem_of_find?_eq_some hfind, hmatches, hpending.1, of_decide_eq_true hpending.2⟩

end KernelRuntime.AgentLoop
