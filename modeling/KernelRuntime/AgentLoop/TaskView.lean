import KernelRuntime.AgentLoop.ApprovalFlag
import KernelRuntime.AgentLoop.Continuation
import KernelRuntime.Foundations.Transcript

/-! # What the world holds of one task

The rows of a task, read as a transcript of tool calls and tool messages, and its events on the two
streams. A step that is about another task leaves them as they are. -/

namespace KernelRuntime
open Transcript
set_option autoImplicit false

/-! ## Messages as entries -/

def itemOf (role : String) (toolCallId : Option String) (toolCalls : List ToolCall) : Item String :=
  if role = "tool" then .answer toolCallId
  else if role = "assistant" ∧ toolCalls ≠ [] then .calls (toolCalls.map ToolCall.id)
  else .plain

/-- An entry of the list that the model is given. -/
def ContextEntry.item (e : ContextEntry) : Item String := itemOf e.role e.toolCallId e.toolCalls

/-- The entry that a row becomes. -/
def MessageModel.item (r : MessageModel) : Item String :=
  itemOf r.role (truthyText r.toolCallId) r.toolCalls

def Turn.item (turn : Turn) : Item String := itemOf turn.role (truthyText turn.toolCallId) turn.toolCalls

theorem map_item_stored {sessionId tenantId : String} {turns : List Turn} {rows : List MessageModel}
    (h : List.Forall₂ (fun turn => Turn.StoredAs turn sessionId tenantId) turns rows) :
    rows.map MessageModel.item = turns.map Turn.item := by
  induction h with
  | nil => rfl
  | cons hstored _ ih =>
    rw [List.map_cons, List.map_cons, ih]
    unfold MessageModel.item Turn.item
    rw [hstored.role, hstored.toolCallId, hstored.toolCalls]

namespace AgentLoop
open Approval

theorem PlainTurn.item_eq {target : Target} {turn : Turn} (h : PlainTurn target turn) :
    turn.item = .plain := by
  unfold Turn.item itemOf
  rw [if_neg h.role, if_neg fun hcalls => hcalls.2 h.toolCalls]

theorem map_item_plain {target : Target} {turns : List Turn}
    (h : ∀ turn ∈ turns, PlainTurn target turn) : ∀ i ∈ turns.map Turn.item, i = .plain := by
  intro i hi
  obtain ⟨turn, hturn, rfl⟩ := List.mem_map.mp hi
  exact (h turn hturn).item_eq

theorem item_assistantTurn (taskId : Option String) (content : String) {calls : List ToolCall}
    (hcalls : calls ≠ []) :
    (assistantTurn taskId content calls).item = .calls (calls.map ToolCall.id) := by
  unfold Turn.item itemOf
  rw [if_neg (by simp [assistantTurn]), if_pos ⟨rfl, hcalls⟩]
  rfl

theorem map_item_reports {event : ToolEvent} {calls : List (ToolSpec × CallResult)}
    {turns : List Turn} (h : List.Forall₂ (Reports event) calls turns) :
    turns.map Turn.item = calls.map fun c => .answer (truthyText c.1.id) := by
  induction h with
  | nil => rfl
  | cons hreport _ ih =>
    rw [List.map_cons, List.map_cons, ih]
    unfold Turn.item itemOf
    rw [if_pos hreport.role, hreport.toolCallId]

/-! ## The view -/

section View
variable (taskId : Option String) (w : World)

def taskRows : List MessageModel := w.db.messages.filter fun r => decide (r.taskId = taskId)

def transcript : List (Item String) := (taskRows taskId w).map MessageModel.item

def taskThinks : List (StreamMessage ThinkEvent) :=
  w.taskQueue.filter fun m => decide (m.data.taskId = taskId)

def taskEvents : List (StreamMessage ToolEvent) :=
  w.executionQueue.filter fun m => decide (m.data.taskId = taskId)

end View

/-- What a step leaves of a task that it neither continues nor executes for. -/
structure Unaffected (taskId : Option String) (w w' : World) : Prop where
  born : (∃ t ∈ w'.db.tasks, some t.id = taskId) ↔ ∃ t ∈ w.db.tasks, some t.id = taskId
  transcript : transcript taskId w' = transcript taskId w
  sessions : (taskRows taskId w').map MessageModel.sessionId = (taskRows taskId w).map MessageModel.sessionId
  waiting : waitingRows taskId w'.db.messages ≤ waitingRows taskId w.db.messages
  thinks : taskThinks taskId w' = taskThinks taskId w
  events : taskEvents taskId w' = taskEvents taskId w
  dead : ∀ m ∈ w.deadLetters, m ∈ w'.deadLetters

theorem Unaffected.of_messages {taskId : Option String} {w w' : World}
    (hborn : (∃ t ∈ w'.db.tasks, some t.id = taskId) ↔ ∃ t ∈ w.db.tasks, some t.id = taskId)
    (rows : List MessageModel) (hmessages : w'.db.messages = w.db.messages ++ rows)
    (hrows : ∀ r ∈ rows, r.taskId ≠ taskId) (hthinks : taskThinks taskId w' = taskThinks taskId w)
    (hevents : taskEvents taskId w' = taskEvents taskId w)
    (hdead : ∀ m ∈ w.deadLetters, m ∈ w'.deadLetters) : Unaffected taskId w w' := by
  have hnone : rows.filter (fun r => decide (r.taskId = taskId)) = [] := by
    rw [List.filter_eq_nil_iff]
    intro r hr
    simp [hrows r hr]
  have htaskRows : taskRows taskId w' = taskRows taskId w := by
    unfold taskRows
    rw [hmessages, List.filter_append, hnone, List.append_nil]
  refine ⟨hborn, ?_, by rw [htaskRows], ?_, hthinks, hevents, hdead⟩
  · unfold AgentLoop.transcript
    rw [htaskRows]
  · rw [hmessages, waitingRows_append, waitingRows_eq_zero hrows, Nat.add_zero]

theorem stored_turns {db db' : Database} (hflushed : db.flushed = []) {next : Sequencer}
    {sessionId : String} {turns : List Turn} (hdb : db' = (db.addTurns next sessionId turns).commit) :
    ∃ rows, db'.messages = db.messages ++ rows ∧
      List.Forall₂ (fun turn => Turn.StoredAs turn sessionId (db.tenantOf sessionId)) turns rows :=
  ⟨_, by rw [hdb, Database.messages_commit_addTurns hflushed], db.newRows_storedAs next sessionId turns⟩

/-- What is not selected may join the end of a stream. -/
theorem rows_stored {taskId : Option String} {w w' : World} {turns : List Turn} {sessionId tenantId : String} {rows : List MessageModel}
    (hturns : ∀ turn ∈ turns, turn.taskId = taskId)
    (hstored : List.Forall₂ (fun turn => Turn.StoredAs turn sessionId tenantId) turns rows)
    (hmessages : w'.db.messages = w.db.messages ++ rows) :
    taskRows taskId w' = taskRows taskId w ++ rows := by
  unfold taskRows
  rw [hmessages, List.filter_append, List.filter_eq_self.mpr fun r hr =>
    decide_eq_true (mem_rows_taskId hturns hstored r hr).1]

theorem filter_joined {α : Type} {p : α → Bool} (queue : List α) {joined : List α}
    (h : ∀ a ∈ joined, p a = false) : (queue ++ joined).filter p = queue.filter p := by
  have hnone : joined.filter p = [] := by
    rw [List.filter_eq_nil_iff]
    intro a ha
    simp [h a ha]
  rw [List.filter_append, hnone, List.append_nil]

/-- The turns of a thought: they are the task's, and none waits for a decision. -/
theorem Response.turns_of_task {env : Env} {target : Target} {calls : List ToolCall} {before turns : List Turn}
    {batches : List ToolEvent} (hplain : ∀ turn ∈ before, PlainTurn target turn)
    (h : Response env target calls turns batches) :
    ∀ turn ∈ before ++ turns, turn.taskId = target.taskId ∧ turn.metadata = none := by
  intro turn hturn
  rcases List.mem_append.mp hturn with hturn | hturn
  · exact ⟨(hplain turn hturn).taskId, (hplain turn hturn).metadata⟩
  · cases h with
    | final last hlast =>
      rw [List.mem_singleton.mp hturn]
      exact ⟨hlast.taskId, hlast.metadata⟩
    | batch content payload =>
      rw [List.mem_singleton.mp hturn]
      exact ⟨rfl, rfl⟩
    | invalid content last bad hpayload hlast =>
      rcases List.mem_cons.mp hturn with rfl | hturn
      · exact ⟨rfl, rfl⟩
      · rw [List.mem_singleton.mp hturn]
        exact ⟨hlast.taskId, hlast.metadata⟩

theorem Response.batch_taskId {env : Env} {target : Target} {calls : List ToolCall} {turns : List Turn}
    {batches : List ToolEvent} (h : Response env target calls turns batches) :
    ∀ batch ∈ batches, batch.taskId = target.taskId := by
  cases h with
  | batch content payload => simp [batchEvent]
  | _ => exact nofun

section Other
variable {env : Env} {taskId : Option String} {w w' : World}

theorem unaffected_touched {message : StreamMessage ToolEvent}
    {queue : List (StreamMessage ToolEvent)} (hclean : w.Clean)
    (hqueue : w.executionQueue = message :: queue) (h : Touched env message.data queue w w')
    (htask : message.data.taskId ≠ taskId) : Unaffected taskId w w' := by
  obtain ⟨turns, hturns, hdb⟩ := h.db
  obtain ⟨thinks, hthinks, hcontinue⟩ := h.taskQueue
  obtain ⟨events, hevents, hsame⟩ := h.executionQueue
  obtain ⟨dead, hdead, _⟩ := h.deadLetters
  obtain ⟨rows, hmessages, hstored⟩ := stored_turns hclean.flushed hdb
  refine .of_messages ?_ rows hmessages ?_ ?_ ?_ ?_
  · have htasks : w'.db.tasks = w.db.tasks := by
      rw [hdb]
      exact Database.tasks_addTurns _ _ _ _
    rw [htasks]
  · intro r hr heq
    exact htask ((mem_rows_taskId hturns hstored r hr).1.symm.trans heq)
  · unfold taskThinks
    rw [hthinks]
    refine filter_joined w.taskQueue fun m hm => ?_
    rw [hcontinue m hm]
    exact decide_eq_false htask
  · unfold taskEvents
    rw [hevents, hqueue, List.filter_cons_of_neg (by simp [htask])]
    exact filter_joined queue fun m hm => decide_eq_false fun heq => htask ((hsame m hm).1.symm.trans heq)
  · intro m hm
    rw [hdead]
    exact List.mem_append_left _ hm

theorem filter_retry {message : StreamMessage ThinkEvent} (htask : message.data.taskId ≠ taskId)
    (queue dead : List (StreamMessage ThinkEvent)) :
    (retry message queue dead).1.filter (fun m => decide (m.data.taskId = taskId)) =
      queue.filter fun m => decide (m.data.taskId = taskId) := by
  unfold retry
  simp only
  split_ifs
  · rfl
  · refine filter_joined queue fun m hm => ?_
    rw [List.mem_singleton.mp hm]
    exact decide_eq_false htask

theorem exists_id_congr {tasks tasks' : List TaskModel}
    (h : tasks'.map TaskModel.id = tasks.map TaskModel.id) :
    (∃ t ∈ tasks', some t.id = taskId) ↔ ∃ t ∈ tasks, some t.id = taskId := by
  have hmem : ∀ tasks : List TaskModel, (∃ t ∈ tasks, some t.id = taskId) ↔
      ∃ id ∈ tasks.map TaskModel.id, some id = taskId := by
    intro tasks
    simp
  rw [hmem, hmem, h]

theorem unaffected_thought {target : Target} {s : SessionModel} {asks : Prop} {reply : ProviderReply}
    {message : StreamMessage ThinkEvent} {queue : List (StreamMessage ThinkEvent)} (hclean : w.Clean)
    (hqueue : w.taskQueue = message :: queue)
    (h : Thought env target s asks reply message queue w w')
    (htarget : target.taskId = message.data.taskId) (htask : message.data.taskId ≠ taskId) :
    Unaffected taskId w w' := by
  have htask' : target.taskId ≠ taskId := htarget ▸ htask
  have hrest : taskThinks taskId w = queue.filter fun m => decide (m.data.taskId = taskId) := by
    unfold taskThinks
    rw [hqueue, List.filter_cons_of_neg (by simp [htask])]
  have hdead : ∀ m ∈ w.deadLetters, m ∈ w'.deadLetters := by
    rw [h.deadLetters]
    exact fun _ hm => hm
  rcases h.outcome with ⟨tasks, before, turns, batches, calls, hids, hplain, _, hresponse, _, hdb, hthinks,
    hevents, _⟩ | ⟨tasks, before, calls, _, _, hdb, hretry, hevents, _⟩
  · have hflushed : (w.withTasks tasks).db.flushed = [] := hclean.flushed
    obtain ⟨rows, hmessages, hstored⟩ := stored_turns hflushed hdb
    have hturns := hresponse.turns_of_task hplain
    refine .of_messages ?_ rows hmessages ?_ ?_ ?_ hdead
    · have htasks : w'.db.tasks = tasks := by
        rw [hdb]
        exact Database.tasks_addTurns _ _ _ _
      rw [htasks]
      exact exists_id_congr hids
    · intro r hr heq
      exact htask' ((mem_rows_taskId (fun turn h => (hturns turn h).1) hstored r hr).1.symm.trans heq)
    · rw [hrest, ← hthinks]
      rfl
    · unfold taskEvents
      rw [hevents]
      refine filter_joined w.executionQueue fun m hm => ?_
      obtain ⟨batch, hbatch, rfl⟩ := List.mem_map.mp hm
      exact decide_eq_false fun heq => htask' ((hresponse.batch_taskId batch hbatch).symm.trans heq)
  · have hthinks : w'.taskQueue = (retry message queue w.deadThinks).1 := (congrArg Prod.fst hretry)
    refine .of_messages ?_ [] ?_ nofun ?_ ?_ hdead
    · rw [hdb]
    · rw [hdb, List.append_nil]
    · rw [hrest, ← filter_retry htask queue w.deadThinks, ← hthinks]
      rfl
    · unfold taskEvents
      rw [hevents]

/-! ## The chat -/

theorem unaffected_chat {tenantId id : String} {req : ChatRequest}
    (hstep : sendChatMessage tenantId id req w = some w') (hid : some id ≠ taskId) :
    Unaffected taskId w w' := by
  unfold sendChatMessage at hstep
  split_ifs at hstep
  · obtain rfl := Option.some.inj hstep
    refine .of_messages ?_ [] (List.append_nil _).symm nofun ?_ rfl fun _ hm => hm
    · show (∃ t ∈ w.db.tasks ++ [_], some t.id = taskId) ↔ _
      simp [hid]
    · exact filter_joined w.taskQueue fun m hm => by
        rw [List.mem_singleton.mp hm]
        exact decide_eq_false hid
  · obtain rfl := Option.some.inj hstep
    exact ⟨Iff.rfl, rfl, rfl, le_rfl, rfl, rfl, fun _ hm => hm⟩

/-! ## Decisions -/

/-- A decision changes nothing but the metadata of a row. -/
theorem map_decideRow {α : Type} (f : MessageModel → α)
    (hf : ∀ r metadata, f { r with extraMetadata := metadata } = f r) (db : Database)
    (req : ApprovalRequest) (metadata : ApprovalMetadata) :
    (decideRow db req metadata).messages.map f = db.messages.map f := by
  show (db.messages.replaceF _).map f = _
  induction db.messages with
  | nil => rfl
  | cons r rows ih =>
    rw [List.replaceF]
    split_ifs with hmatches
    · rw [List.map_cons, List.map_cons, hf]
    · rw [List.map_cons, List.map_cons, ih]

theorem map_filter_decideRow {α : Type} (f : MessageModel → α)
    (hf : ∀ r metadata, f { r with extraMetadata := metadata } = f r) (taskId : Option String)
    (db : Database) (req : ApprovalRequest) (metadata : ApprovalMetadata) :
    ((decideRow db req metadata).messages.filter fun r => decide (r.taskId = taskId)).map f =
      (db.messages.filter fun r => decide (r.taskId = taskId)).map f := by
  have hkeys := map_decideRow (fun r => (r.taskId, f r)) (fun r m => by rw [hf]) db req metadata
  have hselect : ∀ rows : List MessageModel,
      (rows.filter fun r => decide (r.taskId = taskId)).map f =
        ((rows.map fun r => (r.taskId, f r)).filter fun k => decide (k.1 = taskId)).map Prod.snd := by
    intro rows
    rw [List.filter_map, List.map_map]
    rfl
  rw [hselect, hselect, hkeys]

theorem transcript_decision (taskId : Option String) {req : ApprovalRequest} (h : Decision req w w') :
    transcript taskId w' = transcript taskId w ∧
      (taskRows taskId w').map MessageModel.sessionId = (taskRows taskId w).map MessageModel.sessionId := by
  cases h with
  | nothing => exact ⟨rfl, rfl⟩
  | denied message m => exact ⟨map_filter_decideRow _ (fun _ _ => rfl) _ _ _ _, map_filter_decideRow _ (fun _ _ => rfl) _ _ _ _⟩
  | approved message m args =>
    exact ⟨map_filter_decideRow _ (fun _ _ => rfl) _ _ _ _, map_filter_decideRow _ (fun _ _ => rfl) _ _ _ _⟩

theorem unaffected_decision {req : ApprovalRequest} (h : Decision req w w')
    (hother : ∀ message m, PendingAt w req message m → message.taskId = taskId →
      req.decision = "denied") : Unaffected taskId w w' := by
  obtain ⟨htranscript, hsessions⟩ := transcript_decision taskId h
  cases h with
  | nothing => exact ⟨Iff.rfl, rfl, rfl, le_rfl, rfl, rfl, fun _ hm => hm⟩
  | denied message m hpending =>
    have hwaiting := waitingRows_decideRow taskId hpending { m with status := .denied } (by simp)
    refine ⟨Iff.rfl, htranscript, hsessions, ?_, rfl, rfl, fun _ hm => hm⟩
    show waitingRows taskId (decideRow w.db req _).messages ≤ _
    omega
  | approved message m args hpending hdecision =>
    have hwaiting := waitingRows_decideRow taskId hpending { m with status := .approved, args := args }
      (by simp)
    have htask : message.taskId ≠ taskId := fun heq => hdecision (hother message m hpending heq)
    refine ⟨Iff.rfl, htranscript, hsessions, ?_, rfl, ?_, fun _ hm => hm⟩
    · show waitingRows taskId (decideRow w.db req _).messages ≤ _
      omega
    · exact filter_joined w.executionQueue fun m hm => by
        rw [List.mem_singleton.mp hm]
        exact decide_eq_false htask

end Other

end AgentLoop
end KernelRuntime
