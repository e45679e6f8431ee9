import KernelRuntime.AgentLoop.TaskHome

/-! # The transcript that the model is given

The brain stores the calls of a reply, the tool worker one message for each, and the context is cut
after its first rows. A task that thinks has a closed transcript. It stays closed unless an approved
call is answered a second time, or a reply's calls are cut off or have no ids to tell them apart. -/

namespace KernelRuntime.AgentLoop
open Approval Transcript
set_option autoImplicit false

/-- Every call of the provider for the task has a well-formed conversation. -/
def WellFormedCalls (taskId : Option String) (w : World) : Prop :=
  ∀ c ∈ w.llmCalls, c.taskId = taskId → WellFormed (c.messages.map ContextEntry.item)

/-- Calls that are stored at a position within the window are within it together with their answers,
and each has an id of its own. -/
def Fits (calls : List ToolCall) (position : ℕ) : Prop :=
  position < maxTurns → position + calls.length < maxTurns ∧ (calls.map ToolCall.id).Nodup ∧
    ∀ tc ∈ calls, truthyText tc.id ≠ none

/-- A batch of the task waits for a delivery, or was given up. -/
def Unfinished (taskId : Option String) (w : World) : Prop :=
  ∃ m ∈ w.executionQueue ++ w.deadLetters, m.data.taskId = taskId ∧
    m.data.eventType = .executeToolBatch

/-- The calls of a reply that is processed for the task fit. A call of the task is approved only when
the window is full, and if a batch is unfinished then behind the window. -/
def PairingOk (env : Env) (taskId : Option String) (w : World) : Label → Prop
  | .think run => ∀ message queue session, w.taskQueue = message :: queue →
      message.data.taskId = taskId →
      loadSession w.db message.data.sessionId message.data.tenantId = some session →
      let target : Target := ⟨message.data.taskId, message.data.sessionId, session.tenantId⟩
      WithinLimit w.db target → AsksModel env session run →
      (∃ payload, payloadOf env run.reply.calls = .ok payload) →
      Fits run.reply.calls
        ((transcript taskId w).length + rowsBefore w.db target message.data.description)
  | .approve req => ∀ message m, PendingAt w req message m → message.taskId = taskId →
      req.decision ≠ "denied" → maxTurns ≤ (transcript taskId w).length ∧
        (Unfinished taskId w → ∃ i ∈ (transcript taskId w).drop maxTurns, i.isCalls = true)
  | _ => True

/-! ## The phases of a task -/

/-- The ids that the tool messages of an event will have. -/
def answerIds (tools : List ToolSpec) : List (Option String) := tools.map fun spec => truthyText spec.id

/-- A batch whose message is stored, within the window, and whose calls are not answered yet. -/
structure Dispatched (message : StreamMessage ToolEvent) (before : List (Item String)) : Prop where
  closed : Closed before
  eventType : message.data.eventType = .executeToolBatch
  tools : message.data.tools ≠ []
  fits : before.length + message.data.tools.length < maxTurns
  nodup : (answerIds message.data.tools).Nodup
  named : none ∉ answerIds message.data.tools

inductive Phase (env : Env) (session : SessionModel) (taskId : Option String) (w : World) : Prop
  /-- The model does not see what comes any more. -/
  | full (hlength : maxTurns ≤ (transcript taskId w).length)
      (hclosed : Closed ((transcript taskId w).take maxTurns))
  /-- Nothing is under way, but calls may wait for an approval. -/
  | quiet (hclosed : Closed (transcript taskId w)) (hlength : (transcript taskId w).length < maxTurns)
      (hthinks : taskThinks taskId w = []) (hevents : taskEvents taskId w = [])
  | thinking (message : StreamMessage ThinkEvent) (hclosed : Closed (transcript taskId w))
      (hlength : (transcript taskId w).length < maxTurns) (hthinks : taskThinks taskId w = [message])
      (hevents : taskEvents taskId w = []) (hwaiting : waitingRows taskId w.db.messages = 0)
  | executing (message : StreamMessage ToolEvent) (before : List (Item String))
      (hbatch : Dispatched message before)
      (htranscript : transcript taskId w = before ++ [.calls (answerIds message.data.tools)])
      (hthinks : taskThinks taskId w = []) (hevents : taskEvents taskId w = [message])
      (hwaiting : waitingRows taskId w.db.messages = 0)
  /-- A call had arguments that are not JSON: the task is over. -/
  | broken (hthinks : taskThinks taskId w = []) (hevents : taskEvents taskId w = [])
      (hwaiting : waitingRows taskId w.db.messages = 0)
  /-- The worker raises on every delivery of the batch. -/
  | stuck (message : StreamMessage ToolEvent) (htype : message.data.eventType = .executeToolBatch)
      (hbad : ¬ ∀ spec ∈ message.data.tools, Answerable env session spec)
      (hthinks : taskThinks taskId w = [])
      (hevents : taskEvents taskId w = [message] ∨
        (taskEvents taskId w = [] ∧ message.data.taskId = taskId ∧ message ∈ w.deadLetters))
      (hwindow : ∀ i ∈ (transcript taskId w).drop maxTurns, i.isCalls = false)

section Phases
variable {env : Env} {session : SessionModel} {taskId : Option String} {w w' : World}

theorem Phase.unaffected (h : Phase env session taskId w) (hu : Unaffected taskId w w') :
    Phase env session taskId w' := by
  have htranscript := hu.transcript
  have hthinks' := hu.thinks
  have hevents' := hu.events
  have hwaiting' : waitingRows taskId w.db.messages = 0 → waitingRows taskId w'.db.messages = 0 := by
    have hle := hu.waiting
    omega
  cases h with
  | full hlength hclosed => exact .full (by rwa [htranscript]) (by rwa [htranscript])
  | quiet hclosed hlength hthinks hevents =>
    exact .quiet (by rwa [htranscript]) (by rwa [htranscript]) (by rwa [hthinks']) (by rwa [hevents'])
  | thinking message hclosed hlength hthinks hevents hwaiting =>
    exact .thinking message (by rwa [htranscript]) (by rwa [htranscript]) (by rwa [hthinks'])
      (by rwa [hevents']) (hwaiting' hwaiting)
  | executing message before hbatch hitems hthinks hevents hwaiting =>
    exact .executing message before hbatch (by rwa [htranscript]) (by rwa [hthinks']) (by rwa [hevents'])
      (hwaiting' hwaiting)
  | broken hthinks hevents hwaiting =>
    exact .broken (by rwa [hthinks']) (by rwa [hevents']) (hwaiting' hwaiting)
  | stuck message htype hbad hthinks hevents hwindow =>
    refine .stuck message htype hbad (by rwa [hthinks']) ?_ (by rwa [htranscript])
    rw [hevents']
    exact hevents.imp id fun ⟨hnone, htask, hdead⟩ => ⟨hnone, htask, hu.dead message hdead⟩

/-- Behind a full window anything may follow. -/
theorem Phase.of_window {items more : List (Item String)} (hlength : maxTurns ≤ items.length)
    (hclosed : Closed (items.take maxTurns)) (h : transcript taskId w = items ++ more) :
    Phase env session taskId w := by
  refine .full ?_ ?_
  · rw [h, List.length_append]
    omega
  · rw [h, List.take_append_of_le_length hlength]
    exact hclosed

theorem Phase.settled (hclosed : Closed (transcript taskId w))
    (hlength : (transcript taskId w).length ≤ maxTurns) (hthinks : taskThinks taskId w = [])
    (hevents : taskEvents taskId w = []) : Phase env session taskId w := by
  by_cases hfull : maxTurns ≤ (transcript taskId w).length
  · refine .full hfull ?_
    rwa [List.take_of_length_le hlength]
  · exact .quiet hclosed (by omega) hthinks hevents

theorem Phase.resumed (message : StreamMessage ThinkEvent) (hclosed : Closed (transcript taskId w))
    (hlength : (transcript taskId w).length ≤ maxTurns) (hthinks : taskThinks taskId w = [message])
    (hevents : taskEvents taskId w = []) (hwaiting : waitingRows taskId w.db.messages = 0) :
    Phase env session taskId w := by
  by_cases hfull : maxTurns ≤ (transcript taskId w).length
  · refine .full hfull ?_
    rwa [List.take_of_length_le hlength]
  · exact .thinking message hclosed (by omega) hthinks hevents hwaiting

/-- A task that thinks is alone with this. -/
theorem Phase.of_thinks (h : Phase env session taskId w) {message : StreamMessage ThinkEvent}
    {rest : List (StreamMessage ThinkEvent)} (hthinks : taskThinks taskId w = message :: rest) :
    (maxTurns ≤ (transcript taskId w).length ∧ Closed ((transcript taskId w).take maxTurns)) ∨
    (Closed (transcript taskId w) ∧ (transcript taskId w).length < maxTurns ∧ rest = [] ∧
      taskEvents taskId w = [] ∧ waitingRows taskId w.db.messages = 0) := by
  cases h with
  | full hlength hclosed => exact Or.inl ⟨hlength, hclosed⟩
  | thinking m hclosed hlength hone hevents hwaiting =>
    exact Or.inr ⟨hclosed, hlength, (List.cons.inj (hthinks.symm.trans hone)).2, hevents, hwaiting⟩
  | quiet _ _ hnone => cases hthinks.symm.trans hnone
  | executing _ _ _ _ hnone => cases hthinks.symm.trans hnone
  | broken hnone => cases hthinks.symm.trans hnone
  | stuck _ _ _ hnone => cases hthinks.symm.trans hnone

/-- A task with an event executes a batch, or is stuck with it. -/
theorem Phase.of_events (h : Phase env session taskId w) {message : StreamMessage ToolEvent}
    {rest : List (StreamMessage ToolEvent)} (hevents : taskEvents taskId w = message :: rest) :
    (maxTurns ≤ (transcript taskId w).length ∧ Closed ((transcript taskId w).take maxTurns)) ∨
    (taskThinks taskId w = [] ∧ rest = [] ∧
      ((∃ before, Dispatched message before ∧
        transcript taskId w = before ++ [.calls (answerIds message.data.tools)] ∧
        waitingRows taskId w.db.messages = 0) ∨
      (message.data.eventType = .executeToolBatch ∧
        (¬ ∀ spec ∈ message.data.tools, Answerable env session spec) ∧
        ∀ i ∈ (transcript taskId w).drop maxTurns, i.isCalls = false))) := by
  cases h with
  | full hlength hclosed => exact Or.inl ⟨hlength, hclosed⟩
  | quiet _ _ _ hnone => cases hevents.symm.trans hnone
  | thinking _ _ _ _ hnone => cases hevents.symm.trans hnone
  | broken _ hnone => cases hevents.symm.trans hnone
  | executing m before hbatch htranscript hthinks hone hwaiting =>
    obtain ⟨rfl, rfl⟩ := List.cons.inj (hevents.symm.trans hone)
    exact Or.inr ⟨hthinks, rfl, Or.inl ⟨before, hbatch, htranscript, hwaiting⟩⟩
  | stuck m htype hbad hthinks hone hwindow =>
    rcases hone with hone | ⟨hnone, _⟩
    · obtain ⟨rfl, rfl⟩ := List.cons.inj (hevents.symm.trans hone)
      exact Or.inr ⟨hthinks, rfl, Or.inr ⟨htype, hbad, hwindow⟩⟩
    · cases hevents.symm.trans hnone

/-! ## The brain -/

theorem waitingRows_stored {turns : List Turn} {sessionId tenantId : String} {rows : List MessageModel}
    (hstored : List.Forall₂ (fun turn => Turn.StoredAs turn sessionId tenantId) turns rows)
    (hturns : ∀ turn ∈ turns, turn.metadata = none) : waitingRows taskId rows = 0 := by
  unfold waitingRows
  rw [List.countP_eq_zero]
  induction hstored with
  | nil => exact nofun
  | cons hrow _ ih =>
    intro r hr
    rcases List.mem_cons.mp hr with rfl | hr
    · simp [isPending_of_storedAs hrow, hturns _ List.mem_cons_self]
    · exact ih (fun turn h => hturns turn (List.mem_cons_of_mem _ h)) r hr

/-- The ids of a reply that fits are those of its tool messages. -/
theorem answerIds_of_payload {calls : List ToolCall} {payload : List ToolSpec}
    (hpayload : List.Forall₂ (fun tc spec => spec.id = tc.id ∧ spec.name = tc.name ∧
      parseArguments env tc.arguments = .ok spec.args) calls payload)
    (hnamed : ∀ tc ∈ calls, truthyText tc.id ≠ none) :
    answerIds payload = calls.map ToolCall.id ∧ none ∉ answerIds payload := by
  unfold answerIds
  induction hpayload with
  | nil => exact ⟨rfl, nofun⟩
  | @cons tc spec calls payload hspec _ ih =>
    obtain ⟨hids, hnone⟩ := ih fun tc h => hnamed tc (List.mem_cons_of_mem _ h)
    have hid : truthyText spec.id ≠ none := hspec.1 ▸ hnamed tc List.mem_cons_self
    rw [List.map_cons, List.map_cons, hids, truthyText_eq_self hid, hspec.1]
    refine ⟨rfl, fun h => ?_⟩
    rcases List.mem_cons.mp h with h | h
    · rw [hspec.1, ← h] at hid
      exact hid rfl
    · exact hnone (hids ▸ h)

section Think
variable {target : Target} {s : SessionModel} {asks : Prop} {reply : ProviderReply}
variable {message : StreamMessage ThinkEvent} {queue : List (StreamMessage ThinkEvent)}

theorem phase_response {calls : List ToolCall} {turns : List Turn} {batches : List ToolEvent}
    (hresponse : Response env target calls turns batches) (htarget : target.taskId = taskId)
    {items : List (Item String)} (hclosed : Closed items) (hlength : items.length < maxTurns)
    (hfits : (∃ payload, payloadOf env calls = .ok payload) → Fits calls items.length) {n : ℕ}
    (htranscript : transcript taskId w = items ++ turns.map Turn.item)
    (hthinks : taskThinks taskId w = [])
    (hevents : taskEvents taskId w =
      (batches.map fun b => (⟨n, b, 0⟩ : StreamMessage ToolEvent)).filter
        fun m => decide (m.data.taskId = taskId))
    (hwaiting : waitingRows taskId w.db.messages = 0) : Phase env session taskId w := by
  cases hresponse with
  | final turn hturn =>
    rw [List.map_singleton, hturn.item_eq] at htranscript
    refine .settled ?_ ?_ hthinks hevents
    · rw [htranscript]
      exact hclosed.append (.plain .nil)
    · rw [htranscript, List.length_append]
      exact hlength
  | invalid content turn bad hpayload hturn => exact .broken hthinks hevents hwaiting
  | batch content payload hcalls hpayload =>
    obtain ⟨hfit, hnodup, hnamed⟩ := hfits ⟨payload, hpayload⟩ hlength
    have hspecs := payloadOf_eq_ok hpayload
    obtain ⟨hids, hnone⟩ := answerIds_of_payload hspecs hnamed
    have hcount : payload.length = calls.length := hspecs.length_eq.symm
    refine .executing ⟨n, batchEvent target payload, 0⟩ items ⟨hclosed, rfl, ?_, ?_, ?_, hnone⟩ ?_ hthinks ?_
      hwaiting
    · intro hnil
      change payload = [] at hnil
      rw [hnil] at hcount
      exact hcalls (List.length_eq_zero_iff.mp hcount.symm)
    · show items.length + payload.length < maxTurns
      rwa [hcount]
    · show (answerIds payload).Nodup
      rwa [hids]
    · rw [htranscript, List.map_singleton, item_assistantTurn _ _ hcalls, ← hids]
      rfl
    · rw [hevents, List.map_singleton, List.filter_cons_of_pos]
      · rfl
      · exact decide_eq_true htarget

theorem phase_thought (h : Phase env session taskId w) (hclean : w.Clean)
    (hqueue : w.taskQueue = message :: queue) (htask : message.data.taskId = taskId)
    (htarget : target.taskId = taskId) (ht : Thought env target s asks reply message queue w w')
    (hfits : asks → (∃ payload, payloadOf env reply.calls = .ok payload) → Fits reply.calls
      ((transcript taskId w).length + rowsBefore w.db target message.data.description)) :
    Phase env session taskId w' := by
  have hrest : taskThinks taskId w = message :: queue.filter fun m => decide (m.data.taskId = taskId) := by
    unfold taskThinks
    rw [hqueue, List.filter_cons_of_pos (by simpa using htask)]
  rcases ht.outcome with ⟨tasks, before, turns, batches, calls, _, hplain, hrows, hresponse, hasked, hdb,
    hthinks', hevents', _⟩ | ⟨tasks, before, calls, _, _, hdb, hretry, hevents', _⟩
  · have hflushed : (w.withTasks tasks).db.flushed = [] := hclean.flushed
    obtain ⟨rows, hmessages, hstored⟩ := stored_turns hflushed hdb
    change w'.db.messages = w.db.messages ++ rows at hmessages
    have hturns := hresponse.turns_of_task hplain
    have htranscript : transcript taskId w' =
        (transcript taskId w ++ before.map Turn.item) ++ turns.map Turn.item := by
      unfold transcript
      rw [rows_stored (fun turn hturn => (hturns turn hturn).1.trans htarget) hstored hmessages,
        List.map_append, map_item_stored hstored, List.map_append, List.append_assoc]
    have hbefore := map_item_plain hplain
    rcases h.of_thinks hrest with ⟨hwindow, hclosed⟩ | ⟨hclosed, hwindow, hnone, hevents, hwaiting⟩
    · rw [List.append_assoc] at htranscript
      exact .of_window hwindow hclosed htranscript
    · have hthinks'' : taskThinks taskId w' = [] := by
        unfold taskThinks
        rw [hthinks']
        exact hnone
      have hwaiting' : waitingRows taskId w'.db.messages = 0 := by
        rw [hmessages, waitingRows_append, waitingRows_stored hstored fun turn hturn => (hturns turn hturn).2]
        exact hwaiting
      have hevents'' : taskEvents taskId w' =
          (batches.map fun b => (⟨w.nextMessage, b, 0⟩ : StreamMessage ToolEvent)).filter
            fun m => decide (m.data.taskId = taskId) := by
        unfold taskEvents at hevents ⊢
        rw [hevents', List.filter_append, hevents, List.nil_append]
      by_cases hfull : maxTurns ≤ (transcript taskId w ++ before.map Turn.item).length
      · exact .of_window hfull (hclosed.take_plains (by omega) hbefore) htranscript
      · refine phase_response hresponse htarget (hclosed.append (closed_plains hbefore)) (by omega) ?_
          htranscript hthinks'' hevents'' hwaiting'
        -- the reply is heard only if the model was asked
        cases calls with
        | nil => exact fun _ _ => ⟨by simp only [heard, List.length_nil]; omega, List.nodup_nil, nofun⟩
        | cons c cs =>
          obtain ⟨hasks, _⟩ := hasked.resolve_left (by simp)
          intro hpayload
          have hfit := hfits hasks hpayload
          rw [← hrows (by simp)] at hfit
          rwa [List.length_append, List.length_map]
  · have htranscript : transcript taskId w' = transcript taskId w := by
      unfold transcript taskRows
      rw [hdb]
    have hevents'' : taskEvents taskId w' = taskEvents taskId w := by
      unfold taskEvents
      rw [hevents']
    rcases h.of_thinks hrest with ⟨hwindow, hclosed⟩ | ⟨hclosed, hwindow, hnone, hevents, hwaiting⟩
    · exact .full (by rwa [htranscript]) (by rwa [htranscript])
    · rcases Nat.lt_or_ge (message.attemptCount + 1) 3 with hlimit | hlimit
      · rw [retry_of_lt _ hlimit] at hretry
        refine .thinking (StreamMessage.failed message) (by rwa [htranscript]) (by rwa [htranscript]) ?_
          (by rwa [hevents'']) (by rwa [hdb])
        unfold taskThinks
        rw [(Prod.mk.inj hretry).1, List.filter_append, hnone, List.nil_append,
          List.filter_cons_of_pos (by exact decide_eq_true htask)]
        rfl
      · rw [retry_of_le _ hlimit] at hretry
        refine .quiet (by rwa [htranscript]) (by rwa [htranscript]) ?_ (by rwa [hevents''])
        unfold taskThinks
        rw [(Prod.mk.inj hretry).1]
        exact hnone

end Think

/-! ## The tool worker -/

section Deliver
variable {s : SessionModel} {message : StreamMessage ToolEvent} {queue : List (StreamMessage ToolEvent)}

/-- Answers at the end bring no calls behind the window. -/
theorem no_calls_behind {items answers : List (Item String)} {n : ℕ}
    (hitems : ∀ i ∈ items.drop n, i.isCalls = false) (hanswers : ∀ i ∈ answers, i.isCalls = false) :
    ∀ i ∈ (items ++ answers).drop n, i.isCalls = false := by
  intro i hi
  rw [List.drop_append] at hi
  rcases List.mem_append.mp hi with hi | hi
  · exact hitems i hi
  · exact hanswers i (List.mem_of_mem_drop hi)

/-- The batch stays on the stream or among the dead letters, and can not be finished. -/
theorem phase_retried {tools : List ToolSpec} (htask : message.data.taskId = taskId)
    (htype : message.data.eventType = .executeToolBatch)
    (hbad : ¬ ∀ spec ∈ tools, Answerable env session spec) {dead : List (StreamMessage ToolEvent)}
    (hnone : queue.filter (fun m => decide (m.data.taskId = taskId)) = [])
    (hthinks : taskThinks taskId w = [])
    (hretry : (w.executionQueue, w.deadLetters) = retry (withTools message tools) queue dead)
    (hwindow : ∀ i ∈ (transcript taskId w).drop maxTurns, i.isCalls = false) :
    Phase env session taskId w := by
  refine .stuck (StreamMessage.failed (withTools message tools)) htype hbad hthinks ?_ hwindow
  unfold taskEvents
  rcases Nat.lt_or_ge (message.attemptCount + 1) 3 with hlimit | hlimit
  · rw [retry_of_lt _ (by exact hlimit)] at hretry
    left
    rw [(Prod.mk.inj hretry).1, List.filter_append, hnone, List.nil_append,
      List.filter_cons_of_pos (by exact decide_eq_true htask)]
    rfl
  · rw [retry_of_le _ (by exact hlimit)] at hretry
    right
    rw [(Prod.mk.inj hretry).1, (Prod.mk.inj hretry).2]
    exact ⟨hnone, htask, List.mem_append_right _ (List.mem_singleton_self _)⟩

/-- The calls that were handled are answered at the end of the transcript, and those that wait are counted. -/
theorem transcript_delivered (hclean : w.Clean) (htask : message.data.taskId = taskId)
    (hd : Delivered env s message.data w w') :
    transcript taskId w' = transcript taskId w ++
        (handledCalls env s message.data.tools).map (fun c => .answer (truthyText c.1.id)) ∧
      waitingRows taskId w'.db.messages = waitingRows taskId w.db.messages +
        (handledCalls env s message.data.tools).countP fun c => c.2.waits := by
  obtain ⟨turns, hreports, hdb⟩ := hd.db
  obtain ⟨rows, hmessages, hstored⟩ := stored_turns hclean.flushed hdb
  constructor
  · unfold transcript
    rw [rows_stored (fun turn h => (mem_reports_taskId hreports turn h).trans htask) hstored hmessages,
      List.map_append, map_item_stored hstored, map_item_reports hreports]
  · rw [hmessages, waitingRows_append, ← htask, waitingRows_reports hreports hstored]

/-- A batch that was finished leaves a closed transcript, and a continuation unless a call waits. -/
theorem phase_finished (htask : message.data.taskId = taskId)
    (hall : ∀ spec ∈ message.data.tools, Processable env s spec) {before : List (Item String)}
    (hbatch : Dispatched message before)
    (hitems : transcript taskId w' = before ++ [.calls (answerIds message.data.tools)] ++
      (handledCalls env s message.data.tools).map fun c => .answer (truthyText c.1.id))
    (hwaiting : waitingRows taskId w'.db.messages =
      (handledCalls env s message.data.tools).countP fun c => c.2.waits)
    (hthinks : taskThinks taskId w = []) (hevents : taskEvents taskId w' = [])
    (hqueue : w'.taskQueue = w.taskQueue ++
      if ((handledCalls env s message.data.tools).any fun c => c.2.waits) = true then []
      else [⟨w.nextMessage, continuation message.data, 0⟩]) : Phase env session taskId w' := by
  have htools : (handledCalls env s message.data.tools).map
      (fun c => (Item.answer (truthyText c.1.id) : Item String)) =
      (answerIds message.data.tools).map Item.answer := by
    conv_rhs => rw [← map_fst_handledCalls hall]
    rw [answerIds, List.map_map, List.map_map]
    rfl
  rw [htools] at hitems
  have hlength : (transcript taskId w').length ≤ maxTurns := by
    rw [hitems]
    simp only [answerIds, List.length_append, List.length_map, List.length_singleton]
    have hfits := hbatch.fits
    omega
  have hclosed : Closed (transcript taskId w') := by
    rw [hitems]
    exact hbatch.closed.concat_block hbatch.nodup hbatch.named
  unfold taskThinks at hthinks
  by_cases hwaits : ((handledCalls env s message.data.tools).any fun c => c.2.waits) = true
  · refine .settled hclosed hlength ?_ hevents
    unfold taskThinks
    rw [hqueue, if_pos hwaits, List.append_nil]
    exact hthinks
  · rw [if_neg hwaits] at hqueue
    refine .resumed ⟨w.nextMessage, continuation message.data, 0⟩ hclosed hlength ?_ hevents ?_
    · unfold taskThinks
      rw [hqueue, List.filter_append, hthinks, List.nil_append,
        List.filter_cons_of_pos (by exact decide_eq_true htask)]
      rfl
    · rw [hwaiting, List.countP_eq_zero]
      exact fun c hc hcwaits => hwaits (List.any_eq_true.mpr ⟨c, hc, hcwaits⟩)

theorem phase_delivered (h : Phase env session taskId w) (hclean : w.Clean)
    (hqueue : w.executionQueue = message :: queue) (htask : message.data.taskId = taskId)
    (hsame : ∀ spec, Answerable env s spec ↔ Answerable env session spec)
    (hd : Delivered env s message.data w w')
    (hstreams : ((∀ spec ∈ message.data.tools, Processable env s spec) ∧
          w'.executionQueue = queue ∧ w'.deadLetters = w.deadLetters ∧
          w'.taskQueue = w.taskQueue ++
            if ((handledCalls env s message.data.tools).any fun c => c.2.waits) = true then []
            else [⟨w.nextMessage, continuation message.data, 0⟩]) ∨
        ((¬ ∀ spec ∈ message.data.tools, Processable env s spec) ∧
          w'.taskQueue = w.taskQueue ∧
          (w'.executionQueue, w'.deadLetters) =
            retry (withTools message (toolsAfter env s message.data.tools)) queue w.deadLetters)) :
    Phase env session taskId w' := by
  have hrest : taskEvents taskId w = message :: queue.filter fun m => decide (m.data.taskId = taskId) := by
    unfold taskEvents
    rw [hqueue, List.filter_cons_of_pos (by simpa using htask)]
  obtain ⟨htranscript, hcount⟩ := transcript_delivered hclean htask hd
  have hanswers : ∀ i ∈ (handledCalls env s message.data.tools).map
      fun c => (Item.answer (truthyText c.1.id) : Item String), i.isCalls = false := by
    intro i hi
    obtain ⟨c, _, rfl⟩ := List.mem_map.mp hi
    rfl
  rcases h.of_events hrest with ⟨hwindow, hclosed⟩ | ⟨hthinks, hnone, hphase⟩
  · exact .of_window hwindow hclosed htranscript
  rcases hstreams with ⟨hall, hexecution, _, hthinks'⟩ | ⟨hnot, hthinks', hretry⟩
  · have hevents : taskEvents taskId w' = [] := by
      unfold taskEvents
      rw [hexecution]
      exact hnone
    rcases hphase with ⟨before, hbatch, hitems, hwaiting⟩ | ⟨_, hbad, _⟩
    · rw [hitems] at htranscript
      rw [hwaiting, Nat.zero_add] at hcount
      exact phase_finished htask hall hbatch htranscript hcount hthinks hevents hthinks'
    · exact absurd (fun spec hspec => (hsame spec).mp ((processable_iff env s spec).mp (hall spec hspec)))
        hbad
  · have hbad : ¬ ∀ spec ∈ toolsAfter env s message.data.tools, Answerable env session spec := by
      simp only [← hsame, ← processable_iff]
      exact toolsAfter_not_processable hnot
    have hthinks'' : taskThinks taskId w' = [] := by
      unfold taskThinks at hthinks ⊢
      rwa [hthinks']
    rcases hphase with ⟨before, hbatch, hitems, _⟩ | ⟨htype, _, hwindow⟩
    · refine phase_retried htask hbatch.eventType hbad hnone hthinks'' hretry ?_
      rw [htranscript, hitems]
      refine no_calls_behind ?_ hanswers
      have hfits := hbatch.fits
      rw [List.drop_of_length_le (by simp only [List.length_append, List.length_singleton]; omega)]
      exact nofun
    · refine phase_retried htask htype hbad hnone hthinks'' hretry ?_
      rw [htranscript]
      exact no_calls_behind hwindow hanswers

end Deliver

end Phases

/-! ## Steps -/

structure Unborn (taskId : Option String) (w : World) : Prop where
  tasks : ∀ t ∈ w.db.tasks, some t.id ≠ taskId
  transcript : transcript taskId w = []
  thinks : taskThinks taskId w = []
  events : taskEvents taskId w = []
  waiting : waitingRows taskId w.db.messages = 0

/-- What holds of the task in every state. -/
structure Tracked (env : Env) (taskId : Option String) (w : World) : Prop where
  grounded : Grounded w
  calls : WellFormedCalls taskId w
  place : Unborn taskId w ∨ ∃ session, Home session taskId w ∧ Phase env session taskId w

section Steps
variable {env : Env} {session : SessionModel} {taskId : Option String} {w w' : World}

theorem Unborn.unaffected (h : Unborn taskId w) (hu : Unaffected taskId w w') : Unborn taskId w' := by
  refine ⟨fun t ht heq => ?_, hu.transcript.trans h.transcript, hu.thinks.trans h.thinks,
    hu.events.trans h.events, ?_⟩
  · obtain ⟨t', ht', heq'⟩ := hu.born.mp ⟨t, ht, heq⟩
    exact h.tasks t' ht' heq'
  · have hle := hu.waiting
    have hnone := h.waiting
    omega

theorem Tracked.unaffected (h : Tracked env taskId w) (hg : Grounded w')
    (hregistered : ∀ session, Registered session w → Registered session w')
    (hcalls : WellFormedCalls taskId w') (hu : Unaffected taskId w w') : Tracked env taskId w' := by
  refine ⟨hg, hcalls, ?_⟩
  rcases h.place with hunborn | ⟨session, hhome, hphase⟩
  · exact Or.inl (hunborn.unaffected hu)
  · exact Or.inr ⟨session, hhome.unaffected (hregistered session hhome.registered) hu,
      hphase.unaffected hu⟩

theorem tracked_chat (h : Tracked env taskId w) {tenantId id : String} {req : ChatRequest}
    (hstep : sendChatMessage tenantId id req w = some w') : Tracked env taskId w' := by
  have hg := grounded_chat h.grounded hstep
  have hregistered : ∀ session, Registered session w → Registered session w' :=
    fun session hs => (registered_chat hs hstep).1
  have hcalls : w'.llmCalls = w.llmCalls := by
    unfold sendChatMessage at hstep
    split_ifs at hstep
    · rw [← Option.some.inj hstep]
      rfl
    · rw [Option.some.inj hstep]
  have hcalls' : WellFormedCalls taskId w' := fun c hc => h.calls c (hcalls ▸ hc)
  by_cases hid : some id = taskId
  · unfold sendChatMessage at hstep
    split_ifs at hstep with hfree hfound
    · -- the task is new
      obtain ⟨s, hs, hmatches⟩ := List.any_eq_true.mp hfound
      obtain ⟨hsid, hstenant⟩ := of_decide_eq_true hmatches
      rcases h.place with hunborn | ⟨session, hhome, _⟩
      · have hs' : Registered s w' := hregistered s ⟨h.grounded.clean, h.grounded.ids, s.context, hs⟩
        obtain rfl := Option.some.inj hstep
        have hthinks : taskThinks taskId ((w.store (req.record tenantId id w.db)).putThink
            ⟨some id, req.sessionId, req.message, some tenantId⟩) =
            [⟨w.nextMessage, ⟨some id, req.sessionId, req.message, some tenantId⟩, 0⟩] := by
          have hnone := hunborn.thinks
          unfold taskThinks at hnone ⊢
          show (w.taskQueue ++ [_]).filter _ = _
          rw [List.filter_append, hnone, List.nil_append, List.filter_cons_of_pos (by simpa using hid)]
          rfl
        have hrows : taskRows taskId w = [] := List.map_eq_nil_iff.mp hunborn.transcript
        refine ⟨hg, hcalls', Or.inr ⟨s, ⟨hs', ?_, ?_, ?_, ?_, ?_⟩, ?_⟩⟩
        · rw [← hid]
          simp [truthyText, hfree.1]
        · exact ⟨_, List.mem_append_right _ (List.mem_singleton_self _), hid⟩
        · intro r hr
          change r ∈ taskRows taskId w at hr
          rw [hrows] at hr
          exact absurd hr List.not_mem_nil
        · intro m hm
          rw [hthinks] at hm
          rw [List.mem_singleton.mp hm]
          exact ⟨hsid.symm, fun _ => congrArg some hstenant.symm⟩
        · intro m hm
          change m ∈ taskEvents taskId w at hm
          rw [hunborn.events] at hm
          exact absurd hm List.not_mem_nil
        · have htranscript : transcript taskId ((w.store (req.record tenantId id w.db)).putThink
            ⟨some id, req.sessionId, req.message, some tenantId⟩) = [] := hunborn.transcript
          refine .thinking _ ?_ ?_ hthinks hunborn.events hunborn.waiting
          · rw [htranscript]
            exact .nil
          · rw [htranscript]
            decide
      · obtain ⟨t, ht, hborn⟩ := hhome.born
        exact absurd (Option.some.inj (hborn.trans hid.symm)) (hfree.2 t ht)
    · rw [← Option.some.inj hstep]
      exact h
  · exact h.unaffected hg hregistered hcalls' (unaffected_chat hstep hid)

theorem tracked_think (hfresh : env.nextSequence.Fresh) (h : Tracked env taskId w) {run : BrainRun}
    (hok : PairingOk env taskId w (.think run)) (hstep : deliverThink env.reliable run w = some w') :
    Tracked env taskId w' := by
  have hregistered : ∀ session, Registered session w → Registered session w' :=
    fun session hs => (registered_think hs hstep).1
  obtain ⟨message, queue, target, s, asks, hqueue, htarget, hsession, ht, hasks⟩ :=
    deliverThink_inv h.grounded.clean hstep
  have hg := grounded_thought hfresh h.grounded ht
  obtain ⟨tasks, before, calls, hplain, hasked, hcalls⟩ := ht.asked
  by_cases htask : message.data.taskId = taskId
  · have hthinks : taskThinks taskId w =
        message :: queue.filter fun m => decide (m.data.taskId = taskId) := by
      unfold taskThinks
      rw [hqueue, List.filter_cons_of_pos (by simpa using htask)]
    rcases h.place with hunborn | ⟨session, hhome, hphase⟩
    · cases hthinks.symm.trans hunborn.thinks
    · have howned := hhome.thinks message (by rw [hthinks]; exact List.mem_cons_self)
      obtain ⟨context, hloads⟩ := hhome.loads howned
      have htarget' : target.taskId = taskId := htarget.trans htask
      have hsession' : target.sessionId = session.id := hsession.trans howned.sessionId
      have hloaded : asks → s = { session with context := context } :=
        fun ha => Option.some.inj ((hasks ha).1.symm.trans hloads)
      have htenant : asks → target.tenantId = session.tenantId := by
        intro ha
        rw [(hasks ha).2.1, hloaded ha]
      refine ⟨hg, ?_, Or.inr ⟨session, home_thought hhome (hregistered session hhome.registered) hqueue
        htask htarget' hsession' htenant ht, phase_thought hphase h.grounded.clean hqueue htask
        htarget' ht ?_⟩⟩
      · intro c hc hown
        rw [hcalls] at hc
        rcases List.mem_append.mp hc with hc | hc
        · exact h.calls c hc hown
        · rcases hasked with rfl | ⟨ha, rfl⟩
          · exact absurd hc List.not_mem_nil
          · rw [List.mem_singleton.mp hc, conversation_items h.grounded hfresh hhome htarget' hsession'
              (by rw [hloaded ha]) tasks hplain]
            refine (Closed.plain ?_).wellFormed
            rcases hphase.of_thinks hthinks with ⟨hlength, hclosed⟩ | ⟨hclosed, hlength, _⟩
            · rwa [List.take_append_of_le_length hlength]
            · exact hclosed.take_plains hlength.le (map_item_plain hplain)
      · intro ha hpayload
        obtain ⟨hload, htargetTenant, hlimit, hmodel⟩ := hasks ha
        have htargetEq : target = ⟨message.data.taskId, message.data.sessionId, s.tenantId⟩ := by
          rw [← htarget, ← hsession, ← htargetTenant]
        rw [htargetEq] at hlimit ⊢
        exact hok message queue s hqueue htask hload hlimit hmodel hpayload
  · refine h.unaffected hg hregistered ?_ (unaffected_thought h.grounded.clean hqueue ht htarget htask)
    intro c hc hown
    rw [hcalls] at hc
    rcases List.mem_append.mp hc with hc | hc
    · exact h.calls c hc hown
    · rcases hasked with rfl | ⟨_, rfl⟩
      · exact absurd hc List.not_mem_nil
      · rw [List.mem_singleton.mp hc] at hown
        exact absurd (htarget.symm.trans hown) htask

theorem tracked_delivery (hfresh : env.nextSequence.Fresh) (h : Tracked env taskId w)
    (hstep : deliverTools env.reliable w = some w') : Tracked env taskId w' := by
  have hregistered : ∀ session, Registered session w → Registered session w' :=
    fun session hs => registered_delivery hs hstep
  obtain ⟨message, queue, hqueue, ht⟩ := deliverTools_inv h.grounded.clean hstep
  obtain ⟨turns, _, hdb⟩ := ht.db
  have hg : Grounded w' := h.grounded.of_turns hfresh ht.clean w.db.tasks hdb
  have hcalls : WellFormedCalls taskId w' := by
    unfold WellFormedCalls
    rw [ht.llmCalls]
    exact h.calls
  by_cases htask : message.data.taskId = taskId
  · have hevents : taskEvents taskId w =
        message :: queue.filter fun m => decide (m.data.taskId = taskId) := by
      unfold taskEvents
      rw [hqueue, List.filter_cons_of_pos (by simpa using htask)]
    rcases h.place with hunborn | ⟨session, hhome, hphase⟩
    · cases hevents.symm.trans hunborn.events
    · have howned := hhome.events message (by rw [hevents]; exact List.mem_cons_self)
      obtain ⟨context, hloads⟩ := hhome.loads howned
      obtain ⟨t, hrun, hd, hstreams⟩ := deliverTools_spec env h.grounded.clean hqueue hloads
      obtain rfl := Option.some.inj (hrun.symm.trans hstep)
      -- governance does not read the context of a session
      have hsame : ∀ spec, Answerable env { session with context := context } spec ↔
          Answerable env session spec := fun _ => Iff.rfl
      exact ⟨hg, hcalls, Or.inr ⟨session,
        home_touched hhome (hregistered session hhome.registered) hqueue htask ht,
        phase_delivered hphase h.grounded.clean hqueue htask hsame hd hstreams⟩⟩
  · exact h.unaffected hg hregistered hcalls (unaffected_touched h.grounded.clean hqueue ht htask)

theorem waitingRows_pos {req : ApprovalRequest} {message : MessageModel} {m : ApprovalMetadata}
    (h : PendingAt w req message m) (htask : message.taskId = taskId) :
    0 < waitingRows taskId w.db.messages := by
  obtain ⟨hmem, _, hextra, hstatus⟩ := pendingAt_spec h
  unfold waitingRows
  rw [List.countP_pos_iff]
  exact ⟨message, hmem, by simp [htask, isPending, hextra, hstatus]⟩

/-- A call of the task is approved: nothing that happens then is in the window. -/
theorem phase_approved (h : Phase env session taskId w) {req : ApprovalRequest}
    {message : MessageModel} {m : ApprovalMetadata} (hpending : PendingAt w req message m)
    (htask : message.taskId = taskId) (htranscript : transcript taskId w' = transcript taskId w)
    (hlength : maxTurns ≤ (transcript taskId w).length)
    (hbehind : Unfinished taskId w → ∃ i ∈ (transcript taskId w).drop maxTurns, i.isCalls = true) :
    Phase env session taskId w' := by
  have hwaiting := waitingRows_pos hpending htask
  cases h with
  | full _ hclosed => exact .full (by rwa [htranscript]) (by rwa [htranscript])
  | quiet _ hshort => omega
  | thinking _ _ hshort => omega
  | executing message before hbatch hitems =>
    have htools : 0 < message.data.tools.length := List.length_pos_iff.mpr hbatch.tools
    have hfits := hbatch.fits
    rw [hitems, List.length_append, List.length_singleton] at hlength
    omega
  | broken _ _ hnone => omega
  | stuck message htype _ _ hevents hwindow =>
    have hunfinished : Unfinished taskId w := by
      rcases hevents with hone | ⟨_, hown, hdead⟩
      · have hmem : message ∈ taskEvents taskId w := by
          rw [hone]
          exact List.mem_singleton_self _
        obtain ⟨hqueue, hown⟩ := List.mem_filter.mp hmem
        exact ⟨message, List.mem_append_left _ hqueue, of_decide_eq_true hown, htype⟩
      · exact ⟨message, List.mem_append_right _ hdead, hown, htype⟩
    obtain ⟨i, hi, hcalls⟩ := hbehind hunfinished
    rw [hwindow i hi] at hcalls
    cases hcalls

theorem tracked_approve (h : Tracked env taskId w) {req : ApprovalRequest}
    (hok : PairingOk env taskId w (.approve req)) : Tracked env taskId (approveToolCall req w) := by
  have hd := approveToolCall_decision req w
  generalize approveToolCall req w = w' at hd
  have hg := grounded_decision h.grounded hd
  have hsessions : w'.db.sessions = w.db.sessions := by
    cases hd <;> rfl
  have hregistered : ∀ session, Registered session w → Registered session w' :=
    fun session hs => hs.of_sessions hg.clean hsessions
  have hcalls : WellFormedCalls taskId w' := by
    have hsame : w'.llmCalls = w.llmCalls := by
      cases hd <;> rfl
    unfold WellFormedCalls
    rw [hsame]
    exact h.calls
  by_cases hother : ∀ message m, PendingAt w req message m → message.taskId = taskId →
      req.decision = "denied"
  · exact h.unaffected hg hregistered hcalls (unaffected_decision hd hother)
  · push Not at hother
    obtain ⟨message, m, hpending, htask, hdecision⟩ := hother
    obtain ⟨hlength, hbehind⟩ := hok message m hpending htask hdecision
    rcases h.place with hunborn | ⟨session, hhome, hphase⟩
    · have hpos := waitingRows_pos hpending htask
      have hnone := hunborn.waiting
      omega
    · exact ⟨hg, hcalls, Or.inr ⟨session, home_decision hhome h.grounded hd,
        phase_approved hphase hpending htask (transcript_decision taskId hd).1 hlength hbehind⟩⟩

theorem tracked_step (hfresh : env.nextSequence.Fresh) (h : Tracked env taskId w) {i : Label}
    (hok : PairingOk env taskId w i) (hstep : step env.reliable w i = some w') :
    Tracked env taskId w' := by
  cases i with
  | chat tenantId id req => exact tracked_chat h hstep
  | think run => exact tracked_think hfresh h hok hstep
  | executeTools => exact tracked_delivery hfresh h hstep
  | approve req =>
    obtain rfl := Option.some.inj hstep
    exact tracked_approve h hok

theorem tracked_start (env : Env) (taskId : Option String) {sessions : List SessionModel}
    (hids : (sessions.map SessionModel.id).Nodup) : Tracked env taskId (World.start sessions) :=
  ⟨⟨World.start_clean sessions, hids, ⟨List.Pairwise.nil, nofun⟩⟩, nofun,
    Or.inl ⟨nofun, rfl, rfl, rfl, rfl⟩⟩

end Steps

/-! ## Runs -/

/-- **In every run whose steps keep the pairing, each call of the provider for the task is given a
well-formed transcript.** -/
theorem transcripts_wellFormed (env : Env) (hfresh : env.nextSequence.Fresh)
    (sessions : List SessionModel) (hids : (sessions.map SessionModel.id).Nodup) (task : String)
    (is : List Label)
    (hguarded : Guarded (step env.reliable) (PairingOk env (some task)) (World.start sessions) is) :
    ∀ js ks t, is = js ++ ks → exec (step env.reliable) (World.start sessions) js = some t →
      WellFormedCalls (some task) t := by
  intro js ks t his hrun
  rw [his] at hguarded
  have htracked : Tracked env (some task) t :=
    exec_invariant (fun _ _ _ h hok hstep => tracked_step hfresh h hok hstep)
      (tracked_start env (some task) hids) hguarded.of_append hrun
  exact htracked.calls

/-- The local deployment with numbers that always increase. -/
def orderedEnv : Env :=
  { localEnv with nextSequence := fun rows sessionId tenantId => maxSequence rows sessionId tenantId + 1 }

theorem orderedEnv_fresh : orderedEnv.nextSequence.Fresh := by
  intro rows sessionId tenantId r hr hstored
  have hle := SequenceNumbers.le_maxSequence (SequenceNumbers.storedFor_mem_scope hr hstored)
  show r.sequence < maxSequence rows sessionId tenantId + 1
  omega

def askFor (call : ToolCallDelta) : Label :=
  .think ⟨none, .ok none, .stream [some ⟨none, none, [call]⟩] none⟩

def finish : Label := .think ⟨none, .ok none, .stream [some ⟨none, some "Done.", []⟩] none⟩

def listRequest : Label := .chat "acme" "t1" ⟨"s1", "list the files", false, none⟩

/-- A file is read: the model is given its call and the answer. -/
def readRun : List Label :=
  [listRequest, askFor ⟨0, some "call_1", some "function", some "read_file",
    some "\x7b\"filepath\": \"a.txt\"\x7d"⟩, .executeTools, finish]

theorem transcripts_read_file : ∃ t,
    exec (step orderedEnv.reliable) (World.start [localSession "auto"]) readRun = some t ∧
    WellFormedCalls (some "t1") t := by
  have hguarded : Guarded (step orderedEnv.reliable) (PairingOk orderedEnv (some "t1"))
      (World.start [localSession "auto"]) readRun := by
    refine ⟨True.intro, fun w₁ h₁ => ⟨?_, fun w₂ _ => ⟨True.intro, fun w₃ _ => ⟨?_, fun _ _ => True.intro⟩⟩⟩⟩
    · have hempty : ((step orderedEnv.reliable (World.start [localSession "auto"]) listRequest).map
          fun w => (transcript (some "t1") w).length) = some 0 := by decide +kernel
      rw [h₁] at hempty
      have hlength : (transcript (some "t1") w₁).length = 0 := Option.some.inj hempty
      intro message queue session _ _ _ target _ _ _ _
      have hrows : rowsBefore w₁.db target message.data.description ≤ 2 := by
        unfold rowsBefore wrapUpRows descriptionRows
        split <;> split_ifs <;> omega
      refine ⟨?_, by decide +kernel, by decide +kernel⟩
      show _ + 1 < 40
      omega
    · intro message queue session _ _ _ target _ _ _ hposition
      exact ⟨hposition, List.nodup_nil, nofun⟩
  have hruns : (exec (step orderedEnv.reliable) (World.start [localSession "auto"]) readRun).isSome =
      true := by decide +kernel
  obtain ⟨t, hrun⟩ := Option.isSome_iff_exists.mp hruns
  exact ⟨t, hrun, transcripts_wellFormed orderedEnv orderedEnv_fresh [localSession "auto"] (by decide)
    "t1" readRun hguarded readRun [] t (List.append_nil _).symm hrun⟩

/-- A command is approved and executed: the model is given two answers to one call. -/
def approvedRun : List Label :=
  [listRequest, askFor ⟨0, some "call_1", some "function", some "bash_execute",
    some "\x7b\"command\": \"ls\"\x7d"⟩, .executeTools, .approve ⟨"s1", 2, "approved", "acme"⟩,
    .executeTools, finish]

theorem approved_call_answered_twice : ¬ ∀ (env : Env) (sessions : List SessionModel) (task : String)
    (is : List Label) (t : World), env.nextSequence.Fresh → (sessions.map SessionModel.id).Nodup →
    exec (step env.reliable) (World.start sessions) is = some t → WellFormedCalls (some task) t := by
  intro h
  have hitems : (exec (step orderedEnv.reliable) (World.start [localSession "strict"]) approvedRun).map
      (fun t => t.llmCalls.map fun c => (c.taskId, c.messages.map ContextEntry.item)) =
      some [(some "t1", [.plain, .plain]), (some "t1", [.plain, .plain, .calls [some "call_1"],
        .answer (some "call_1"), .answer (some "call_1")])] := by decide +kernel
  obtain ⟨t, hrun, hcalls⟩ := Option.map_eq_some_iff.mp hitems
  have hwellFormed := h orderedEnv [localSession "strict"] "t1" _ t orderedEnv_fresh (by decide) hrun
  have hmem : (some "t1", [Item.plain, .plain, .calls [some "call_1"], .answer (some "call_1"),
      .answer (some "call_1")]) ∈ t.llmCalls.map fun c => (c.taskId, c.messages.map ContextEntry.item) := by
    rw [hcalls]
    exact List.mem_cons_of_mem _ (List.mem_singleton_self _)
  obtain ⟨c, hc, hkey⟩ := List.mem_map.mp hmem
  obtain ⟨htask, hlist⟩ := Prod.mk.inj hkey
  have hcall := hwellFormed c hc htask
  rw [hlist] at hcall
  have hone := hcall.answered [.plain, .plain] _ _ rfl "call_1" (List.mem_singleton_self _)
  exact absurd hone (by decide)

end KernelRuntime.AgentLoop
