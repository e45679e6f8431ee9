import KernelRuntime.AgentLoop.BrainWorker

/-! # What the brain leaves behind

While the brain works on an event it has `Pending` changes: turns that are flushed and model calls
that are made, and nothing committed. It either raises there, or ends with a commit, after which it
`Wrote` its turns and published at most one batch. -/

namespace KernelRuntime.AgentLoop
set_option autoImplicit false

/-- Turns were flushed and models called, nothing was committed or published on a stream. -/
structure Pending (env : Env) (sessionId : String) (turns : List Turn) (calls : List LlmCall)
    (w w' : World) : Prop where
  db : w'.db = w.db.addTurns env.nextSequence sessionId turns
  committed : w'.committed = w.committed
  usable : w'.usable = true
  executed : w'.executed = w.executed
  taskQueue : w'.taskQueue = w.taskQueue
  executionQueue : w'.executionQueue = w.executionQueue
  deadThinks : w'.deadThinks = w.deadThinks
  deadLetters : w'.deadLetters = w.deadLetters
  llmCalls : w'.llmCalls = w.llmCalls ++ calls
  nextMessage : w'.nextMessage = w.nextMessage

/-- The turns were committed and the batches published. -/
structure Wrote (env : Env) (sessionId : String) (turns : List Turn) (batches : List ToolEvent)
    (calls : List LlmCall) (w w' : World) : Prop where
  db : w'.db = (w.db.addTurns env.nextSequence sessionId turns).commit
  committed : w'.committed = w'.db
  usable : w'.usable = true
  executed : w'.executed = w.executed
  taskQueue : w'.taskQueue = w.taskQueue
  executionQueue : w'.executionQueue = w.executionQueue ++ batches.map fun b => ⟨w.nextMessage, b, 0⟩
  deadThinks : w'.deadThinks = w.deadThinks
  deadLetters : w'.deadLetters = w.deadLetters
  llmCalls : w'.llmCalls = w.llmCalls ++ calls

section Rules
variable {env : Env} {sessionId : String} {turns turns' : List Turn} {calls calls' : List LlmCall}
variable {batches : List ToolEvent} {w w' w'' : World}

theorem Pending.refl (hw : w.usable = true) : Pending env sessionId [] [] w w :=
  ⟨rfl, rfl, hw, rfl, rfl, rfl, rfl, rfl, (List.append_nil _).symm, rfl⟩

theorem Pending.trans (h : Pending env sessionId turns calls w w')
    (h' : Pending env sessionId turns' calls' w' w'') :
    Pending env sessionId (turns ++ turns') (calls ++ calls') w w'' where
  db := by rw [h'.db, h.db, Database.addTurns_append]
  committed := h'.committed.trans h.committed
  usable := h'.usable
  executed := h'.executed.trans h.executed
  taskQueue := h'.taskQueue.trans h.taskQueue
  executionQueue := h'.executionQueue.trans h.executionQueue
  deadThinks := h'.deadThinks.trans h.deadThinks
  deadLetters := h'.deadLetters.trans h.deadLetters
  llmCalls := by rw [h'.llmCalls, h.llmCalls, List.append_assoc]
  nextMessage := h'.nextMessage.trans h.nextMessage

theorem Pending.wrote (h : Pending env sessionId turns calls w w')
    (h' : Wrote env sessionId turns' batches calls' w' w'') :
    Wrote env sessionId (turns ++ turns') batches (calls ++ calls') w w'' where
  db := by rw [h'.db, h.db, Database.addTurns_append]
  committed := h'.committed
  usable := h'.usable
  executed := h'.executed.trans h.executed
  taskQueue := h'.taskQueue.trans h.taskQueue
  executionQueue := by rw [h'.executionQueue, h.executionQueue, h.nextMessage]
  deadThinks := h'.deadThinks.trans h.deadThinks
  deadLetters := h'.deadLetters.trans h.deadLetters
  llmCalls := by rw [h'.llmCalls, h.llmCalls, List.append_assoc]

theorem Pending.log (h : Pending env sessionId turns calls w w') (taskId : Option String)
    (es : List LogEvent) : Pending env sessionId turns calls w (w'.logAll taskId es) :=
  ⟨h.db, h.committed, h.usable, h.executed, h.taskQueue, h.executionQueue, h.deadThinks,
    h.deadLetters, h.llmCalls, h.nextMessage⟩

theorem Pending.streamed (h : Pending env sessionId turns calls w w') {taskId : Option String}
    (hs : w'.Streamed w'' taskId) : Pending env sessionId turns calls w w'' := by
  obtain ⟨es, -, rfl⟩ := hs
  exact h.log taskId es

theorem Pending.saved (h : Pending env sessionId turns calls w w') :
    Wrote env sessionId turns [] calls w w'.saved where
  db := congrArg Database.commit h.db
  committed := rfl
  usable := h.usable
  executed := h.executed
  taskQueue := h.taskQueue
  executionQueue := h.executionQueue.trans (List.append_nil _).symm
  deadThinks := h.deadThinks
  deadLetters := h.deadLetters
  llmCalls := h.llmCalls

theorem Pending.published (h : Pending env sessionId turns calls w w') (batch : ToolEvent) :
    Wrote env sessionId turns [batch] calls w (w'.putTools batch).saved where
  db := congrArg Database.commit h.db
  committed := rfl
  usable := h.usable
  executed := h.executed
  taskQueue := h.taskQueue
  executionQueue := by
    show w'.executionQueue ++ [⟨w'.nextMessage, batch, 0⟩] = _
    rw [h.executionQueue, h.nextMessage]
    rfl
  deadThinks := h.deadThinks
  deadLetters := h.deadLetters
  llmCalls := h.llmCalls

variable {α : Type} {returns : α → World → Prop} {raises : PyError → World → Prop}

theorem Pending.bind {β : Type} {m : Handler β} {f : β → Handler α} {b : β}
    (h : Pending env sessionId turns calls w w')
    (hm : ∃ w'', m w' = .ok b w'' ∧ Pending env sessionId turns' calls' w' w'')
    (hf : ∀ w'', Pending env sessionId (turns ++ turns') (calls ++ calls') w w'' →
      Ends (f b) w'' returns raises) : Ends (m >>= f) w' returns raises := by
  obtain ⟨w'', hrun, h'⟩ := hm
  exact .bind_ok hrun (hf w'' (h.trans h'))

theorem persist_pending (turn : Turn) (hw : w.usable = true) :
    ∃ w', persistMessage env.reliable sessionId turn w = .ok () w' ∧
      Pending env sessionId [turn] [] w w' :=
  ⟨_, persistMessage_reliable env sessionId turn hw,
    ⟨rfl, rfl, hw, rfl, rfl, rfl, rfl, rfl, (List.append_nil _).symm, rfl⟩⟩

theorem query_pending (hw : w.usable = true) :
    ∃ w', query env.reliable w = .ok () w' ∧ Pending env sessionId [] [] w w' :=
  ⟨_, query_reliable env hw, ⟨rfl, rfl, hw, rfl, rfl, rfl, rfl, rfl, (List.append_nil _).symm, rfl⟩⟩

theorem queryIf_pending (condition : Bool) (hw : w.usable = true) :
    ∃ w', queryIf env.reliable condition w = .ok () w' ∧ Pending env sessionId [] [] w w' := by
  cases condition with
  | false => exact ⟨w, rfl, .refl hw⟩
  | true => exact query_pending hw

theorem publishLog_pending (taskId : Option String) (e : LogEvent) (hw : w.usable = true) :
    ∃ w', publishLog taskId e w = .ok () w' ∧ Pending env sessionId [] [] w w' :=
  ⟨_, rfl, (Pending.refl hw).log taskId [e]⟩

theorem recordCall_pending (call : LlmCall) (hw : w.usable = true) :
    ∃ w', recordCall call w = .ok () w' ∧ Pending env sessionId [] [call] w w' :=
  ⟨_, rfl, ⟨rfl, rfl, hw, rfl, rfl, rfl, rfl, rfl, rfl, rfl⟩⟩

theorem commit_ends (h : Pending env sessionId turns calls w w') :
    Ends (commit env.reliable) w' (fun _ w'' => Wrote env sessionId turns [] calls w w'') raises :=
  .of_ok (commit_reliable env h.usable) h.saved

end Rules

/-! ## Responses -/

/-- A turn that neither makes nor answers a tool call. -/
structure PlainTurn (target : Target) (turn : Turn) : Prop where
  taskId : turn.taskId = target.taskId
  role : turn.role ≠ "tool"
  toolCallId : turn.toolCallId = none
  toolCalls : turn.toolCalls = []
  metadata : turn.metadata = none

theorem plain_assistant (target : Target) (content : String) :
    PlainTurn target (assistantTurn target.taskId content []) :=
  ⟨rfl, by simp [assistantTurn], rfl, rfl, rfl⟩

theorem plain_system (target : Target) (content : String) :
    PlainTurn target (roleTurn "system" target.taskId content) :=
  ⟨rfl, by simp [roleTurn], rfl, rfl, rfl⟩

theorem plain_user (target : Target) (content : String) :
    PlainTurn target (roleTurn "user" target.taskId content) :=
  ⟨rfl, by simp [roleTurn], rfl, rfl, rfl⟩

/-- The turns that end an event of the brain, and the batches it publishes, for the calls of a
reply. -/
inductive Response (env : Env) (target : Target) (calls : List ToolCall) : List Turn → List ToolEvent → Prop
  /-- The task ends, with an answer or an error. -/
  | final (turn : Turn) (hturn : PlainTurn target turn) : Response env target calls [turn] []
  /-- The calls of the assistant message are published. -/
  | batch (content : String) (payload : List ToolSpec) (hcalls : calls ≠ [])
      (hpayload : payloadOf env calls = .ok payload) :
      Response env target calls [assistantTurn target.taskId content calls] [batchEvent target payload]
  /-- A call has arguments that are not loaded. -/
  | invalid (content : String) (turn : Turn) (bad : BadCall)
      (hpayload : payloadOf env calls = .error bad) (hturn : PlainTurn target turn) :
      Response env target calls [assistantTurn target.taskId content calls, turn] []

section Run
variable {env : Env} {target : Target} {calls : List ToolCall} {w : World}
variable {raises : PyError → World → Prop}

/-- The event ended with one of the responses. -/
def Responded (env : Env) (target : Target) (calls : List ToolCall) (w w' : World) : Prop :=
  ∃ turns batches, Response env target calls turns batches ∧
    Wrote env target.sessionId turns batches [] w w'

theorem endTask_ends (turn : Turn) (hw : w.usable = true) :
    Ends (endTask env.reliable target turn) w
      (fun _ w' => Wrote env target.sessionId [turn] [] [] w w') raises := by
  unfold endTask
  have h₀ : Pending env target.sessionId [] [] w w := .refl hw
  refine h₀.bind (persist_pending turn hw) fun w₁ h₁ => ?_
  refine h₁.bind (publishLog_pending target.taskId .taskResolved h₁.usable) fun w₂ h₂ => ?_
  exact commit_ends h₂

theorem finishWith_ends (content : String) (hw : w.usable = true) :
    Ends (finishWith env.reliable target content) w (fun _ w' => Responded env target calls w w')
      raises :=
  (endTask_ends _ hw).mono (fun _ _ h => ⟨_, [], .final _ (plain_assistant target content), h⟩)
    fun _ _ h => h

theorem answerTask_wrote (content : String) (hw : w.usable = true) :
    Ends (answerTask env.reliable target content) w
      (fun _ w' => Wrote env target.sessionId [assistantTurn target.taskId content []] [] [] w w') raises := by
  unfold answerTask
  have h₀ : Pending env target.sessionId [] [] w w := .refl hw
  refine h₀.bind (persist_pending _ hw) fun w₁ h₁ => ?_
  have hresolved : ∃ w₂, publishResolved ⟨target.taskId, target.sessionId, content⟩ w₁ = .ok () w₂ ∧
      Pending env target.sessionId [] [] w₁ w₂ :=
    ⟨_, rfl, ⟨rfl, rfl, h₁.usable, rfl, rfl, rfl, rfl, rfl, (List.append_nil _).symm, rfl⟩⟩
  refine h₁.bind hresolved fun w₂ h₂ => ?_
  refine h₂.bind (publishLog_pending target.taskId .taskResolved h₂.usable) fun w₃ h₃ => ?_
  exact commit_ends h₃

theorem answerTask_ends (content : String) (hw : w.usable = true) :
    Ends (answerTask env.reliable target content) w (fun _ w' => Responded env target calls w w')
      raises :=
  (answerTask_wrote content hw).mono (fun _ _ h => ⟨_, [], .final _ (plain_assistant target content), h⟩)
    fun _ _ h => h

/-- Calls with arguments in JSON: the message is committed and the batch published. -/
theorem dispatchCalls_batch (content : String) {payload : List ToolSpec}
    (hpayload : payloadOf env calls = .ok payload) (hw : w.usable = true) :
    Ends (dispatchCalls env.reliable target content calls) w
      (fun _ w' => Wrote env target.sessionId [assistantTurn target.taskId content calls]
        [batchEvent target payload] [] w w') raises := by
  unfold dispatchCalls
  have h₀ : Pending env target.sessionId [] [] w w := .refl hw
  refine h₀.bind (persist_pending _ hw) fun w₁ h₁ => ?_
  have hrun : ∃ w₂, toolsPayload env.reliable target.taskId calls w₁ = .ok (.ok payload) w₂ ∧
      Pending env target.sessionId [] [] w₁ w₂ :=
    ⟨_, hpayload ▸ payloadOf_reliable env calls ▸ toolsPayload_run env.reliable target.taskId calls w₁,
      (Pending.refl h₁.usable).log _ _⟩
  refine h₁.bind hrun fun w₂ h₂ => ?_
  have hcommit : (do publishTools (batchEvent target payload); commit env.reliable : Handler Unit) w₂ =
      .ok () (w₂.putTools (batchEvent target payload)).saved := by
    rw [bind_run]
    exact commit_reliable env (by exact h₂.usable)
  exact .of_ok hcommit (h₂.published _)

/-- The loop ends at a call whose arguments are not loaded. -/
theorem toolsPayload_pending {bad : BadCall} (hpayload : payloadOf env calls = .error bad) (hw : w.usable = true) :
    ∃ w', toolsPayload env.reliable target.taskId calls w = .ok (.error bad) w' ∧
      Pending env target.sessionId [] [] w w' :=
  ⟨_, hpayload ▸ payloadOf_reliable env calls ▸ toolsPayload_run env.reliable target.taskId calls w,
    (Pending.refl hw).log _ _⟩

/-- A call without arguments in JSON: an error message follows. -/
theorem dispatchCalls_malformed (content : String) {tc : ToolCall}
    (hpayload : payloadOf env calls = .error (tc, .malformed)) (hw : w.usable = true) :
    Ends (dispatchCalls env.reliable target content calls) w
      (fun _ w' => Wrote env target.sessionId [assistantTurn target.taskId content calls,
        assistantTurn target.taskId (invalidArguments env.reliable tc) []] [] [] w w') raises := by
  unfold dispatchCalls
  have h₀ : Pending env target.sessionId [] [] w w := .refl hw
  refine h₀.bind (persist_pending _ hw) fun w₁ h₁ => ?_
  refine h₁.bind (toolsPayload_pending hpayload h₁.usable) fun w₂ h₂ => ?_
  exact (endTask_ends _ h₂.usable).mono (fun _ _ h => h₂.wrote h) fun _ _ h => h

/-- The assistant message of calls that raise is in the unit of work. -/
def Refused (env : Env) (target : Target) (content : String) (calls : List ToolCall) (w w' : World) : Prop :=
  (∃ tc, payloadOf env calls = .error (tc, .refused)) ∧
    Pending env target.sessionId [assistantTurn target.taskId content calls] [] w w'

/-- A call with arguments that `json.loads` does not get through. -/
theorem dispatchCalls_refused (content : String) {tc : ToolCall}
    (hpayload : payloadOf env calls = .error (tc, .refused)) (hw : w.usable = true)
    {returns : Unit → World → Prop} : Ends (dispatchCalls env.reliable target content calls) w returns
      fun _ w' => Refused env target content calls w w' := by
  unfold dispatchCalls
  have h₀ : Pending env target.sessionId [] [] w w := .refl hw
  refine h₀.bind (persist_pending _ hw) fun w₁ h₁ => ?_
  refine h₁.bind (toolsPayload_pending hpayload h₁.usable) fun w₂ h₂ => ?_
  exact .of_error rfl ⟨⟨tc, hpayload⟩, h₂⟩

theorem dispatchCalls_ends (content : String) (hcalls : calls ≠ [])
    (hw : w.usable = true) : Ends (dispatchCalls env.reliable target content calls) w
      (fun _ w' => Responded env target calls w w') fun _ w' => Refused env target content calls w w' := by
  cases hp : payloadOf env calls with
  | ok payload =>
    exact (dispatchCalls_batch content hp hw).mono
      (fun _ _ h => ⟨_, _, .batch content payload hcalls hp, h⟩) fun _ _ h => h
  | error bad =>
    obtain ⟨tc, e⟩ := bad
    cases e with
    | malformed =>
      exact (dispatchCalls_malformed content hp hw).mono
        (fun _ _ h => ⟨_, [], .invalid content _ _ hp (plain_assistant target _), h⟩) fun _ _ h => h
    | refused => exact dispatchCalls_refused content hp hw

theorem Responded.of_pending {w' w'' : World} (h : Pending env target.sessionId [] [] w w')
    (h' : Responded env target calls w' w'') : Responded env target calls w w'' := by
  obtain ⟨turns, batches, hresponse, hwrote⟩ := h'
  exact ⟨turns, batches, hresponse, h.wrote hwrote⟩

theorem publishLineBreak_pending (content : String) (hw : w.usable = true) :
    ∃ w', publishLineBreak target content w = .ok () w' ∧
      Pending env target.sessionId [] [] w w' := by
  unfold publishLineBreak
  split_ifs
  · exact ⟨w, rfl, .refl hw⟩
  · exact publishLog_pending target.taskId _ hw

theorem processResponse_batch (content : List String) {payload : List ToolSpec} (hcalls : calls ≠ [])
    (hpayload : payloadOf env calls = .ok payload) (hw : w.usable = true) :
    Ends (processResponse env.reliable target content calls) w
      (fun _ w' => Wrote env target.sessionId [assistantTurn target.taskId (String.join content) calls]
        [batchEvent target payload] [] w w') raises := by
  unfold processResponse
  have h₀ : Pending env target.sessionId [] [] w w := .refl hw
  refine h₀.bind (publishLineBreak_pending _ hw) fun w₁ h₁ => ?_
  rw [if_neg (by simpa using hcalls)]
  exact (dispatchCalls_batch _ hpayload h₁.usable).mono (fun _ _ h => h₁.wrote h) fun _ _ h => h

/-- The first message has the text and the calls; when their arguments are loaded, nothing else is written. -/
theorem processResponse_opens (content : List String) (calls : List ToolCall) (hw : w.usable = true) :
    Ends (processResponse env.reliable target content calls) w
      (fun _ w' => ∃ turns batches, Wrote env target.sessionId
        (assistantTurn target.taskId (String.join content) calls :: turns) batches [] w w' ∧
        (∀ payload, calls ≠ [] → payloadOf env calls = .ok payload →
          turns = [] ∧ batches = [batchEvent target payload]) ∧
        ∀ bad, payloadOf env calls = .error bad → batches = [])
      fun _ w' => Refused env target (String.join content) calls w w' := by
  cases hp : payloadOf env calls with
  | ok payload =>
    by_cases hcalls : calls = []
    · unfold processResponse
      have h₀ : Pending env target.sessionId [] [] w w := .refl hw
      refine h₀.bind (publishLineBreak_pending _ hw) fun w₁ h₁ => ?_
      rw [if_pos (by simpa using hcalls), hcalls]
      exact (answerTask_wrote _ h₁.usable).mono
        (fun _ _ h => ⟨[], [], h₁.wrote h, fun _ hne => absurd rfl hne, fun _ _ => rfl⟩) fun _ _ h => h
    · refine (processResponse_batch content hcalls hp hw).mono (fun _ _ h => ⟨[], _, h, ?_, nofun⟩) fun _ _ h => h
      intro payload' _ heq
      cases heq
      exact ⟨rfl, rfl⟩
  | error bad =>
    have hcalls : calls ≠ [] := fun hnil => by
      rw [hnil] at hp
      cases hp
    unfold processResponse
    have h₀ : Pending env target.sessionId [] [] w w := .refl hw
    refine h₀.bind (publishLineBreak_pending _ hw) fun w₁ h₁ => ?_
    rw [if_neg (by simpa using hcalls)]
    obtain ⟨tc, e⟩ := bad
    cases e with
    | malformed =>
      exact (dispatchCalls_malformed _ hp h₁.usable).mono
        (fun _ _ h => ⟨_, [], h₁.wrote h, nofun, fun _ _ => rfl⟩) fun _ _ h => h
    | refused => exact (dispatchCalls_refused _ hp h₁.usable).mono (fun _ _ h => h) fun _ _ h => ⟨h.1, h₁.trans h.2⟩

theorem processResponse_ends (content : List String) (calls : List ToolCall)
    (hw : w.usable = true) : Ends (processResponse env.reliable target content calls) w
      (fun _ w' => Responded env target calls w w')
      fun _ w' => Refused env target (String.join content) calls w w' := by
  unfold processResponse
  have h₀ : Pending env target.sessionId [] [] w w := .refl hw
  refine h₀.bind (publishLineBreak_pending _ hw) fun w₁ h₁ => ?_
  by_cases hcalls : calls = []
  · rw [hcalls]
    exact (answerTask_ends _ h₁.usable).mono (fun _ _ h => .of_pending h₁ h) fun _ _ h => h
  · rw [if_neg (by simpa using hcalls)]
    exact (dispatchCalls_ends _ hcalls h₁.usable).mono (fun _ _ h => .of_pending h₁ h)
      fun _ _ h => ⟨h.1, h₁.trans h.2⟩

/-- An error of the stream is reported in a message of its own. -/
theorem reportStreamError_ends (message : String) (hw : w.usable = true) :
    Ends (reportStreamError env.reliable target message) w
      (fun _ w' => Wrote env target.sessionId [assistantTurn target.taskId (streamingError message) []] [] [] w w')
      raises := by
  have h₀ : Pending env target.sessionId [] [] w w := .refl hw
  unfold reportStreamError
  refine h₀.bind (publishLog_pending target.taskId _ hw) fun w₁ h₁ => ?_
  exact (endTask_ends _ h₁.usable).mono (fun _ _ h => h₁.wrote h) fun _ _ h => h

theorem streamResponse_ends (chunks : List (Option Delta)) (failure : Option String)
    (hw : w.usable = true) : Ends (streamResponse env.reliable target chunks failure) w
      (fun _ w' => Responded env target (ProviderReply.stream chunks failure).calls w w') raises := by
  unfold streamResponse
  obtain ⟨w₁, hrun, hstreamed⟩ := readStream_run target.taskId ⟨[], []⟩ chunks w
  have h₀ : Pending env target.sessionId [] [] w w := .refl hw
  have h₁ : Pending env target.sessionId [] [] w w₁ := h₀.streamed hstreamed
  -- a broken stream leaves the unit of work with nothing but log entries, refused arguments leave a message there
  refine (?_ : Ends _ w _ fun _ w' => Pending env target.sessionId [] [] w w' ∨ ∃ content,
    Refused env target content (ProviderReply.stream chunks failure).calls w w').tryCatch ?_
  · refine h₀.bind ⟨w₁, hrun, h₁⟩ fun w₁ h₁ => ?_
    cases failure with
    | some message => exact .of_error rfl (Or.inl h₁)
    | none =>
      exact (processResponse_ends _ _ h₁.usable).mono (fun _ _ h => .of_pending h₁ h)
        fun _ _ h => Or.inr ⟨_, h.1, h₁.trans h.2⟩
  · rintro e w' (h' | ⟨content, ⟨tc, hrefused⟩, h'⟩)
    · exact (reportStreamError_ends _ h'.usable).mono
        (fun _ _ h => ⟨_, [], .final _ (plain_assistant target _), h'.wrote h⟩) fun _ _ h => h
    · exact (reportStreamError_ends _ h'.usable).mono
        (fun _ _ h => ⟨_, [], .invalid content _ _ hrefused (plain_assistant target _), h'.wrote h⟩) fun _ _ h => h

end Run

/-! ## The model call -/

/-- At most one model call, this one, and none unless the condition holds. -/
def Asked (asks : Prop) (call : LlmCall) (calls : List LlmCall) : Prop :=
  calls = [] ∨ (asks ∧ calls = [call])

/-- The calls of a reply that was asked for. -/
def heard (reply : ProviderReply) : List LlmCall → List ToolCall
  | [] => []
  | _ :: _ => reply.calls

/-- The event ended with a response, after plain turns, and the model was asked as `asks` says: about
the conversation that holds these turns, `n` of them. -/
def Reasoned (env : Env) (target : Target) (asks : Prop) (n : ℕ) (reply : ProviderReply)
    (context : Database → List ContextEntry) (w w' : World) : Prop :=
  ∃ before turns batches calls, (∀ turn ∈ before, PlainTurn target turn) ∧
    (calls ≠ [] → before.length = n) ∧
    Response env target (heard reply calls) turns batches ∧
    Asked asks ⟨target.taskId, context (w.db.addTurns env.nextSequence target.sessionId before)⟩ calls ∧
    Wrote env target.sessionId (before ++ turns) batches calls w w'

/-- The event raised, with nothing committed. -/
def Raised (env : Env) (target : Target) (asks : Prop) (context : Database → List ContextEntry)
    (w w' : World) : Prop :=
  ∃ before calls, (∀ turn ∈ before, PlainTurn target turn) ∧
    Asked asks ⟨target.taskId, context (w.db.addTurns env.nextSequence target.sessionId before)⟩ calls ∧
    Pending env target.sessionId before calls w w'

section Reason
variable {env : Env} {target : Target} {session : SessionModel} {run : BrainRun} {w w' w'' : World}
variable {asks asks' : Prop} {n n' : ℕ} {reply : ProviderReply}
variable {context : Database → List ContextEntry} {before : List Turn}

/-- A batch is published only for a reply, and then the model was asked. -/
theorem Response.published {call : LlmCall} {calls : List LlmCall} {turns : List Turn}
    {batches : List ToolEvent} {batch : ToolEvent} (h : Response env target (heard reply calls) turns batches)
    (hasked : Asked asks call calls) (hbatch : batch ∈ batches) :
    asks ∧ ∃ payload, batch = batchEvent target payload := by
  cases h with
  | batch content payload hcalls =>
    rcases hasked with rfl | ⟨hasks, _⟩
    · exact absurd rfl hcalls
    · exact ⟨hasks, payload, List.mem_singleton.mp hbatch⟩
  | _ => exact absurd hbatch List.not_mem_nil

theorem Reasoned.of_responded (h : Responded env target [] w w') :
    Reasoned env target asks n reply context w w' := by
  obtain ⟨turns, batches, hresponse, hwrote⟩ := h
  exact ⟨[], turns, batches, [], fun _ h => absurd h List.not_mem_nil, fun h => absurd rfl h, hresponse,
    Or.inl rfl, hwrote⟩

/-- Plain turns come first, and are part of the conversation. -/
theorem Reasoned.of_pending (hplain : ∀ turn ∈ before, PlainTurn target turn)
    (h : Pending env target.sessionId before [] w w') (hasks : asks → asks')
    (hn : before.length + n = n') (h' : Reasoned env target asks n reply context w' w'') :
    Reasoned env target asks' n' reply context w w'' := by
  obtain ⟨before', turns, batches, calls, hplain', hlength, hresponse, hasked, hwrote⟩ := h'
  refine ⟨before ++ before', turns, batches, calls, ?_, ?_, hresponse, ?_, ?_⟩
  · intro turn hturn
    rcases List.mem_append.mp hturn with hturn | hturn
    · exact hplain turn hturn
    · exact hplain' turn hturn
  · intro hcalls
    rw [List.length_append, hlength hcalls, hn]
  · rw [Database.addTurns_append, ← h.db]
    exact hasked.imp id fun ⟨ha, hc⟩ => ⟨hasks ha, hc⟩
  · rw [List.append_assoc]
    exact h.wrote hwrote

theorem Raised.of_pending (hplain : ∀ turn ∈ before, PlainTurn target turn)
    (h : Pending env target.sessionId before [] w w') (hasks : asks → asks')
    (h' : Raised env target asks context w' w'') : Raised env target asks' context w w'' := by
  obtain ⟨before', calls, hplain', hasked, hpending⟩ := h'
  refine ⟨before ++ before', calls, ?_, ?_, h.trans hpending⟩
  · intro turn hturn
    rcases List.mem_append.mp hturn with hturn | hturn
    · exact hplain turn hturn
    · exact hplain' turn hturn
  · rw [Database.addTurns_append, ← h.db]
    exact hasked.imp id fun ⟨ha, hc⟩ => ⟨hasks ha, hc⟩

theorem Raised.intro (h : Pending env target.sessionId [] [] w w') :
    Raised env target asks context w w' :=
  ⟨[], [], fun _ h => absurd h List.not_mem_nil, Or.inl rfl, h⟩

theorem no_plain (target : Target) : ∀ turn ∈ ([] : List Turn), PlainTurn target turn :=
  fun _ h => absurd h List.not_mem_nil

theorem receiveReply_ends (model : Json) (reply : ProviderReply) (hw : w.usable = true) :
    Ends (receiveReply env.reliable target (context w.db) model reply) w
      (fun _ w' => Reasoned env target (reply ≠ .circuitOpen) 0 reply context w w')
      (fun _ w' => Raised env target (reply ≠ .circuitOpen) context w w') := by
  have h₀ : Pending env target.sessionId [] [] w w := .refl hw
  cases reply with
  | circuitOpen =>
    refine h₀.bind (publishLog_pending target.taskId _ hw) fun w₁ h₁ => ?_
    refine (finishWith_ends _ h₁.usable).mono (fun _ _ (h : Responded env target [] _ _) => ?_)
      fun _ _ h => h
    exact .of_responded (.of_pending h₁ h)
  | failed message =>
    refine h₀.bind (recordCall_pending _ hw) fun w₁ h₁ => ?_
    refine h₁.bind (publishLog_pending target.taskId _ h₁.usable) fun w₂ h₂ => ?_
    refine (finishWith_ends _ h₂.usable).mono (fun _ _ (h : Responded env target [] _ _) => ?_)
      fun _ _ h => h
    obtain ⟨turns, batches, hresponse, hwrote⟩ := h
    exact ⟨[], turns, batches, [⟨target.taskId, context w.db⟩], no_plain target, fun _ => rfl, hresponse,
      Or.inr ⟨nofun, rfl⟩, h₂.wrote hwrote⟩
  | stream chunks failure =>
    refine h₀.bind (recordCall_pending _ hw) fun w₁ h₁ => ?_
    cases model with
    | str s =>
      refine h₁.bind ⟨w₁, rfl, .refl h₁.usable⟩ fun w₂ h₂ => ?_
      refine h₂.bind (publishLog_pending target.taskId _ h₂.usable) fun w₃ h₃ => ?_
      refine (streamResponse_ends chunks failure h₃.usable).mono (fun _ _ h => ?_) fun _ _ h => h
      obtain ⟨turns, batches, hresponse, hwrote⟩ := h
      exact ⟨[], turns, batches, [⟨target.taskId, context w.db⟩], no_plain target, fun _ => rfl, hresponse,
        Or.inr ⟨nofun, rfl⟩, h₃.wrote hwrote⟩
    | _ => exact .of_error rfl ⟨[], _, no_plain target, Or.inr ⟨nofun, rfl⟩, h₁⟩

theorem callLlmAndStream_ends (config : ConfigLoader.LlmConfig) (reply : ProviderReply)
    (hw : w.usable = true) :
    Ends (callLlmAndStream env.reliable target (context w.db) config reply) w
      (fun _ w' => Reasoned env target (config.apiKey.truthy = true ∧ reply ≠ .circuitOpen) 0 reply context
        w w')
      (fun _ w' => Raised env target (config.apiKey.truthy = true ∧ reply ≠ .circuitOpen) context w w') := by
  unfold callLlmAndStream
  have h₀ : Pending env target.sessionId [] [] w w := .refl hw
  by_cases hkey : config.apiKey.truthy = true
  · rw [if_pos hkey]
    refine h₀.bind (publishLog_pending target.taskId _ hw) fun w₁ h₁ => ?_
    have hdb : w.db = w₁.db := h₁.db.symm
    rw [hdb]
    refine (receiveReply_ends config.model reply h₁.usable).mono (fun _ _ h => ?_) fun _ _ h => ?_
    · exact .of_pending (no_plain target) h₁ (fun h => ⟨hkey, h⟩) rfl h
    · exact .of_pending (no_plain target) h₁ (fun h => ⟨hkey, h⟩) h
  · rw [if_neg hkey]
    refine h₀.bind (publishLog_pending target.taskId _ hw) fun w₁ h₁ => ?_
    refine (finishWith_ends _ h₁.usable).mono (fun _ _ (h : Responded env target [] _ _) => ?_)
      fun _ _ h => h
    exact .of_responded (.of_pending h₁ h)

/-- The model is asked once the configuration is loaded. -/
def AsksWith (run : BrainRun) (config : ConfigLoader.LlmConfig) : Prop :=
  run.quota = .ok none ∧ config.apiKey.truthy = true ∧ run.reply ≠ .circuitOpen

theorem checkQuotaAndCall_ends (config : ConfigLoader.LlmConfig) (hw : w.usable = true) :
    Ends (checkQuotaAndCall env.reliable target (context w.db) config run) w
      (fun _ w' => Reasoned env target (AsksWith run config) 0 run.reply context w w')
      (fun _ w' => Raised env target (AsksWith run config) context w w') := by
  unfold checkQuotaAndCall
  have h₀ : Pending env target.sessionId [] [] w w := .refl hw
  refine h₀.bind (queryIf_pending _ hw) fun w₁ h₁ => ?_
  cases hquota : run.quota with
  | error e => exact .of_error rfl (.intro h₁)
  | ok exceeded =>
    cases exceeded with
    | some text =>
      refine (endTask_ends _ h₁.usable).mono (fun _ _ h => ?_) fun _ _ h => h
      exact .of_responded ⟨_, [], .final _ (plain_system target text), h₁.wrote h⟩
    | none =>
      have hdb : w.db = w₁.db := h₁.db.symm
      rw [hdb]
      refine (callLlmAndStream_ends config run.reply h₁.usable).mono (fun _ _ h => ?_) fun _ _ h => ?_
      · exact .of_pending (no_plain target) h₁ (fun h => ⟨hquota, h⟩) rfl h
      · exact .of_pending (no_plain target) h₁ (fun h => ⟨hquota, h⟩) h

/-- The model is asked at the end of a reasoning step. -/
def AsksModel (env : Env) (session : SessionModel) (run : BrainRun) : Prop :=
  run.retrieval = none ∧ ∃ config,
    ConfigLoader.loadSessionLlmConfig env.config env.tenants (some session) env.environ = .ok config ∧
      AsksWith run config

/-- The conversation that the model is given. -/
def conversation (env : Env) (target : Target) (session : SessionModel) (db : Database) :
    List ContextEntry :=
  let rows := contextRows db.visible target.sessionId session.tenantId target.taskId
  buildLlmContext env.cacheDir (env.systemPrompt session rows) rows

def descriptionRows (description : String) : ℕ := if isBlank description = true then 0 else 1

theorem persistDescription_pending (env : Env) (target : Target) (description : String) (hw : w.usable = true) :
    ∃ before, (∀ turn ∈ before, PlainTurn target turn) ∧ before.length = descriptionRows description ∧
      ∃ w', persistDescription env.reliable target description w = .ok () w' ∧
        Pending env target.sessionId before [] w w' := by
  unfold persistDescription descriptionRows
  split_ifs
  · exact ⟨[], no_plain target, rfl, w, rfl, .refl hw⟩
  · refine ⟨[roleTurn "user" target.taskId description], ?_, rfl, persist_pending _ hw⟩
    intro turn hturn
    rw [List.mem_singleton.mp hturn]
    exact plain_user target description

/-- The context is built from the rows that the query finds. -/
theorem loadContext_ok {w' : World} (hquery : query env.reliable w = .ok () w') :
    loadContext env.reliable target session none w = .ok (conversation env target session w'.db) w' := by
  unfold loadContext
  rw [bind_run, hquery]
  rfl

theorem loadContext_error {w' : World} {e : PyError} (hquery : query env.reliable w = .ok () w') :
    loadContext env.reliable target session (some e) w = .error e w' := by
  unfold loadContext
  rw [bind_run, hquery]
  rfl

theorem loadConfig_eq {w' : World} (hquery : queryIf env.reliable (decide (session.tenantId ≠ "")) w = .ok () w') :
    loadConfig env.reliable session w =
      raise (ConfigLoader.loadSessionLlmConfig env.config env.tenants (some session) env.environ) w' := by
  unfold loadConfig
  rw [bind_run, hquery]
  rfl

theorem reason_ends (description : String) (hw : w.usable = true) :
    Ends (reason env.reliable target session description run) w
      (fun _ w' => Reasoned env target (AsksModel env session run) (descriptionRows description) run.reply
        (conversation env target session) w w')
      (fun _ w' => Raised env target (AsksModel env session run) (conversation env target session) w w') := by
  unfold reason
  have h₀ : Pending env target.sessionId [] [] w w := .refl hw
  obtain ⟨before, hplain, hlength, hdescription⟩ := persistDescription_pending env target description hw
  refine h₀.bind hdescription fun w₁ h₁ => ?_
  -- the conversation is built from the rows that the description is now part of
  refine (?_ : Ends _ w₁
    (fun _ w' => Reasoned env target (AsksModel env session run) 0 run.reply
      (conversation env target session) w₁ w')
    (fun _ w' => Raised env target (AsksModel env session run) (conversation env target session) w₁ w')).mono
    (fun _ _ h => .of_pending hplain h₁ id hlength h) fun _ _ h => .of_pending hplain h₁ id h
  have h₁ : Pending env target.sessionId [] [] w₁ w₁ := .refl h₁.usable
  refine h₁.bind (publishLog_pending target.taskId _ h₁.usable) fun w₂ h₂ => ?_
  have hquery : ∃ w₃, query env.reliable w₂ = .ok () w₃ ∧
      Pending env target.sessionId [] [] w₂ w₃ := query_pending h₂.usable
  obtain ⟨w₃, hquery, h₂₃⟩ := hquery
  have h₃ : Pending env target.sessionId [] [] w₁ w₃ := h₂.trans h₂₃
  cases hretrieval : run.retrieval with
  | some e =>
    exact .of_error (by rw [bind_run, loadContext_error hquery]) (.intro h₃)
  | none =>
    have hrun : loadContext env.reliable target session none w₂ =
        .ok (conversation env target session w₁.db) w₃ := by
      have hdb : w₃.db = w₁.db := h₃.db
      rw [← hdb]
      exact loadContext_ok hquery
    refine h₂.bind ⟨w₃, hrun, h₂₃⟩ fun w₃ h₃ => ?_
    have hquery' : ∃ w₄, queryIf env.reliable (decide (session.tenantId ≠ "")) w₃ = .ok () w₄ ∧
        Pending env target.sessionId [] [] w₃ w₄ := queryIf_pending _ h₃.usable
    obtain ⟨w₄, hquery', h₃₄⟩ := hquery'
    have h₄ : Pending env target.sessionId [] [] w₁ w₄ := h₃.trans h₃₄
    cases hload : ConfigLoader.loadSessionLlmConfig env.config env.tenants (some session) env.environ with
    | error e =>
      have hrun' : loadConfig env.reliable session w₃ = .error e w₄ := by
        rw [loadConfig_eq hquery', hload]
        rfl
      exact .of_error (by rw [bind_run, hrun']) (.intro h₄)
    | ok config =>
      have hrun' : loadConfig env.reliable session w₃ = .ok config w₄ := by
        rw [loadConfig_eq hquery', hload]
        rfl
      refine h₃.bind ⟨w₄, hrun', h₃₄⟩ fun w₄ h₄ => ?_
      have hdb : w₁.db = w₄.db := h₄.db.symm
      rw [hdb]
      have hasks : AsksWith run config → AsksModel env session run :=
        fun h => ⟨hretrieval, config, hload, h⟩
      refine (checkQuotaAndCall_ends config h₄.usable).mono (fun _ _ h => ?_) fun _ _ h => ?_
      · exact .of_pending (no_plain target) h₄ hasks rfl h
      · exact .of_pending (no_plain target) h₄ hasks h

end Reason

/-! ## The event -/

/-- The iteration of the task is within the limit. -/
def WithinLimit (db : Database) (target : Target) : Prop :=
  ∀ task, findTask db target = some task → task.iterationCount < 50

def wrapUpRows (db : Database) (target : Target) : ℕ :=
  match findTask db target with
  | some task => if task.iterationCount + 1 = 40 then 1 else 0
  | none => 0

/-- The rows that an event gets before the model is asked. -/
def rowsBefore (db : Database) (target : Target) (description : String) : ℕ :=
  wrapUpRows db target + descriptionRows description

section Think
variable {env : Env} {target : Target} {session : SessionModel} {run : BrainRun} {w : World}

theorem wrapUp_pending (env : Env) (target : Target) (iteration : ℕ) {w : World} (hw : w.usable = true) :
    ∃ before, (∀ turn ∈ before, PlainTurn target turn) ∧
      before.length = (if iteration = 40 then 1 else 0) ∧
      ∃ w', wrapUp env.reliable target iteration w = .ok () w' ∧
        Pending env target.sessionId before [] w w' := by
  unfold wrapUp
  split_ifs
  · refine ⟨[roleTurn "system" target.taskId _], ?_, rfl, persist_pending _ hw⟩
    intro turn hturn
    rw [List.mem_singleton.mp hturn]
    exact plain_system target _
  · exact ⟨[], no_plain target, rfl, w, rfl, .refl hw⟩

theorem stopIterating_ends {raises : PyError → World → Prop} (hw : w.usable = true) :
    Ends (stopIterating env.reliable target) w (fun _ w' => Responded env target [] w w') raises := by
  unfold stopIterating
  have h₀ : Pending env target.sessionId [] [] w w := .refl hw
  refine h₀.bind (persist_pending _ hw) fun w₁ h₁ => ?_
  refine h₁.bind (publishLog_pending target.taskId _ h₁.usable) fun w₂ h₂ => ?_
  refine h₂.bind (publishLog_pending target.taskId _ h₂.usable) fun w₃ h₃ => ?_
  exact (commit_ends h₃).mono
    (fun _ _ h => ⟨_, [], .final _ (plain_assistant target maxIterationsReached), h⟩) fun _ _ h => h

theorem Pending.withTasks {w' : World} (h : Pending env target.sessionId [] [] w w')
    (tasks : List TaskModel) :
    Pending env target.sessionId [] [] (w.withTasks tasks) (w'.withTasks tasks) := by
  refine ⟨?_, h.committed, h.usable, h.executed, h.taskQueue, h.executionQueue, h.deadThinks,
    h.deadLetters, h.llmCalls, h.nextMessage⟩
  have hdb : w'.db = w.db := h.db
  show ({ w'.db with tasks := tasks } : Database) = { w.db with tasks := tasks }
  rw [hdb]

theorem map_incrementCount (task : TaskModel) (tasks : List TaskModel) :
    (incrementCount task tasks).map TaskModel.id = tasks.map TaskModel.id := by
  unfold incrementCount
  rw [List.map_map]
  refine List.map_congr_left fun t _ => ?_
  simp only [Function.comp]
  split_ifs <;> rfl

/-- The brain goes on with plain turns at most, or it has ended the task. -/
theorem countIteration_ends {raises : PyError → World → Prop} (hw : w.usable = true) :
    Ends (countIteration env.reliable target) w
      (fun going w' => ∃ tasks, tasks.map TaskModel.id = w.db.tasks.map TaskModel.id ∧
        ((going = true ∧ WithinLimit w.db target ∧ ∃ before, (∀ turn ∈ before, PlainTurn target turn) ∧
          before.length = wrapUpRows w.db target ∧
          Pending env target.sessionId before [] (w.withTasks tasks) w') ∨
        (going = false ∧ Responded env target [] (w.withTasks tasks) w')))
      raises := by
  unfold countIteration
  have h₀ : Pending env target.sessionId [] [] w w := .refl hw
  refine h₀.bind (query_pending hw) fun w₁ h₁ => ?_
  refine h₁.bind (b := w₁) ⟨w₁, rfl, .refl h₁.usable⟩ fun w₂ h₂ => ?_
  have hdb : w₁.db = w.db := h₁.db
  cases hfind : findTask w₁.db target with
  | none =>
    refine .of_ok rfl ⟨w.db.tasks, rfl, Or.inl ⟨rfl, ?_, [], no_plain target, ?_, h₂⟩⟩
    · intro task htask
      rw [← hdb, hfind] at htask
      cases htask
    · unfold wrapUpRows
      rw [← hdb, hfind]
      rfl
  | some task =>
    have hids : (incrementCount task w₂.db.tasks).map TaskModel.id = w.db.tasks.map TaskModel.id := by
      have hdb₂ : w₂.db = w.db := h₂.db
      rw [map_incrementCount, hdb₂]
    generalize htasks : incrementCount task w₂.db.tasks = tasks at hids
    have h₃ := h₂.withTasks tasks
    have hmodify : Ends (modify fun w => w.withTasks (incrementCount task w.db.tasks) : Handler Unit) w₂
        (fun _ w' => w' = w₂.withTasks tasks) raises := .of_ok rfl (congrArg w₂.withTasks htasks)
    refine hmodify.bind fun _ w' hw' => ?_
    rw [hw']
    split_ifs with hlimit
    · refine Ends.bind (stopIterating_ends h₃.usable) fun _ w₄ h₄ => ?_
      exact .of_ok rfl ⟨tasks, hids, Or.inr ⟨rfl, .of_pending h₃ h₄⟩⟩
    · obtain ⟨before, hplain, hlength, w₄, hwrap, h₄⟩ := wrapUp_pending env target
        (task.iterationCount + 1) h₃.usable
      refine h₃.bind ⟨w₄, hwrap, h₄⟩ fun w₅ h₅ => ?_
      refine .of_ok rfl ⟨tasks, hids, Or.inl ⟨rfl, ?_, before, hplain, ?_, h₅⟩⟩
      · intro task' htask'
        rw [← hdb, hfind] at htask'
        obtain rfl := Option.some.inj htask'
        omega
      · unfold wrapUpRows
        rw [← hdb, hfind]
        exact hlength

theorem think_ends (description : String) (hw : w.usable = true) :
    Ends (think env.reliable target session description run) w
      (fun _ w' => ∃ tasks, tasks.map TaskModel.id = w.db.tasks.map TaskModel.id ∧
        Reasoned env target (WithinLimit w.db target ∧ AsksModel env session run)
          (rowsBefore w.db target description) run.reply (conversation env target session)
          (w.withTasks tasks) w')
      (fun _ w' => ∃ tasks, Raised env target (WithinLimit w.db target ∧ AsksModel env session run)
        (conversation env target session) (w.withTasks tasks) w') := by
  unfold think
  refine Ends.bind (countIteration_ends hw) fun going w₁ h => ?_
  obtain ⟨tasks, hids, ⟨rfl, hlimit, before, hplain, hlength, h₁⟩ | ⟨rfl, hresponded⟩⟩ := h
  · refine (reason_ends description h₁.usable).mono (fun _ _ h => ?_) fun _ _ h => ?_
    · refine ⟨tasks, hids, .of_pending hplain h₁ (fun h => ⟨hlimit, h⟩) ?_ h⟩
      rw [hlength]
      rfl
    · exact ⟨tasks, .of_pending hplain h₁ (fun h => ⟨hlimit, h⟩) h⟩
  · exact .of_ok rfl ⟨tasks, hids, .of_responded hresponded⟩

/-- **The event of an existing session: a response, committed, or an exception with nothing
committed; and at most one model call, about the rows as they are then.** -/
theorem processTaskEvent_ends (env : Env) (run : BrainRun) {event : ThinkEvent} (hw : w.usable = true)
    (hsession : loadSession w.db event.sessionId event.tenantId = some session) :
    let target : Target := ⟨event.taskId, event.sessionId, session.tenantId⟩
    Ends (processTaskEvent env.reliable event run) w
      (fun _ w' => ∃ tasks, tasks.map TaskModel.id = w.db.tasks.map TaskModel.id ∧
        Reasoned env target (WithinLimit w.db target ∧ AsksModel env session run)
          (rowsBefore w.db target event.description) run.reply (conversation env target session)
          (w.withTasks tasks) w')
      (fun _ w' => ∃ tasks, Raised env target (WithinLimit w.db target ∧ AsksModel env session run)
        (conversation env target session) (w.withTasks tasks) w') := by
  intro target
  unfold processTaskEvent
  have h₀ : Pending env target.sessionId [] [] w w := .refl hw
  refine h₀.bind (query_pending hw) fun w₁ h₁ => ?_
  refine h₁.bind (b := w₁) ⟨w₁, rfl, .refl h₁.usable⟩ fun w₂ h₂ => ?_
  have hdb : w₁.db = w.db := h₁.db
  have hdb₂ : w₂.db = w.db := h₂.db
  rw [hdb, hsession]
  refine (think_ends event.description h₂.usable).mono (fun _ _ h => ?_) fun _ _ h => ?_
  · obtain ⟨tasks, hids, h⟩ := h
    rw [hdb₂] at h hids
    exact ⟨tasks, hids, .of_pending (no_plain target) (h₂.withTasks tasks) id (Nat.zero_add _) h⟩
  · obtain ⟨tasks, h⟩ := h
    rw [hdb₂] at h
    exact ⟨tasks, .of_pending (no_plain target) (h₂.withTasks tasks) id h⟩

theorem processTaskEvent_missing {event : ThinkEvent} {raises : PyError → World → Prop}
    (hw : w.usable = true) (hsession : loadSession w.db event.sessionId event.tenantId = none) :
    Ends (processTaskEvent env.reliable event run) w
      (fun _ w' => Responded env ⟨event.taskId, event.sessionId, event.tenantId.getD ""⟩ [] w w')
      raises := by
  generalize htarget : (⟨event.taskId, event.sessionId, event.tenantId.getD ""⟩ : Target) = target
  unfold processTaskEvent
  have h₀ : Pending env target.sessionId [] [] w w := .refl hw
  refine h₀.bind (query_pending hw) fun w₁ h₁ => ?_
  refine h₁.bind (b := w₁) ⟨w₁, rfl, .refl h₁.usable⟩ fun w₂ h₂ => ?_
  have hdb : w₁.db = w.db := h₁.db
  rw [hdb, hsession]
  simp only
  rw [htarget]
  refine (endTask_ends _ h₂.usable).mono (fun _ _ h => ?_) fun _ _ h => h
  refine ⟨_, [], .final _ ?_, h₂.wrote h⟩
  have htask : target.taskId = event.taskId := by rw [← htarget]
  rw [← htask]
  exact plain_system target _

end Think
end KernelRuntime.AgentLoop
