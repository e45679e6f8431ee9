import KernelRuntime.AgentLoop.BrainEffects

/-! # How an event of the brain ends

The brain takes `Quiet` steps, which add nothing but other entries to the log of the task, and then ends
the event: with `TASK_RESOLVED` on that log, or with a batch for the tool worker. What raises on the way is
not caught, and leaves the event without an end. -/

namespace KernelRuntime.AgentLoop
set_option autoImplicit false

/-- The event has one end, and all that it stored is committed. -/
structure OneEnd (taskId : Option String) (batches : List ToolEvent) (w w' : World) : Prop where
  taskLog : ∃ es : List LogEvent, w'.taskLog = w.taskLog ++ es.map (fun e => (taskId, e)) ∧
    es.count .taskResolved + batches.length = 1
  published : ∃ messages, w'.executionQueue = w.executionQueue ++ messages ∧
    messages.map StreamMessage.data = batches
  kind : ∀ batch ∈ batches, batch.eventType = .executeToolBatch
  committed : w'.committed = w'.db

/-- The event has one end, and the tasks are as before. -/
structure Ended (taskId : Option String) (batches : List ToolEvent) (w w' : World) : Prop
    extends OneEnd taskId batches w w' where
  tasks : w'.db.tasks = w.db.tasks

/-- Entries are added to the log of the task, none of them ends it, and nothing is committed. -/
structure Quiet (taskId : Option String) (w w' : World) : Prop where
  taskLog : ∃ es : List LogEvent, LogEvent.taskResolved ∉ es ∧
    w'.taskLog = w.taskLog ++ es.map fun e => (taskId, e)
  executionQueue : w'.executionQueue = w.executionQueue
  tasks : w'.db.tasks = w.db.tasks
  committed : w'.committed = w.committed
  usable : w'.usable = true

section Rules
variable {env : Env} {taskId : Option String} {batches : List ToolEvent} {w w' w'' : World}

theorem Quiet.of_eq (hlog : w'.taskLog = w.taskLog) (hqueue : w'.executionQueue = w.executionQueue)
    (htasks : w'.db.tasks = w.db.tasks) (hcommitted : w'.committed = w.committed) (hw : w'.usable = true) :
    Quiet taskId w w' :=
  ⟨⟨[], List.not_mem_nil, hlog.trans (List.append_nil _).symm⟩, hqueue, htasks, hcommitted, hw⟩

theorem Quiet.refl (hw : w.usable = true) : Quiet taskId w w := .of_eq rfl rfl rfl rfl hw

theorem Quiet.trans (h : Quiet taskId w w') (h' : Quiet taskId w' w'') : Quiet taskId w w'' := by
  obtain ⟨es, hes, hlog⟩ := h.taskLog
  obtain ⟨es', hes', hlog'⟩ := h'.taskLog
  refine ⟨⟨es ++ es', ?_, ?_⟩, h'.executionQueue.trans h.executionQueue, h'.tasks.trans h.tasks,
    h'.committed.trans h.committed, h'.usable⟩
  · rw [List.mem_append]
    exact fun hmem => hmem.elim hes hes'
  · rw [hlog', hlog, List.map_append, List.append_assoc]

theorem Quiet.oneEnd (h : Quiet taskId w w') (h' : OneEnd taskId batches w' w'') :
    OneEnd taskId batches w w'' := by
  obtain ⟨es, hes, hlog⟩ := h.taskLog
  obtain ⟨es', hlog', hone⟩ := h'.taskLog
  refine ⟨⟨es ++ es', ?_, ?_⟩, ?_, h'.kind, h'.committed⟩
  · rw [hlog', hlog, List.map_append, List.append_assoc]
  · rw [List.count_append, List.count_eq_zero_of_not_mem hes, Nat.zero_add]
    exact hone
  · rw [← h.executionQueue]
    exact h'.published

theorem Quiet.ended (h : Quiet taskId w w') (h' : Ended taskId batches w' w'') :
    Ended taskId batches w w'' :=
  ⟨h.oneEnd h'.toOneEnd, h'.tasks.trans h.tasks⟩

theorem Quiet.no_end (h : Quiet taskId w w') : ¬ OneEnd taskId batches w w' := by
  intro hend
  obtain ⟨es, hes, hlog⟩ := h.taskLog
  obtain ⟨es', hlog', hone⟩ := hend.taskLog
  obtain ⟨messages, hqueue, hdata⟩ := hend.published
  have hsame : es' = es := by
    have hmap := List.append_cancel_left (hlog'.symm.trans hlog)
    exact List.map_injective_iff.mpr (fun _ _ h => congrArg Prod.snd h) hmap
  have hnone : messages = [] := List.append_right_eq_self.mp (hqueue.symm.trans h.executionQueue)
  rw [hnone] at hdata
  rw [hsame, List.count_eq_zero_of_not_mem hes, ← hdata] at hone
  exact absurd hone (by decide)

theorem Quiet.withTasks (h : Quiet taskId w w') (tasks : List TaskModel) :
    Quiet taskId (w.withTasks tasks) (w'.withTasks tasks) :=
  ⟨h.taskLog, h.executionQueue, rfl, h.committed, h.usable⟩

theorem Quiet.resolved (h : Quiet taskId w w') : Ended taskId [] w (w'.log taskId .taskResolved).saved := by
  have hlast : Ended taskId [] w' (w'.log taskId .taskResolved).saved :=
    ⟨⟨⟨[.taskResolved], rfl, by decide⟩, ⟨[], (List.append_nil _).symm, rfl⟩, nofun, rfl⟩, rfl⟩
  exact h.ended hlast

theorem Quiet.dispatched (h : Quiet taskId w w') (target : Target) (payload : List ToolSpec) :
    Ended taskId [batchEvent target payload] w (w'.putTools (batchEvent target payload)).saved := by
  have hlast : Ended taskId [batchEvent target payload] w' (w'.putTools (batchEvent target payload)).saved := by
    refine ⟨⟨⟨[], (List.append_nil _).symm, rfl⟩, ⟨_, rfl, rfl⟩, ?_, rfl⟩, rfl⟩
    intro batch hbatch
    rw [List.mem_singleton.mp hbatch]
    rfl
  exact h.ended hlast

variable {α β : Type} {returns : α → World → Prop} {raises : PyError → World → Prop}

theorem Quiet.bind {m : Handler β} {f : β → Handler α} {b : β} (h : Quiet taskId w w')
    (hm : ∃ w'', m w' = .ok b w'' ∧ Quiet taskId w' w'')
    (hf : ∀ w'', Quiet taskId w w'' → Ends (f b) w'' returns raises) : Ends (m >>= f) w' returns raises := by
  obtain ⟨w'', hrun, h'⟩ := hm
  exact .bind_ok hrun (hf w'' (h.trans h'))

theorem persist_quiet (sessionId : String) (turn : Turn) (hw : w.usable = true) :
    ∃ w', persistMessage env.reliable sessionId turn w = .ok () w' ∧ Quiet taskId w w' :=
  ⟨_, persistMessage_reliable env sessionId turn hw, .of_eq rfl rfl rfl rfl hw⟩

theorem query_quiet (hw : w.usable = true) :
    ∃ w', query env.reliable w = .ok () w' ∧ Quiet taskId w w' :=
  ⟨_, query_reliable env hw, .of_eq rfl rfl rfl rfl hw⟩

theorem queryIf_quiet (condition : Bool) (hw : w.usable = true) :
    ∃ w', queryIf env.reliable condition w = .ok () w' ∧ Quiet taskId w w' := by
  cases condition with
  | false => exact ⟨w, rfl, .refl hw⟩
  | true => exact query_quiet hw

theorem quiet_logAll {es : List LogEvent} (hes : LogEvent.taskResolved ∉ es) (hw : w.usable = true) :
    Quiet taskId w (w.logAll taskId es) :=
  ⟨⟨es, hes, rfl⟩, rfl, rfl, rfl, hw⟩

theorem Quiet.streamed (h : Quiet taskId w w') (hs : w'.Streamed w'' taskId) : Quiet taskId w w'' := by
  obtain ⟨es, hes, rfl⟩ := hs
  exact h.trans (quiet_logAll hes h.usable)

theorem publishLog_quiet {e : LogEvent} (he : e ≠ .taskResolved) (hw : w.usable = true) :
    ∃ w', publishLog taskId e w = .ok () w' ∧ Quiet taskId w w' :=
  ⟨_, rfl, (Quiet.refl hw).streamed (w.streamed_log taskId he)⟩

theorem recordCall_quiet (call : LlmCall) (hw : w.usable = true) :
    ∃ w', recordCall call w = .ok () w' ∧ Quiet taskId w w' :=
  ⟨_, rfl, .of_eq rfl rfl rfl rfl hw⟩

/-- The last two statements of an event that ends its task. -/
theorem resolve_ended (h : Quiet taskId w w') :
    Ends (do publishLog taskId .taskResolved; commit env.reliable : Handler Unit) w'
      (fun _ w'' => Ended taskId [] w w'') raises := by
  have hpublish : publishLog taskId .taskResolved w' = .ok () (w'.log taskId .taskResolved) := rfl
  exact .bind_ok hpublish (.of_ok (commit_reliable env (by exact h.usable)) h.resolved)

end Rules

/-! ## Responses -/

section Responses
variable {env : Env} {target : Target} {w : World} {raises : PyError → World → Prop}

theorem endTask_ended (turn : Turn) (hw : w.usable = true) :
    Ends (endTask env.reliable target turn) w (fun _ w' => Ended target.taskId [] w w') raises := by
  unfold endTask
  have h₀ : Quiet target.taskId w w := .refl hw
  refine h₀.bind (persist_quiet target.sessionId turn hw) fun w₁ h₁ => ?_
  exact resolve_ended h₁

theorem answerTask_ended (content : String) (hw : w.usable = true) :
    Ends (answerTask env.reliable target content) w (fun _ w' => Ended target.taskId [] w w') raises := by
  unfold answerTask
  have h₀ : Quiet target.taskId w w := .refl hw
  refine h₀.bind (persist_quiet target.sessionId _ hw) fun w₁ h₁ => ?_
  have hresolved : ∃ w₂, publishResolved ⟨target.taskId, target.sessionId, content⟩ w₁ = .ok () w₂ ∧
      Quiet target.taskId w₁ w₂ :=
    ⟨_, rfl, .of_eq rfl rfl rfl rfl h₁.usable⟩
  refine h₁.bind hresolved fun w₂ h₂ => ?_
  exact resolve_ended h₂

/-- Arguments that `json.loads` does not get through leave the event without an end. -/
theorem dispatchCalls_ended (content : String) (toolCalls : List ToolCall) (hw : w.usable = true) :
    Ends (dispatchCalls env.reliable target content toolCalls) w
      (fun _ w' => ∃ batches, Ended target.taskId batches w w') fun _ w' => Quiet target.taskId w w' := by
  unfold dispatchCalls
  have h₀ : Quiet target.taskId w w := .refl hw
  refine h₀.bind (persist_quiet target.sessionId _ hw) fun w₁ h₁ => ?_
  have hpayload := toolsPayload_run env.reliable target.taskId toolCalls w₁
  have hstarted : Quiet target.taskId w₁ (w₁.logAll target.taskId (startEvents env.reliable toolCalls)) :=
    quiet_logAll (not_mem_startEvents _ toolCalls) h₁.usable
  refine h₁.bind ⟨_, hpayload, hstarted⟩ fun w₂ h₂ => ?_
  cases payloadOf env.reliable toolCalls with
  | error bad =>
    obtain ⟨tc, e⟩ := bad
    cases e with
    | malformed => exact (endTask_ended _ h₂.usable).mono (fun _ _ h => ⟨[], h₂.ended h⟩) fun _ _ h => h
    | refused => exact .of_error rfl h₂
  | ok payload =>
    have hpublish : publishTools (batchEvent target payload) w₂ =
        .ok () (w₂.putTools (batchEvent target payload)) := rfl
    refine .bind_ok hpublish (.of_ok (commit_reliable env (by exact h₂.usable)) ?_)
    exact ⟨_, h₂.dispatched target payload⟩

theorem processResponse_ended (content : List String) (toolCalls : List ToolCall) (hw : w.usable = true) :
    Ends (processResponse env.reliable target content toolCalls) w
      (fun _ w' => ∃ batches, Ended target.taskId batches w w') fun _ w' => Quiet target.taskId w w' := by
  unfold processResponse
  have hbreak : ∃ w', publishLineBreak target (String.join content) w = .ok () w' ∧
      Quiet target.taskId w w' := by
    unfold publishLineBreak
    split_ifs
    · exact ⟨w, rfl, .refl hw⟩
    · exact publishLog_quiet nofun hw
  have h₀ : Quiet target.taskId w w := .refl hw
  refine h₀.bind hbreak fun w₁ h₁ => ?_
  split_ifs
  · exact (answerTask_ended _ h₁.usable).mono (fun _ _ h => ⟨[], h₁.ended h⟩) fun _ _ h => h
  · refine (dispatchCalls_ended _ toolCalls h₁.usable).mono (fun _ _ h => ?_) fun _ _ h => h₁.trans h
    obtain ⟨batches, h⟩ := h
    exact ⟨batches, h₁.ended h⟩

/-- A stream that breaks ends the task like one that is answered. -/
theorem streamResponse_ended (chunks : List (Option Delta)) (failure : Option String) (hw : w.usable = true) :
    Ends (streamResponse env.reliable target chunks failure) w
      (fun _ w' => ∃ batches, Ended target.taskId batches w w') raises := by
  unfold streamResponse
  obtain ⟨w₁, hrun, hstreamed⟩ := readStream_run target.taskId ⟨[], []⟩ chunks w
  have hread : ∃ w', readStream target.taskId ⟨[], []⟩ chunks w = .ok (collect chunks) w' ∧
      Quiet target.taskId w w' := ⟨w₁, hrun, (Quiet.refl hw).streamed hstreamed⟩
  refine (?_ : Ends _ w _ fun _ w' => Quiet target.taskId w w').tryCatch ?_
  · refine (Quiet.refl hw).bind hread fun w₁ h₁ => ?_
    cases failure with
    | some message => exact .of_error rfl h₁
    | none =>
      refine (processResponse_ended _ _ h₁.usable).mono (fun _ _ h => ?_) fun _ _ h => h₁.trans h
      obtain ⟨batches, h⟩ := h
      exact ⟨batches, h₁.ended h⟩
  · intro e w' h'
    refine h'.bind (publishLog_quiet nofun h'.usable) fun w₂ h₂ => ?_
    exact (endTask_ended _ h₂.usable).mono (fun _ _ h => ⟨[], h₂.ended h⟩) fun _ _ h => h

end Responses

/-! ## The model call -/

/-- A streamed answer is announced under the name of the model, which is a string then. -/
def Announced (reply : ProviderReply) (model : Json) : Prop :=
  ∀ chunks failure, reply = .stream chunks failure → ∃ name, model = .str name

def ConfigLoads (env : Env) (session : SessionModel) : Prop :=
  ∃ config, ConfigLoader.loadSessionLlmConfig env.config env.tenants (some session) env.environ = .ok config

/-- Nothing raises between the count of the iteration and the answer of the model: the context is built,
the quota check finds at most that the quota is exceeded, and the answer can be announced. -/
structure Undisturbed (env : Env) (session : SessionModel) (run : BrainRun) : Prop where
  context : run.retrieval = none
  quota : ∀ e, run.quota ≠ .error e
  announced : ∀ config,
    ConfigLoader.loadSessionLlmConfig env.config env.tenants (some session) env.environ = .ok config →
      AsksWith run config → Announced run.reply config.model

/-- The event ends if the condition holds, and is interrupted if it does not. -/
def EndsIf (condition : Prop) (taskId : Option String) (m : Handler Unit) (w : World) : Prop :=
  Ends m w (fun _ w' => condition ∧ ∃ batches, Ended taskId batches w w')
    fun _ w' => ¬ condition ∧ Quiet taskId w w'

section Reasoning
variable {env : Env} {target : Target} {session : SessionModel} {run : BrainRun} {w : World}
variable {condition condition' : Prop} {taskId : Option String}

theorem EndsIf.of_ended {m : Handler Unit} {batches : List ToolEvent} (hcondition : condition)
    (h : Ends m w (fun _ w' => Ended taskId batches w w') fun _ _ => False) : EndsIf condition taskId m w :=
  h.mono (fun _ _ h => ⟨hcondition, batches, h⟩) fun _ _ h => h.elim

theorem EndsIf.of_error {m : Handler Unit} {e : PyError} {w' : World} (hcondition : ¬ condition)
    (hrun : m w = .error e w') (h : Quiet taskId w w') : EndsIf condition taskId m w :=
  Ends.of_error hrun ⟨hcondition, h⟩

theorem EndsIf.congr {m : Handler Unit} (hiff : condition ↔ condition') (h : EndsIf condition taskId m w) :
    EndsIf condition' taskId m w :=
  h.mono (fun _ _ h => ⟨hiff.mp h.1, h.2⟩) fun _ _ h => ⟨fun hc => h.1 (hiff.mpr hc), h.2⟩

theorem EndsIf.bind {β : Type} {m : Handler β} {f : β → Handler Unit} {b : β}
    (hm : ∃ w', m w = .ok b w' ∧ Quiet taskId w w')
    (hf : ∀ w', Quiet taskId w w' → EndsIf condition taskId (f b) w') :
    EndsIf condition taskId (m >>= f) w := by
  obtain ⟨w', hrun, h⟩ := hm
  refine .bind_ok hrun ((hf w' h).mono (fun _ _ hend => ?_) fun _ _ hquiet => ?_)
  · obtain ⟨hcondition, batches, hend⟩ := hend
    exact ⟨hcondition, batches, h.ended hend⟩
  · exact ⟨hquiet.1, h.trans hquiet.2⟩

theorem receiveReply_endsIf (messages : List ContextEntry) (model : Json) (reply : ProviderReply)
    (hw : w.usable = true) :
    EndsIf (Announced reply model) target.taskId (receiveReply env.reliable target messages model reply) w := by
  cases reply with
  | circuitOpen =>
    refine .bind (publishLog_quiet nofun hw) fun w₁ h₁ => ?_
    exact .of_ended nofun (endTask_ended _ h₁.usable)
  | failed message =>
    refine .bind (recordCall_quiet _ hw) fun w₁ h₁ => ?_
    refine .bind (publishLog_quiet nofun h₁.usable) fun w₂ h₂ => ?_
    exact .of_ended nofun (endTask_ended _ h₂.usable)
  | stream chunks failure =>
    refine .bind (recordCall_quiet _ hw) fun w₁ h₁ => ?_
    cases model with
    | str name =>
      refine .bind ⟨w₁, rfl, .refl h₁.usable⟩ fun w₂ h₂ => ?_
      refine .bind (publishLog_quiet nofun h₂.usable) fun w₃ h₃ => ?_
      have hname : Announced (.stream chunks failure) (.str name) := fun _ _ _ => ⟨name, rfl⟩
      have hresponse : Ends (streamResponse env.reliable target chunks failure) w₃ _ fun _ _ => False :=
        streamResponse_ended chunks failure h₃.usable
      exact hresponse.mono (fun _ _ h => ⟨hname, h⟩) fun _ _ h => h.elim
    | _ =>
      refine .of_error ?_ rfl (.refl h₁.usable)
      intro hname
      obtain ⟨name, heq⟩ := hname chunks failure rfl
      cases heq

theorem callLlmAndStream_endsIf (messages : List ContextEntry) (config : ConfigLoader.LlmConfig)
    (reply : ProviderReply) (hw : w.usable = true) :
    EndsIf (config.apiKey.truthy = true → Announced reply config.model) target.taskId
      (callLlmAndStream env.reliable target messages config reply) w := by
  unfold callLlmAndStream
  by_cases hkey : config.apiKey.truthy = true
  · rw [if_pos hkey]
    refine .bind (publishLog_quiet nofun hw) fun w₁ h₁ => ?_
    exact (receiveReply_endsIf messages config.model reply h₁.usable).congr ⟨fun h _ => h, fun h => h hkey⟩
  · rw [if_neg hkey]
    refine .bind (publishLog_quiet nofun hw) fun w₁ h₁ => ?_
    exact .of_ended (fun h => absurd h hkey) (endTask_ended _ h₁.usable)

theorem checkQuotaAndCall_endsIf (messages : List ContextEntry) (config : ConfigLoader.LlmConfig)
    (hw : w.usable = true) :
    EndsIf ((∀ e, run.quota ≠ .error e) ∧ (AsksWith run config → Announced run.reply config.model))
      target.taskId (checkQuotaAndCall env.reliable target messages config run) w := by
  unfold checkQuotaAndCall
  refine .bind (queryIf_quiet _ hw) fun w₁ h₁ => ?_
  cases hquota : run.quota with
  | error e => exact .of_error (fun h => h.1 e rfl) rfl (.refl h₁.usable)
  | ok exceeded =>
    cases exceeded with
    | some text =>
      refine .of_ended ⟨nofun, fun hasks => ?_⟩ (endTask_ended _ h₁.usable)
      rw [hasks.1] at hquota
      cases hquota
    | none =>
      refine (callLlmAndStream_endsIf messages config run.reply h₁.usable).congr ⟨fun h => ?_, fun h hkey => ?_⟩
      · exact ⟨nofun, fun hasks => h hasks.2.1⟩
      · intro chunks failure hstream
        have hasks : AsksWith run config := ⟨hquota, hkey, by rw [hstream]; exact nofun⟩
        exact h.2 hasks chunks failure hstream

theorem reason_endsIf (description : String) (hw : w.usable = true) :
    EndsIf (ConfigLoads env session ∧ Undisturbed env session run) target.taskId
      (reason env.reliable target session description run) w := by
  unfold reason
  have hdescription : ∃ w', persistDescription env.reliable target description w = .ok () w' ∧
      Quiet target.taskId w w' := by
    unfold persistDescription
    split_ifs
    · exact ⟨w, rfl, .refl hw⟩
    · exact persist_quiet target.sessionId _ hw
  refine .bind hdescription fun w₁ h₁ => ?_
  refine .bind (publishLog_quiet nofun h₁.usable) fun w₂ h₂ => ?_
  have hquery : ∃ w₃, query env.reliable w₂ = .ok () w₃ ∧ Quiet target.taskId w₂ w₃ := query_quiet h₂.usable
  obtain ⟨w₃, hquery, h₃⟩ := hquery
  cases hretrieval : run.retrieval with
  | some e =>
    refine .of_error (fun h => ?_) (by rw [bind_run, loadContext_error hquery]) h₃
    rw [h.2.context] at hretrieval
    cases hretrieval
  | none =>
    refine .bind ⟨w₃, loadContext_ok hquery, h₃⟩ fun w₃ h₃ => ?_
    have hquery' : ∃ w₄, queryIf env.reliable (decide (session.tenantId ≠ "")) w₃ = .ok () w₄ ∧
        Quiet target.taskId w₃ w₄ := queryIf_quiet _ h₃.usable
    obtain ⟨w₄, hquery', h₄⟩ := hquery'
    cases hload : ConfigLoader.loadSessionLlmConfig env.config env.tenants (some session) env.environ with
    | error e =>
      have hrun' : loadConfig env.reliable session w₃ = .error e w₄ := by
        rw [loadConfig_eq hquery', hload]
        rfl
      refine .of_error (fun h => ?_) (by rw [bind_run, hrun']) h₄
      obtain ⟨config, hconfig⟩ := h.1
      rw [hload] at hconfig
      cases hconfig
    | ok config =>
      have hrun' : loadConfig env.reliable session w₃ = .ok config w₄ := by
        rw [loadConfig_eq hquery', hload]
        rfl
      refine .bind ⟨w₄, hrun', h₄⟩ fun w₄ h₄ => ?_
      refine (checkQuotaAndCall_endsIf _ config h₄.usable).congr ⟨fun h => ?_, fun h => ?_⟩
      · refine ⟨⟨config, hload⟩, hretrieval, h.1, fun config' hload' => ?_⟩
        rw [hload] at hload'
        cases hload'
        exact h.2
      · exact ⟨h.2.quota, h.2.announced config hload⟩

end Reasoning

/-! ## The event -/

/-- The tasks when the iteration is counted. -/
def countedTasks (db : Database) (target : Target) : List TaskModel :=
  match findTask db target with
  | some task => incrementCount task db.tasks
  | none => db.tasks

section Event
variable {env : Env} {target : Target} {session : SessionModel} {run : BrainRun} {w : World}
variable {raises : PyError → World → Prop}

/-- The query that the iteration is counted with leaves everything else as it is, whatever becomes of the tasks. -/
theorem query_counted (env : Env) (taskId : Option String) (hw : w.usable = true) :
    ∃ w', query env.reliable w = .ok () w' ∧ w'.db = w.db ∧
      ∀ tasks, Quiet taskId (w.withTasks tasks) (w'.withTasks tasks) :=
  ⟨_, query_reliable env hw, rfl, fun _ => .of_eq rfl rfl rfl rfl hw⟩

theorem stopIterating_ended (hw : w.usable = true) :
    Ends (stopIterating env.reliable target) w (fun _ w' => Ended target.taskId [] w w') raises := by
  unfold stopIterating
  have h₀ : Quiet target.taskId w w := .refl hw
  refine h₀.bind (persist_quiet target.sessionId _ hw) fun w₁ h₁ => ?_
  refine h₁.bind (publishLog_quiet nofun h₁.usable) fun w₂ h₂ => ?_
  exact resolve_ended h₂

theorem wrapUp_quiet (iteration : ℕ) (hw : w.usable = true) :
    ∃ w', wrapUp env.reliable target iteration w = .ok () w' ∧ Quiet target.taskId w w' := by
  unfold wrapUp
  split_ifs
  · exact persist_quiet target.sessionId _ hw
  · exact ⟨w, rfl, .refl hw⟩

/-- The iteration is counted, and the brain goes on within the limit. -/
theorem countIteration_ended (hw : w.usable = true) :
    Ends (countIteration env.reliable target) w
      (fun going w' =>
        (going = true ∧ WithinLimit w.db target ∧
          Quiet target.taskId (w.withTasks (countedTasks w.db target)) w') ∨
        (going = false ∧ ¬ WithinLimit w.db target ∧
          Ended target.taskId [] (w.withTasks (countedTasks w.db target)) w')) raises := by
  unfold countIteration
  obtain ⟨w₁, hquery, hdb, hcounted⟩ := query_counted env target.taskId hw
  refine .bind_ok hquery ?_
  have hget : (get : Handler World) w₁ = .ok w₁ w₁ := rfl
  refine .bind_ok hget ?_
  rw [hdb]
  unfold countedTasks WithinLimit
  cases hfind : findTask w.db target with
  | none =>
    refine .of_ok rfl (Or.inl ⟨rfl, nofun, ?_⟩)
    have hquiet : Quiet target.taskId (w.withTasks w₁.db.tasks) w₁ := hcounted w₁.db.tasks
    rw [hdb] at hquiet
    exact hquiet
  | some task =>
    have h₁ := hcounted (incrementCount task w₁.db.tasks)
    have hmodify : (modify fun w => w.withTasks (incrementCount task w.db.tasks) : Handler Unit) w₁ =
        .ok () (w₁.withTasks (incrementCount task w₁.db.tasks)) := rfl
    refine .bind_ok hmodify ?_
    rw [hdb] at h₁ ⊢
    split_ifs with hlimit
    · refine Ends.bind (stopIterating_ended h₁.usable) fun _ w₂ h₂ => ?_
      refine .of_ok rfl (Or.inr ⟨rfl, fun hwithin => ?_, h₁.ended h₂⟩)
      have hcount := hwithin task rfl
      omega
    · refine h₁.bind (wrapUp_quiet _ h₁.usable) fun w₂ h₂ => ?_
      refine .of_ok rfl (Or.inl ⟨rfl, fun task' htask' => ?_, h₂⟩)
      obtain rfl := Option.some.inj htask'
      omega

/-- An event within the limit can be interrupted, and one beyond the limit ends the task. -/
theorem think_ended (description : String) (hw : w.usable = true) :
    Ends (think env.reliable target session description run) w
      (fun _ w' => (WithinLimit w.db target → ConfigLoads env session ∧ Undisturbed env session run) ∧
        ∃ batches, (¬ WithinLimit w.db target → batches = []) ∧
          Ended target.taskId batches (w.withTasks (countedTasks w.db target)) w')
      (fun _ w' => ¬ (WithinLimit w.db target → ConfigLoads env session ∧ Undisturbed env session run) ∧
        Quiet target.taskId (w.withTasks (countedTasks w.db target)) w') := by
  unfold think
  refine Ends.bind (countIteration_ended hw) fun going w₁ h => ?_
  obtain ⟨rfl, hwithin, h₁⟩ | ⟨rfl, hbeyond, hend⟩ := h
  · refine (reason_endsIf description h₁.usable).mono (fun _ _ h => ?_) fun _ _ h => ?_
    · obtain ⟨hcondition, batches, hend⟩ := h
      exact ⟨fun _ => hcondition, batches, fun hbeyond => absurd hwithin hbeyond, h₁.ended hend⟩
    · exact ⟨fun hcondition => h.1 (hcondition hwithin), h₁.trans h.2⟩
  · exact .of_ok rfl ⟨fun hwithin => absurd hwithin hbeyond, [], fun _ => rfl, hend⟩

theorem processTaskEvent_ended (run : BrainRun) {event : ThinkEvent} (hw : w.usable = true)
    (hsession : loadSession w.db event.sessionId event.tenantId = some session) :
    let target : Target := ⟨event.taskId, event.sessionId, session.tenantId⟩
    Ends (processTaskEvent env.reliable event run) w
      (fun _ w' => (WithinLimit w.db target → ConfigLoads env session ∧ Undisturbed env session run) ∧
        ∃ batches, (¬ WithinLimit w.db target → batches = []) ∧
          Ended target.taskId batches (w.withTasks (countedTasks w.db target)) w')
      (fun _ w' => ¬ (WithinLimit w.db target → ConfigLoads env session ∧ Undisturbed env session run) ∧
        Quiet target.taskId (w.withTasks (countedTasks w.db target)) w') := by
  intro target
  unfold processTaskEvent
  obtain ⟨w₁, hquery, hdb, hcounted⟩ := query_counted env target.taskId hw
  refine .bind_ok hquery ?_
  have husable : w₁.usable = true := (hcounted []).usable
  have hget : (get : Handler World) w₁ = .ok w₁ w₁ := rfl
  refine .bind_ok hget ?_
  rw [hdb]
  simp only [hsession]
  rw [← hdb]
  refine (think_ended event.description husable).mono (fun _ _ h => ?_) fun _ _ h => ?_
  · obtain ⟨hcondition, batches, hbeyond, hend⟩ := h
    exact ⟨hcondition, batches, hbeyond, (hcounted _).ended hend⟩
  · exact ⟨h.1, (hcounted _).trans h.2⟩

theorem processTaskEvent_unknown (run : BrainRun) {event : ThinkEvent} (hw : w.usable = true)
    (hsession : loadSession w.db event.sessionId event.tenantId = none) :
    Ends (processTaskEvent env.reliable event run) w (fun _ w' => Ended event.taskId [] w w') raises := by
  unfold processTaskEvent
  obtain ⟨w₁, hquery, hdb, hcounted⟩ := query_counted env event.taskId hw
  have h₁ : Quiet event.taskId w w₁ := by
    have hquiet : Quiet event.taskId (w.withTasks w₁.db.tasks) w₁ := hcounted w₁.db.tasks
    rw [hdb] at hquiet
    exact hquiet
  refine .bind_ok hquery ?_
  have hget : (get : Handler World) w₁ = .ok w₁ w₁ := rfl
  refine .bind_ok hget ?_
  rw [hdb, hsession]
  exact (endTask_ended _ h₁.usable).mono (fun _ _ h => h₁.ended h) fun _ _ h => h

/-- **A run of the brain ends its event once, with all it stored committed, exactly if the session is not
found, the limit is reached, or nothing disturbs it.** -/
theorem oneEnd_iff_undisturbed (env : Env) (run : BrainRun) (event : ThinkEvent) {w : World}
    (hw : w.usable = true) (hconfig : ∀ session,
      loadSession w.db event.sessionId event.tenantId = some session → ConfigLoads env session) :
    (∃ batches, OneEnd event.taskId batches w (finalState (processTaskEvent env.reliable event run) w)) ↔
      ∀ session, loadSession w.db event.sessionId event.tenantId = some session →
        WithinLimit w.db ⟨event.taskId, event.sessionId, session.tenantId⟩ → Undisturbed env session run := by
  cases hsession : loadSession w.db event.sessionId event.tenantId with
  | none =>
    have hends : Ends (processTaskEvent env.reliable event run) w _ fun _ _ => False :=
      processTaskEvent_unknown run hw hsession
    obtain ⟨_, w', hrun, hend⟩ | ⟨_, _, _, hfalse⟩ := hends.cases
    · rw [(run_eq_ok hrun).1]
      exact ⟨fun _ => nofun, fun _ => ⟨[], hend.toOneEnd⟩⟩
    · exact hfalse.elim
  | some session =>
    have hloads := hconfig session hsession
    obtain ⟨_, w', hrun, hcondition, batches, _, hend⟩ | ⟨e, w', hrun, hcondition, hquiet⟩ :=
      (processTaskEvent_ended run hw hsession).cases
    · rw [(run_eq_ok hrun).1]
      refine ⟨fun _ session' hsame hwithin => ?_, fun _ => ⟨batches, ?_⟩⟩
      · obtain rfl := Option.some.inj hsame
        exact (hcondition hwithin).2
      · exact ⟨hend.taskLog, hend.published, hend.kind, hend.committed⟩
    · have hfinal : finalState (processTaskEvent env.reliable event run) w = w' := by
        unfold finalState
        rw [hrun]
      rw [hfinal]
      refine ⟨fun hend => ?_, fun hall => ?_⟩
      · obtain ⟨batches, hend⟩ := hend
        exact absurd ⟨hend.taskLog, hend.published, hend.kind, hend.committed⟩ hquiet.no_end
      · exact absurd (fun hwithin => ⟨hloads, hall session rfl hwithin⟩) hcondition

end Event

/-- The first event of a task. -/
def firstThink : ThinkEvent := ⟨some "t1", "s1", "list the files", some "acme"⟩

def answered : ProviderReply := .stream [some ⟨none, some "Done.", []⟩] none

theorem localConfig_model (riskMode : String) : ∀ config, ConfigLoader.loadSessionLlmConfig localEnv.config
    localEnv.tenants (some (localSession riskMode)) localEnv.environ = .ok config → config.model = .str "gpt-4o" := by
  intro config hload
  cases hload
  rfl

theorem oneEnd_answered : ∃ batches, OneEnd (some "t1") batches (World.start [localSession "auto"])
    (finalState (processTaskEvent localEnv.reliable firstThink ⟨none, .ok none, answered⟩)
      (World.start [localSession "auto"])) := by
  have hloaded : ∀ session, loadSession (World.start [localSession "auto"]).db "s1" (some "acme") = some session →
      session = localSession "auto" := by
    intro session h
    exact (Option.some.inj h).symm
  refine (oneEnd_iff_undisturbed localEnv _ firstThink rfl fun session h => ?_).mpr fun session h _ => ?_
  · rw [hloaded session h]
    exact ⟨_, rfl⟩
  · rw [hloaded session h]
    exact ⟨rfl, nofun, fun config hload _ _ _ _ => ⟨_, localConfig_model "auto" config hload⟩⟩

/-- A file was read for the task, whose text the context keeps only a part of. -/
def longOutput : World :=
  let call : MessageModel := ⟨0, "acme", "s1", some "t1", "assistant", "", none,
    [⟨some "call_1", some "function", "read_file", "\x7b\"filepath\": \"a.txt\"\x7d"⟩], none, 0⟩
  let output : MessageModel := ⟨1, "acme", "s1", some "t1", "tool",
    String.ofList (List.replicate 15001 'x'), some "call_1", [], none, 1⟩
  let db : Database := ⟨[localSession "auto"], [⟨"t1", "acme", "s1", "list the files", "pending", 1⟩],
    [call, output], [], 2⟩
  { World.start [localSession "auto"] with db := db, committed := db }

/-- The directory for the other part cannot be written. -/
def unwritableCache : BrainRun :=
  ⟨some ⟨.other, "[Errno 13] Permission denied: '/srv/workspace/.sandbox_cache'"⟩, .ok none, answered⟩

/-- The event that the tool worker publishes after the call. -/
def resumedThink : ThinkEvent := ⟨some "t1", "s1", "", some "acme"⟩

theorem unwritable_cache_no_end : ¬ ∀ (env : Env) (run : BrainRun) (event : ThinkEvent) (w : World),
    w.usable = true →
    (∀ session, loadSession w.db event.sessionId event.tenantId = some session → ConfigLoads env session) →
    ∃ batches, OneEnd event.taskId batches w (finalState (processTaskEvent env.reliable event run) w) := by
  intro h
  have hsession : loadSession longOutput.db "s1" (some "acme") = some (localSession "auto") := rfl
  have hconfig : ∀ session, loadSession longOutput.db "s1" (some "acme") = some session →
      ConfigLoads localEnv session := by
    intro session hloaded
    obtain rfl := Option.some.inj (hsession.symm.trans hloaded)
    exact ⟨_, rfl⟩
  obtain ⟨batches, hend⟩ := h localEnv unwritableCache resumedThink longOutput rfl hconfig
  -- the iteration is counted in the unit of work, and one status is published
  have hquiet : Quiet (some "t1")
      (longOutput.withTasks [⟨"t1", "acme", "s1", "list the files", "pending", 2⟩])
      (finalState (processTaskEvent localEnv.reliable resumedThink unwritableCache) longOutput) :=
    ⟨⟨[.status "thinking" "Analyzing..."], by decide, rfl⟩, rfl, rfl, rfl, rfl⟩
  exact hquiet.no_end ⟨hend.taskLog, hend.published, hend.kind, hend.committed⟩

end KernelRuntime.AgentLoop
