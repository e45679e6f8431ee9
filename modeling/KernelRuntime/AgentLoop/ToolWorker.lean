import KernelRuntime.AgentLoop.World

/-! # The tool worker

`ToolWorker.process_tool_event` takes the tools of an event one after the other: governance, lookup,
a simulated or a real execution, a tool message for each, and a commit after each. `classify` says
what becomes of a call before it is handled, and `processTools_run` what the whole loop leaves. -/

namespace KernelRuntime.AgentLoop
set_option autoImplicit false

/-- The session that a worker loads for an event. -/
def loadSession (db : Database) (sessionId : String) (tenantId : Option String) :
    Option SessionModel :=
  db.sessions.find? fun s =>
    decide (s.id = sessionId ∧ (truthyText tenantId ≠ none → tenantId = some s.tenantId))

theorem loadSession_of_mem {db : Database} (hids : (db.sessions.map SessionModel.id).Nodup)
    {s : SessionModel} (hs : s ∈ db.sessions) {tenantId : Option String}
    (htenant : truthyText tenantId ≠ none → tenantId = some s.tenantId) :
    loadSession db s.id tenantId = some s :=
  find?_of_nodup_map SessionModel.id hids hs (decide_eq_true ⟨rfl, htenant⟩)
    fun _ hp => (of_decide_eq_true hp).1

theorem loadSession_congr {db db' : Database} (h : db'.sessions = db.sessions) (sessionId : String)
    (tenantId : Option String) : loadSession db' sessionId tenantId = loadSession db sessionId tenantId := by
  unfold loadSession
  rw [h]

def reTriggerBrain (event : ToolEvent) : Handler Unit :=
  publishThink ⟨event.taskId, event.sessionId, "", truthyText event.tenantId⟩

/-! ## One call -/

/-- The tool message of a call. -/
def toolTurn (event : ToolEvent) (spec : ToolSpec) (content : String)
    (metadata : Option ApprovalMetadata) : Turn where
  role := "tool"
  content := content
  taskId := event.taskId
  toolCallId := spec.id
  metadata := metadata

/-- The tool message of a call that governance stopped. -/
def refusalTurn (event : ToolEvent) (spec : ToolSpec) (govErr : PyError) : Turn :=
  if govErr.cls = .governanceApprovalRequiredError then
    toolTurn event spec ("APPROVAL REQUIRED: " ++ govErr.message)
      (some ⟨.needsApproval, spec.name, spec.args⟩)
  else toolTurn event spec ("GOVERNANCE DENIED: " ++ govErr.message) none

/-- `mounted[0] if mounted else ""`. -/
def activeFolder (session : SessionModel) : String := session.mountedFolders.head?.getD ""

def shadowMode (session : SessionModel) : Bool := (Fields.get session.context "shadow_mode").truthy

def shadowText (env : Env) (toolName : String) (toolArgs : Json) : String :=
  "[SHADOW MODE] Simulated execution of '" ++ toolName ++
    "'. No real actions were taken. Args: " ++ env.fs.textOf toolArgs

/-- `tool_args.pop("dry_run", False)`: the arguments of the `k`-th tool of the event lose the key. -/
def popDryRun (k : ℕ) (spec : ToolSpec) : Handler (Json × Json) :=
  match spec.args.pop "dry_run" with
  | .ok (dryRun, rest) => do
    modify fun w => { w with inFlight := w.inFlight.set k { spec with args := rest } }
    return (dryRun, rest)
  | .error e => throw e

/-- `self.router.execute_tool` under `asyncio.wait_for`. -/
def executeTool (env : Env) (execution : Execution) : Handler ExecOutcome := fun w =>
  .ok (env.executeTool w.executed execution) { w with executed := w.executed ++ [execution] }

def outcomeText (env : Env) : ExecOutcome → String
  | .returned result => String.ofList ((env.dumps result).toList.take 8000)
  | .timedOut =>
    "TOOL ERROR: Execution timed out after 120 seconds. The tool took too long to complete."
  | .raised message => "TOOL ERROR: " ++ message

/-- The call as the router gets it: `{**tool_args, "folder_slug": active_folder}`. -/
def executionOf (event : ToolEvent) (session : SessionModel) (spec : ToolSpec) (fields : Fields) :
    Execution where
  sessionId := event.sessionId
  toolName := spec.name
  kwargs := assocSet "folder_slug" (.str (activeFolder session)) fields
  toolCallId := spec.id
  tenantId := (truthyText event.tenantId).getD "local"

/-- The output of a call that governance let pass. -/
def toolOutput (env : Env) (event : ToolEvent) (session : SessionModel) (k : ℕ) (spec : ToolSpec) :
    Handler String := do
  match env.getToolInstance spec.name with
  | none => return "Unknown tool: " ++ spec.name
  | some _ =>
    let (dryRun, toolArgs) ← popDryRun k spec
    if dryRun.truthy || shadowMode session then return shadowText env spec.name toolArgs
    else
      match toolArgs with
      | .obj fields =>
        let outcome ← executeTool env (executionOf event session spec fields)
        return outcomeText env outcome
      | v => return "TOOL ERROR: '" ++ v.typeName ++ "' object is not a mapping"

/-- `output[:100]`. -/
def preview (output : String) : String := String.ofList (output.toList.take 100)

/-- The body of the loop; the result says whether the call waits for approval. -/
def processTool (env : Env) (event : ToolEvent) (session : SessionModel) (k : ℕ) (spec : ToolSpec) :
    Handler Bool := do
  publishLog event.taskId (.toolExecuting spec.name)
  match PolicyEngine.assertActionAllowed env.fs session spec.name spec.args with
  | .error govErr =>
    persistMessage env event.sessionId (refusalTurn event spec govErr)
    commit env
    publishLog event.taskId (.toolApprovalRequired spec.name)
    return decide (govErr.cls = .governanceApprovalRequiredError)
  | .ok () =>
    let output ← toolOutput env event session k spec
    persistMessage env event.sessionId (toolTurn event spec output none)
    commit env
    publishLog event.taskId (.toolDone spec.name (preview output))
    return false

/-- The loop, from the `k`-th tool on. -/
def processTools (env : Env) (event : ToolEvent) (session : SessionModel) :
    ℕ → List ToolSpec → Handler Bool
  | _, [] => return false
  | k, spec :: rest => do
    let required ← processTool env event session k spec
    let others ← processTools env event session (k + 1) rest
    return required || others

/-- The turn for an event whose session is not there. -/
def missingSessionTurn (event : ToolEvent) : Turn where
  role := "tool"
  content := "ERROR: Session not found or unauthorized"
  taskId := event.taskId

/-- `ToolWorker.process_tool_event`. -/
def processToolEvent (env : Env) (event : ToolEvent) : Handler Unit := do
  query env
  let w ← get
  match loadSession w.db event.sessionId event.tenantId with
  | none =>
    persistMessage env event.sessionId (missingSessionTurn event)
    commit env
    reTriggerBrain event
  | some session =>
    let anyApprovalRequired ← processTools env event session 0 event.tools
    if anyApprovalRequired then return ()
    else reTriggerBrain event

/-! ## What becomes of a call -/

inductive CallResult where
  | refused (govErr : PyError)
  | unknown
  | simulated (toolArgs : Json)
  | executes (fields : Fields)
deriving DecidableEq

/-- The fate of a call; an error is one that leaves the handler. -/
def classify (env : Env) (session : SessionModel) (spec : ToolSpec) : Except PyError CallResult :=
  match PolicyEngine.assertActionAllowed env.fs session spec.name spec.args with
  | .error govErr => .ok (.refused govErr)
  | .ok () =>
    if env.getToolInstance spec.name = none then .ok .unknown
    else
      match spec.args with
      | .obj fields =>
        if (Fields.get fields "dry_run").truthy || shadowMode session then
          .ok (.simulated (.obj (assocErase "dry_run" fields)))
        else .ok (.executes (assocErase "dry_run" fields))
      | v => (v.pop "dry_run").map fun _ => .unknown  -- not a dictionary: `pop` raises

namespace CallResult

def waits : CallResult → Bool
  | .refused govErr => decide (govErr.cls = .governanceApprovalRequiredError)
  | _ => false

/-- The tools of the event after the call, the `k`-th of them. -/
def inFlight (k : ℕ) (spec : ToolSpec) (tools : List ToolSpec) : CallResult → List ToolSpec
  | .simulated toolArgs => tools.set k { spec with args := toolArgs }
  | .executes fields => tools.set k { spec with args := .obj fields }
  | _ => tools

/-- The execution that the call makes. -/
def executions (event : ToolEvent) (session : SessionModel) (spec : ToolSpec) :
    CallResult → List Execution
  | .executes fields => [executionOf event session spec fields]
  | _ => []

/-- The tool message of the call, when it is handled after the executions in `history`. -/
def turn (env : Env) (event : ToolEvent) (session : SessionModel) (spec : ToolSpec)
    (history : List Execution) : CallResult → Turn
  | .refused govErr => refusalTurn event spec govErr
  | .unknown => toolTurn event spec ("Unknown tool: " ++ spec.name) none
  | .simulated toolArgs => toolTurn event spec (shadowText env spec.name toolArgs) none
  | .executes fields =>
    toolTurn event spec
      (outcomeText env (env.executeTool history (executionOf event session spec fields))) none

def logEvent (spec : ToolSpec) (turn : Turn) : CallResult → LogEvent
  | .refused _ => .toolApprovalRequired spec.name
  | _ => .toolDone spec.name (preview turn.content)

end CallResult

/-- What the call did to the arguments of the event and to the executions. -/
def World.ran (w : World) (inFlight : List ToolSpec) (executions : List Execution) : World :=
  { w with inFlight := inFlight, executed := w.executed ++ executions }

theorem World.ran_nil (w : World) : w.ran w.inFlight [] = w := by
  simp [World.ran]

/-- The world after a call that is handled. -/
def World.answered (w : World) (env : Env) (event : ToolEvent) (session : SessionModel) (k : ℕ)
    (spec : ToolSpec) (r : CallResult) : World :=
  let turn := r.turn env event session spec w.executed
  let w' := (w.log event.taskId (.toolExecuting spec.name)).ran (r.inFlight k spec w.inFlight)
    (r.executions event session spec)
  (w'.persisted env.nextSequence event.sessionId turn).saved.log event.taskId (r.logEvent spec turn)

theorem reply_reliable (env : Env) (event : ToolEvent) (turn : Turn) (e : LogEvent) (b : Bool)
    {w : World} (hw : w.usable = true) :
    (do
      persistMessage env.reliable event.sessionId turn
      commit env.reliable
      publishLog event.taskId e
      return b : Handler Bool) w =
    .ok b ((w.persisted env.nextSequence event.sessionId turn).saved.log event.taskId e) := by
  rw [bind_run, persistMessage_reliable env _ _ hw]
  simp only
  rw [bind_run, commit_reliable env (by exact hw)]
  rfl

/-- The output of a call that governance let pass: it is the text of its tool message. -/
theorem toolOutput_run (env : Env) (event : ToolEvent) (session : SessionModel) (k : ℕ)
    (spec : ToolSpec) (w : World)
    (hgov : PolicyEngine.assertActionAllowed env.fs session spec.name spec.args = .ok ()) :
    (∃ r text, classify env session spec = .ok r ∧ r.waits = false ∧
      r.turn env event session spec w.executed = toolTurn event spec text none ∧
      (∀ turn, r.logEvent spec turn = .toolDone spec.name (preview turn.content)) ∧
      toolOutput env.reliable event session k spec w =
        .ok text (w.ran (r.inFlight k spec w.inFlight) (r.executions event session spec))) ∨
    (∃ e, classify env session spec = .error e ∧
      toolOutput env.reliable event session k spec w = .error e w) := by
  unfold toolOutput classify
  simp only [hgov, Env.reliable]
  cases htool : env.getToolInstance spec.name with
  | none =>
    left
    refine ⟨.unknown, _, rfl, rfl, rfl, fun _ => rfl, ?_⟩
    show _ = EStateM.Result.ok _ (w.ran w.inFlight [])
    rw [World.ran_nil]
    rfl
  | some tool =>
    simp only [reduceCtorEq, if_false]
    cases hargs : spec.args with
    | obj fields =>
      left
      have hpop : ∀ w : World, popDryRun k { spec with args := .obj fields } w = .ok
          ((fields.lookup "dry_run").getD (.bool false), .obj (assocErase "dry_run" fields))
          { w with inFlight := w.inFlight.set k { spec with args := .obj (assocErase "dry_run" fields) } } :=
        fun _ => rfl
      have hspec : spec = { spec with args := .obj fields } := by rw [← hargs]
      have hflag : ((fields.lookup "dry_run").getD (.bool false)).truthy =
          (Fields.get fields "dry_run").truthy := by
        unfold Fields.get
        cases fields.lookup "dry_run" <;> rfl
      by_cases hshadow : ((Fields.get fields "dry_run").truthy || shadowMode session) = true
      · refine ⟨.simulated (.obj (assocErase "dry_run" fields)), _, ?_, rfl, rfl, fun _ => rfl, ?_⟩
        · exact if_pos hshadow
        · rw [bind_run, hspec, hpop]
          simp only [hflag, hshadow, if_true]
          simp [World.ran, CallResult.inFlight, CallResult.executions]
          rfl
      · refine ⟨.executes (assocErase "dry_run" fields), _, ?_, rfl, rfl, fun _ => rfl, ?_⟩
        · exact if_neg hshadow
        · rw [bind_run, hspec, hpop]
          simp only [hflag, hshadow]
          rfl
    | _ => 
      right
      refine ⟨_, rfl, ?_⟩
      rw [bind_run, popDryRun, hargs]
      rfl

/-- **One call: it is answered by its own tool message and committed, or it aborts the handler.** -/
theorem processTool_run (env : Env) (event : ToolEvent) (session : SessionModel) (k : ℕ)
    (spec : ToolSpec) {w : World} (hw : w.usable = true) :
    processTool env.reliable event session k spec w =
      match classify env session spec with
      | .ok r => .ok r.waits (w.answered env event session k spec r)
      | .error e => .error e (w.log event.taskId (.toolExecuting spec.name)) := by
  unfold processTool
  rw [bind_run]
  change (match PolicyEngine.assertActionAllowed env.fs session spec.name spec.args with
    | .error govErr => _
    | .ok () => _ : Handler Bool) (w.log event.taskId (.toolExecuting spec.name)) = _
  cases hgov : PolicyEngine.assertActionAllowed env.fs session spec.name spec.args with
  | error govErr =>
    simp only [classify, hgov]
    rw [reply_reliable env event _ _ _ (by exact hw)]
    have hran : (w.log event.taskId (.toolExecuting spec.name)).ran w.inFlight [] =
        w.log event.taskId (.toolExecuting spec.name) := World.ran_nil _
    simp only [World.answered, CallResult.inFlight, CallResult.executions]
    rw [hran]
    rfl
  | ok u =>
    simp only
    rw [bind_run]
    rcases toolOutput_run env event session k spec
      (w.log event.taskId (.toolExecuting spec.name)) hgov with
      ⟨r, text, hr, hwaits, hturn, hlog, hrun⟩ | ⟨e, he, hrun⟩
    · rw [hrun, hr]
      simp only
      rw [reply_reliable env event _ _ _ (by exact hw), hwaits, World.answered]
      change r.turn env event session spec w.executed = _ at hturn
      rw [hturn, hlog]
      rfl
    · rw [hrun, he]

/-! ## The loop -/

/-- The call does not abort the handler. -/
def Processable (env : Env) (session : SessionModel) (spec : ToolSpec) : Prop :=
  ∃ r, classify env session spec = .ok r

/-- The calls before the first that aborts the handler, with what becomes of them. -/
def handledCalls (env : Env) (session : SessionModel) : List ToolSpec → List (ToolSpec × CallResult)
  | [] => []
  | spec :: rest =>
    match classify env session spec with
    | .ok r => (spec, r) :: handledCalls env session rest
    | .error _ => []

/-- The world after these calls, the first of which is the `k`-th of the event. -/
def World.answeredAll (w : World) (env : Env) (event : ToolEvent) (session : SessionModel) :
    ℕ → List (ToolSpec × CallResult) → World
  | _, [] => w
  | k, (spec, r) :: calls =>
    (w.answered env event session k spec r).answeredAll env event session (k + 1) calls

/-- **The loop: it answers the calls up to the first that aborts the handler, and returns when there
is none.** -/
theorem processTools_run (env : Env) (event : ToolEvent) (session : SessionModel) (k : ℕ)
    (specs : List ToolSpec) {w : World} (hw : w.usable = true) :
    ((∀ spec ∈ specs, Processable env session spec) ∧
      processTools env.reliable event session k specs w =
        .ok ((handledCalls env session specs).any fun c => c.2.waits)
          (w.answeredAll env event session k (handledCalls env session specs))) ∨
    (∃ spec ∈ specs, ¬ Processable env session spec ∧ ∃ e,
      processTools env.reliable event session k specs w =
        .error e ((w.answeredAll env event session k (handledCalls env session specs)).log
          event.taskId (.toolExecuting spec.name))) := by
  induction specs generalizing k w with
  | nil => exact Or.inl ⟨fun _ h => absurd h List.not_mem_nil, rfl⟩
  | cons spec specs ih =>
    unfold processTools handledCalls
    rw [bind_run, processTool_run env event session k spec hw]
    cases hr : classify env session spec with
    | error e =>
      refine Or.inr ⟨spec, List.mem_cons_self, ?_, e, rfl⟩
      rintro ⟨r, hok⟩
      rw [hr] at hok
      cases hok
    | ok r =>
      have hw' : (w.answered env event session k spec r).usable = true := hw
      simp only
      rw [bind_run]
      rcases ih (k + 1) hw' with ⟨hall, hrun⟩ | ⟨bad, hmem, hbad, e, hrun⟩
      · left
        rw [hrun]
        refine ⟨?_, rfl⟩
        intro s hs
        rcases List.mem_cons.mp hs with rfl | hs
        · exact ⟨r, hr⟩
        · exact hall s hs
      · right
        rw [hrun]
        exact ⟨bad, List.mem_cons_of_mem _ hmem, hbad, e, rfl⟩

/-- The event is handled up to a first call that aborts the handler, or to its end. -/
theorem handledCalls_split (env : Env) (session : SessionModel) (specs : List ToolSpec) :
    (specs = (handledCalls env session specs).map Prod.fst ∧
      ∀ spec ∈ specs, Processable env session spec) ∨
    ∃ bad rest, specs = (handledCalls env session specs).map Prod.fst ++ bad :: rest ∧
      ¬ Processable env session bad := by
  induction specs with
  | nil => exact Or.inl ⟨rfl, fun _ h => absurd h List.not_mem_nil⟩
  | cons spec specs ih =>
    unfold handledCalls
    cases hr : classify env session spec with
    | error e =>
      refine Or.inr ⟨spec, specs, rfl, ?_⟩
      rintro ⟨r, hok⟩
      rw [hr] at hok
      cases hok
    | ok r =>
      rcases ih with ⟨hspecs, hall⟩ | ⟨bad, rest, hspecs, hbad⟩
      · left
        refine ⟨congrArg (spec :: ·) hspecs, ?_⟩
        intro s hs
        rcases List.mem_cons.mp hs with rfl | hs
        · exact ⟨r, hr⟩
        · exact hall s hs
      · exact Or.inr ⟨bad, rest, congrArg (spec :: ·) hspecs, hbad⟩

theorem map_fst_handledCalls {env : Env} {session : SessionModel} {specs : List ToolSpec}
    (hall : ∀ spec ∈ specs, Processable env session spec) :
    (handledCalls env session specs).map Prod.fst = specs := by
  rcases handledCalls_split env session specs with ⟨h, _⟩ | ⟨bad, rest, h, hbad⟩
  · exact h.symm
  · refine absurd (hall bad ?_) hbad
    rw [h]
    exact List.mem_append_right _ List.mem_cons_self

theorem mem_handledCalls {env : Env} {session : SessionModel} {specs : List ToolSpec}
    {c : ToolSpec × CallResult} (hc : c ∈ handledCalls env session specs) :
    c.1 ∈ specs ∧ classify env session c.1 = .ok c.2 := by
  induction specs with
  | nil => exact absurd hc List.not_mem_nil
  | cons spec specs ih =>
    unfold handledCalls at hc
    cases hr : classify env session spec with
    | error e =>
      rw [hr] at hc
      exact absurd hc List.not_mem_nil
    | ok r =>
      rw [hr] at hc
      rcases List.mem_cons.mp hc with rfl | hc
      · exact ⟨List.mem_cons_self, hr⟩
      · exact ⟨List.mem_cons_of_mem _ (ih hc).1, (ih hc).2⟩

/-! ## What the loop leaves -/

/-- The streams, the failed messages and the model calls are the same. -/
structure World.SameStreams (w w' : World) : Prop where
  taskQueue : w'.taskQueue = w.taskQueue
  executionQueue : w'.executionQueue = w.executionQueue
  deadThinks : w'.deadThinks = w.deadThinks
  deadLetters : w'.deadLetters = w.deadLetters
  llmCalls : w'.llmCalls = w.llmCalls
  nextMessage : w'.nextMessage = w.nextMessage

theorem World.SameStreams.refl (w : World) : w.SameStreams w := ⟨rfl, rfl, rfl, rfl, rfl, rfl⟩

theorem World.SameStreams.trans {w w' w'' : World} (h : w.SameStreams w') (h' : w'.SameStreams w'') :
    w.SameStreams w'' :=
  ⟨h'.taskQueue.trans h.taskQueue, h'.executionQueue.trans h.executionQueue,
    h'.deadThinks.trans h.deadThinks, h'.deadLetters.trans h.deadLetters,
    h'.llmCalls.trans h.llmCalls, h'.nextMessage.trans h.nextMessage⟩

/-- Everything that is written is committed, and the unit of work takes statements. -/
structure World.Clean (w : World) : Prop where
  usable : w.usable = true
  committed : w.committed = w.db
  flushed : w.db.flushed = []

theorem World.start_clean (sessions : List SessionModel) : (World.start sessions).Clean :=
  ⟨rfl, rfl, rfl⟩

/-- The turn reports the call. -/
structure Reports (event : ToolEvent) (call : ToolSpec × CallResult) (turn : Turn) : Prop where
  role : turn.role = "tool"
  taskId : turn.taskId = event.taskId
  toolCallId : turn.toolCallId = call.1.id
  toolCalls : turn.toolCalls = []
  metadata : turn.metadata =
    if call.2.waits then some ⟨.needsApproval, call.1.name, call.1.args⟩ else none

theorem reports_turn (env : Env) (event : ToolEvent) (session : SessionModel)
    (call : ToolSpec × CallResult) (history : List Execution) :
    Reports event call (call.2.turn env event session call.1 history) := by
  obtain ⟨spec, r⟩ := call
  cases r with
  | refused govErr =>
    by_cases hcls : govErr.cls = .governanceApprovalRequiredError
    · constructor <;> simp [CallResult.turn, refusalTurn, toolTurn, CallResult.waits, hcls]
    · constructor <;> simp [CallResult.turn, refusalTurn, toolTurn, CallResult.waits, hcls]
  | _ => exact ⟨rfl, rfl, rfl, rfl, rfl⟩

theorem sameStreams_answeredAll (env : Env) (event : ToolEvent) (session : SessionModel) (k : ℕ)
    (calls : List (ToolSpec × CallResult)) (w : World) :
    w.SameStreams (w.answeredAll env event session k calls) := by
  induction calls generalizing k w with
  | nil => exact .refl w
  | cons call calls ih =>
    have hfirst : w.SameStreams (w.answered env event session k call.1 call.2) :=
      ⟨rfl, rfl, rfl, rfl, rfl, rfl⟩
    exact hfirst.trans (ih (k + 1) _)

theorem executed_answeredAll (env : Env) (event : ToolEvent) (session : SessionModel) (k : ℕ)
    (calls : List (ToolSpec × CallResult)) (w : World) :
    (w.answeredAll env event session k calls).executed =
      w.executed ++ calls.flatMap fun c => c.2.executions event session c.1 := by
  induction calls generalizing k w with
  | nil => simp [World.answeredAll]
  | cons call calls ih =>
    rw [World.answeredAll, ih, List.flatMap_cons, ← List.append_assoc]
    rfl

/-- Every call that is handled gets its own tool message, in the order of the calls. -/
theorem db_answeredAll (env : Env) (event : ToolEvent) (session : SessionModel) (k : ℕ)
    (calls : List (ToolSpec × CallResult)) {w : World} (hw : w.Clean) :
    (w.answeredAll env event session k calls).Clean ∧
    ∃ turns, List.Forall₂ (Reports event) calls turns ∧
      (w.answeredAll env event session k calls).db =
        (w.db.addTurns env.nextSequence event.sessionId turns).commit := by
  induction calls generalizing k w with
  | nil =>
    refine ⟨hw, [], List.Forall₂.nil, ?_⟩
    exact (Database.commit_eq_self hw.flushed).symm
  | cons call calls ih =>
    have hw' : (w.answered env event session k call.1 call.2).Clean := ⟨hw.usable, rfl, rfl⟩
    obtain ⟨hclean, turns, hturns, hdb⟩ := ih (k + 1) hw'
    refine ⟨hclean, call.2.turn env event session call.1 w.executed :: turns,
      List.Forall₂.cons (reports_turn env event session call w.executed) hturns, ?_⟩
    rw [World.answeredAll, hdb, Database.addTurns_cons]
    exact Database.commit_addTurns_commit _ _ _ _

/-- The tool of an event after its call. -/
def CallResult.specAfter (spec : ToolSpec) : CallResult → ToolSpec
  | .simulated toolArgs => { spec with args := toolArgs }
  | .executes fields => { spec with args := .obj fields }
  | _ => spec

theorem inFlight_answeredAll (env : Env) (event : ToolEvent) (session : SessionModel)
    (calls : List (ToolSpec × CallResult)) (done rest : List ToolSpec) (w : World)
    (hw : w.inFlight = done ++ (calls.map Prod.fst ++ rest)) :
    (w.answeredAll env event session done.length calls).inFlight =
      done ++ (calls.map (fun c => c.2.specAfter c.1) ++ rest) := by
  induction calls generalizing done w with
  | nil => exact hw
  | cons call calls ih =>
    obtain ⟨spec, r⟩ := call
    have hfirst : (w.answered env event session done.length spec r).inFlight =
        (done ++ [r.specAfter spec]) ++ (calls.map Prod.fst ++ rest) := by
      show r.inFlight done.length spec w.inFlight = _
      rw [hw]
      cases r <;> simp [CallResult.inFlight, CallResult.specAfter]
    have h := ih (done ++ [r.specAfter spec]) _ hfirst
    rw [List.length_append, List.length_singleton] at h
    rw [World.answeredAll, h]
    simp

/-! ## The event -/

/-- The event that continues the task. -/
def continuation (event : ToolEvent) : ThinkEvent :=
  ⟨event.taskId, event.sessionId, "", truthyText event.tenantId⟩

/-- The world after the calls of an event that are handled. -/
def World.afterCalls (w : World) (env : Env) (event : ToolEvent) (session : SessionModel) : World :=
  { w with dbOps := w.dbOps + 1 }.answeredAll env event session 0
    (handledCalls env session event.tools)

/-- The event: when no call aborts the handler, the task continues unless a call waits. -/
theorem processToolEvent_run (env : Env) (event : ToolEvent) {session : SessionModel} {w : World}
    (hw : w.usable = true)
    (hsession : loadSession w.db event.sessionId event.tenantId = some session) :
    ((∀ spec ∈ event.tools, Processable env session spec) ∧
      processToolEvent env.reliable event w = .ok ()
        (if ((handledCalls env session event.tools).any fun c => c.2.waits) = true then
          w.afterCalls env event session
        else (w.afterCalls env event session).putThink (continuation event))) ∨
    (∃ spec ∈ event.tools, ¬ Processable env session spec ∧ ∃ e,
      processToolEvent env.reliable event w = .error e
        ((w.afterCalls env event session).log event.taskId (.toolExecuting spec.name))) := by
  unfold processToolEvent
  rw [bind_run, query_reliable env hw]
  simp only
  rw [bind_run]
  change _ ∧ (match loadSession w.db event.sessionId event.tenantId with
    | none => _
    | some session => _ : Handler Unit) { w with dbOps := w.dbOps + 1 } = _ ∨
    ∃ spec ∈ event.tools, _ ∧ ∃ e, (match loadSession w.db event.sessionId event.tenantId with
    | none => _
    | some session => _ : Handler Unit) { w with dbOps := w.dbOps + 1 } = _
  rw [hsession]
  simp only
  rw [bind_run]
  have hw' : ({ w with dbOps := w.dbOps + 1 } : World).usable = true := hw
  rcases processTools_run env event session 0 event.tools hw' with ⟨hall, hrun⟩ | ⟨bad, hmem, hbad, e, hrun⟩
  · refine Or.inl ⟨hall, ?_⟩
    rw [hrun]
    simp only
    split_ifs <;> rfl
  · refine Or.inr ⟨bad, hmem, hbad, e, ?_⟩
    rw [hrun]
    rfl

theorem processToolEvent_missing (env : Env) (event : ToolEvent) {w : World} (hw : w.usable = true)
    (hsession : loadSession w.db event.sessionId event.tenantId = none) :
    processToolEvent env.reliable event w = .ok ()
      (({ w with dbOps := w.dbOps + 1 }.persisted env.nextSequence event.sessionId
        (missingSessionTurn event)).saved.putThink (continuation event)) := by
  unfold processToolEvent
  rw [bind_run, query_reliable env hw]
  simp only
  rw [bind_run]
  change (match loadSession w.db event.sessionId event.tenantId with
    | none => _
    | some session => _ : Handler Unit) { w with dbOps := w.dbOps + 1 } = _
  rw [hsession]
  simp only
  rw [bind_run, persistMessage_reliable env _ _ (by exact hw)]
  simp only
  rw [bind_run, commit_reliable env (by exact hw)]
  rfl

end KernelRuntime.AgentLoop
