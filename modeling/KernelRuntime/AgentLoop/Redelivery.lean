import KernelRuntime.AgentLoop.BrainEffects
import KernelRuntime.AgentLoop.Delivery

/-! # Batches that are delivered again

The tool worker commits after every call, and the broker delivers an event again when the worker
raises. `HandledOnce` is what a batch needs from the two: no call is executed twice, each gets one
tool message, and none takes the whole event down. It holds exactly for the batches whose calls are
all `Answerable`. -/

namespace KernelRuntime.AgentLoop
set_option autoImplicit false

/-- The worker answers the call: governance refuses it, its tool is not registered, or its arguments
are a dictionary. -/
def Answerable (env : Env) (session : SessionModel) (spec : ToolSpec) : Prop :=
  (∃ e, PolicyEngine.assertActionAllowed env.fs session spec.name spec.args = .error e) ∨
    env.getToolInstance spec.name = none ∨ spec.args.isObject = true

/-- Deliveries until the stream is empty, `n` of them at most. -/
def drain (env : Env) : ℕ → World → World
  | 0, w => w
  | n + 1, w =>
    match deliverTools env w with
    | none => w
    | some w' => drain env n w'

/-- The calls of an event were each handled once between the worlds `w` and `t`. -/
structure HandledOnce (tools : List ToolSpec) (w t : World) : Prop where
  executedOnce : ∃ es, t.executed = w.executed ++ es ∧
    (es.map fun e => (e.toolCallId, e.toolName)).Sublist (tools.map fun spec => (spec.id, spec.name))
  reportedOnce : ∃ rows, t.db.messages = w.db.messages ++ rows ∧
    (rows.map fun r => (r.role, r.toolCallId)) = tools.map fun spec => ("tool", spec.id)
  completed : t.executionQueue = [] ∧ t.deadLetters = w.deadLetters

theorem processable_iff (env : Env) (session : SessionModel) (spec : ToolSpec) :
    Processable env session spec ↔ Answerable env session spec := by
  unfold Processable Answerable classify
  cases hgov : PolicyEngine.assertActionAllowed env.fs session spec.name spec.args with
  | error e => simp
  | ok u =>
    by_cases htool : env.getToolInstance spec.name = none
    · simp [htool]
    · simp only [htool, if_false, false_or, reduceCtorEq, exists_false]
      cases hargs : spec.args with
      | obj fields =>
        refine ⟨fun _ => rfl, fun _ => ?_⟩
        simp only
        split_ifs
        · exact ⟨_, rfl⟩
        · exact ⟨_, rfl⟩
      | _ => simp [Json.isObject, Json.pop, Except.map]

/-! ## All calls are answered -/

theorem keys_executions (event : ToolEvent) (session : SessionModel)
    (calls : List (ToolSpec × CallResult)) :
    ((calls.flatMap fun c => c.2.executions event session c.1).map
      fun e => (e.toolCallId, e.toolName)).Sublist (calls.map fun c => (c.1.id, c.1.name)) := by
  induction calls with
  | nil => exact List.Sublist.slnil
  | cons call calls ih =>
    obtain ⟨spec, r⟩ := call
    rw [List.flatMap_cons, List.map_append, List.map_cons]
    cases r with
    | executes fields => exact List.Sublist.cons_cons _ ih
    | _ => exact List.Sublist.cons _ ih

theorem keys_reports {event : ToolEvent} {calls : List (ToolSpec × CallResult)} {turns : List Turn}
    (h : List.Forall₂ (Reports event) calls turns) :
    (turns.map fun t => (t.role, t.toolCallId)) = calls.map fun c => ("tool", c.1.id) := by
  induction h with
  | nil => rfl
  | cons hreports _ ih => rw [List.map_cons, List.map_cons, ih, hreports.role, hreports.toolCallId]

theorem keys_rows {sessionId tenantId : String} {turns : List Turn} {rows : List MessageModel}
    (h : List.Forall₂ (fun turn => Turn.StoredAs turn sessionId tenantId) turns rows) :
    (rows.map fun r => (r.role, r.toolCallId)) = turns.map fun t => (t.role, t.toolCallId) := by
  induction h with
  | nil => rfl
  | cons hstored _ ih => rw [List.map_cons, List.map_cons, ih, hstored.role, hstored.toolCallId]

theorem drain_nil {env : Env} {w : World} (h : w.executionQueue = []) (n : ℕ) : drain env n w = w := by
  cases n with
  | zero => rfl
  | succ n =>
    unfold drain deliverTools
    rw [h]

theorem handledOnce_of_answerable {env : Env} {w : World} {message : StreamMessage ToolEvent}
    {session : SessionModel} (hw : w.Clean) (hqueue : w.executionQueue = [message])
    (hsession : loadSession w.db message.data.sessionId message.data.tenantId = some session)
    (hall : ∀ spec ∈ message.data.tools, Processable env session spec) (n : ℕ) :
    HandledOnce message.data.tools w (drain env.reliable (n + 1) w) := by
  obtain ⟨w', hrun, hdelivered, ⟨_, hempty, hdead, _⟩ | ⟨hnot, _⟩⟩ :=
    deliverTools_spec env hw hqueue hsession
  · have hdrain : drain env.reliable (n + 1) w = w' := by
      unfold drain
      rw [hrun]
      exact drain_nil hempty n
    have htools : message.data.tools = (handledCalls env session message.data.tools).map Prod.fst :=
      (map_fst_handledCalls hall).symm
    obtain ⟨turns, hreports, hdb⟩ := hdelivered.db
    have hmessages : w'.db.messages =
        w.db.messages ++ w.db.newRows env.nextSequence message.data.sessionId turns := by
      rw [hdb]
      exact Database.messages_commit_addTurns hw.flushed env.nextSequence message.data.sessionId turns
    rw [hdrain]
    refine ⟨⟨_, hdelivered.executed, ?_⟩, ⟨_, hmessages, ?_⟩, hempty, hdead⟩
    · conv => arg 2; rw [htools, List.map_map]
      exact keys_executions message.data session _
    · rw [keys_rows (Database.newRows_storedAs _ _ _ _), keys_reports hreports]
      conv_rhs => rw [htools, List.map_map]
      rfl
  · exact absurd hall hnot

/-! ## A call takes the event down -/

theorem drain_dead {env : Env} (n : ℕ) {w : World} {message : StreamMessage ToolEvent}
    {session : SessionModel} (hw : w.Clean) (hqueue : w.executionQueue = [message])
    (hsession : loadSession w.db message.data.sessionId message.data.tenantId = some session)
    (hnot : ¬ ∀ spec ∈ message.data.tools, Processable env session spec)
    (hattempts : message.attemptCount + (n + 1) = 3) :
    ∃ dead, (drain env.reliable (n + 1) w).deadLetters = w.deadLetters ++ [dead] := by
  induction n generalizing w message with
  | zero =>
    obtain ⟨w', hrun, _, ⟨hall, _⟩ | ⟨_, _, hretry⟩⟩ := deliverTools_spec env hw hqueue hsession
    · exact absurd hall hnot
    · have hlimit : 3 ≤ message.attemptCount + 1 := by omega
      rw [retry_of_le _ (by exact hlimit)] at hretry
      unfold drain
      rw [hrun]
      exact ⟨_, (Prod.mk.inj hretry).2⟩
  | succ n ih =>
    obtain ⟨w', hrun, hdelivered, ⟨hall, _⟩ | ⟨_, _, hretry⟩⟩ := deliverTools_spec env hw hqueue hsession
    · exact absurd hall hnot
    · have hlimit : message.attemptCount + 1 < 3 := by omega
      rw [retry_of_lt _ (by exact hlimit)] at hretry
      obtain ⟨hexecution, hdeadLetters⟩ := Prod.mk.inj hretry
      obtain ⟨turns, _, hdb⟩ := hdelivered.db
      have hsession' : loadSession w'.db message.data.sessionId message.data.tenantId = some session := by
        have hsessions : w'.db.sessions = w.db.sessions := by
          rw [hdb, Database.sessions_commit_addTurns]
        rw [loadSession_congr hsessions]
        exact hsession
      obtain ⟨dead, hdead⟩ := ih hdelivered.clean hexecution hsession'
        (toolsAfter_not_processable hnot) (by simp only [StreamMessage.failed, withTools]; omega)
      refine ⟨dead, ?_⟩
      unfold drain
      rw [hrun]
      exact hdead.trans (by rw [hdeadLetters])

/-- **The calls of a batch are handled once each, over all deliveries of the batch, exactly when the
worker answers every one of them.** -/
theorem handledOnce_iff (env : Env) (target : Target) (content : List String)
    (calls : List ToolCall) (payload : List ToolSpec) (session : SessionModel) (w w₁ : World)
    (hw : w.usable = true) (hempty : w.executionQueue = []) (hcalls : calls ≠ [])
    (hpayload : payloadOf env calls = .ok payload)
    (hrun : processResponse env.reliable target content calls w = .ok () w₁)
    (hsession : loadSession w.db target.sessionId (some target.tenantId) = some session) :
    HandledOnce payload w₁ (drain env.reliable 3 w₁) ↔ ∀ spec ∈ payload, Answerable env session spec := by
  have hends : Ends (processResponse env.reliable target content calls) w
      (fun _ w' => Wrote env target.sessionId [assistantTurn target.taskId (String.join content) calls]
        [batchEvent target payload] [] w w') (fun _ _ => False) :=
    processResponse_batch content hcalls hpayload hw
  unfold Ends at hends
  rw [hrun] at hends
  have hwrote : Wrote env target.sessionId _ [batchEvent target payload] [] w w₁ := hends
  have hclean : w₁.Clean := ⟨hwrote.usable, hwrote.committed, by rw [hwrote.db]; rfl⟩
  have hqueue : w₁.executionQueue = [⟨w.nextMessage, batchEvent target payload, 0⟩] := by
    rw [hwrote.executionQueue, hempty]
    rfl
  have hsession₁ : loadSession w₁.db target.sessionId (some target.tenantId) = some session := by
    have hsessions : w₁.db.sessions = w.db.sessions := by
      rw [hwrote.db, Database.sessions_commit_addTurns]
    rw [loadSession_congr hsessions]
    exact hsession
  simp only [← processable_iff]
  constructor
  · intro h
    by_contra hnot
    obtain ⟨dead, hdead⟩ := drain_dead 2 hclean hqueue hsession₁ hnot rfl
    rw [h.completed.2] at hdead
    simp at hdead
  · intro hall
    exact handledOnce_of_answerable hclean hqueue hsession₁ hall 2

/-- Two calls of one response: the arguments of the second are a list. -/
def mixedCalls : List ToolCall :=
  [⟨some "call_1", some "function", "read_file", "\x7b\"filepath\": \"a.txt\"\x7d"⟩,
   ⟨some "call_2", some "function", "web_search", "[]"⟩]

def mixedPayload : List ToolSpec :=
  [⟨some "call_1", "read_file", .obj [("filepath", .str "a.txt")]⟩, ⟨some "call_2", "web_search", .arr []⟩]

def localTarget : Target := ⟨some "t1", "s1", "acme"⟩

theorem batch_published {calls : List ToolCall} {payload : List ToolSpec} (hcalls : calls ≠ [])
    (hpayload : payloadOf localEnv calls = .ok payload) : ∃ w₁,
      processResponse localEnv.reliable localTarget [] calls (World.start [localSession "auto"]) =
        .ok () w₁ := by
  have hw : (World.start [localSession "auto"]).usable = true := rfl
  have hends : Ends (processResponse localEnv.reliable localTarget [] calls)
      (World.start [localSession "auto"]) _ (fun _ _ => False) :=
    processResponse_batch [] hcalls hpayload hw
  rcases hends.cases with ⟨_, w₁, hrun, -⟩ | ⟨_, _, _, hfalse⟩
  · exact ⟨w₁, hrun⟩
  · exact hfalse.elim

def readCalls : List ToolCall := mixedCalls.take 1

def readPayload : List ToolSpec := mixedPayload.take 1

/-- A batch of one call with a dictionary is handled once. -/
theorem handledOnce_read_file : ∃ w₁,
    processResponse localEnv.reliable localTarget [] readCalls
      (World.start [localSession "auto"]) = .ok () w₁ ∧
    HandledOnce readPayload w₁ (drain localEnv.reliable 3 w₁) := by
  have hpayload : payloadOf localEnv readCalls = .ok readPayload := by decide +kernel
  have hcalls : readCalls ≠ [] := by decide +kernel
  obtain ⟨w₁, hrun⟩ := batch_published hcalls hpayload
  refine ⟨w₁, hrun, ?_⟩
  refine (handledOnce_iff localEnv localTarget [] _ _ (localSession "auto") _ w₁ rfl rfl
    hcalls hpayload hrun (by decide)).mpr ?_
  intro spec hspec
  have hspec' : spec = ⟨some "call_1", "read_file", .obj [("filepath", .str "a.txt")]⟩ := by
    simpa [readPayload, mixedPayload] using hspec
  rw [hspec']
  exact Or.inr (Or.inr rfl)

/-- A list as the arguments of the second call: the first call is executed three times. -/
theorem list_arguments_repeat_first_call :
    ¬ ∀ content calls payload w w₁, w.usable = true → w.executionQueue = [] →
      loadSession w.db localTarget.sessionId (some localTarget.tenantId) = some (localSession "auto") →
      payloadOf localEnv calls = .ok payload →
      processResponse localEnv.reliable localTarget content calls w = .ok () w₁ →
      HandledOnce payload w₁ (drain localEnv.reliable 3 w₁) := by
  intro h
  have hpayload : payloadOf localEnv mixedCalls = .ok mixedPayload := by decide +kernel
  have hcalls : mixedCalls ≠ [] := by decide +kernel
  obtain ⟨w₁, hrun⟩ := batch_published hcalls hpayload
  obtain ⟨es, hes, hsub⟩ := (h _ _ _ _ w₁ rfl rfl (by decide) hpayload hrun).executedOnce
  rw [← (run_eq_ok hrun).1] at hes
  have hthree : (drain localEnv.reliable 3 (finalState
      (processResponse localEnv.reliable localTarget [] mixedCalls)
      (World.start [localSession "auto"]))).executed.length = 3 := by decide +kernel
  have hnone : (finalState (processResponse localEnv.reliable localTarget [] mixedCalls)
      (World.start [localSession "auto"])).executed = [] := by decide +kernel
  have hlength : mixedPayload.length = 2 := by decide +kernel
  have hle := hsub.length_le
  rw [hes, hnone, List.nil_append] at hthree
  rw [List.length_map, List.length_map, hlength] at hle
  omega

end KernelRuntime.AgentLoop
