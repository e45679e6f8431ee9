import KernelRuntime.AgentLoop.ToolWorker

/-! # Delivery of tool events

`LocalDurableBroker.subscribe` hands the first message of the stream to the tool worker. When the
worker raises, the message goes back to the end of the stream, with its arguments as the worker left
them, and after the third attempt to the dead letters. -/

namespace KernelRuntime.AgentLoop
set_option autoImplicit false

/-- The stream and the dead letters after the callback raised on a message. -/
def retry {α : Type} (message : StreamMessage α) (stream dlq : List (StreamMessage α)) :
    List (StreamMessage α) × List (StreamMessage α) :=
  let message := { message with attemptCount := message.attemptCount + 1 }
  if 3 ≤ message.attemptCount then (stream, dlq ++ [message]) else (stream ++ [message], dlq)

/-- The message after a failed attempt. -/
def StreamMessage.failed {α : Type} (message : StreamMessage α) : StreamMessage α :=
  { message with attemptCount := message.attemptCount + 1 }

theorem retry_of_lt {α : Type} (message : StreamMessage α) (h : message.attemptCount + 1 < 3)
    (stream dlq : List (StreamMessage α)) :
    retry message stream dlq = (stream ++ [StreamMessage.failed message], dlq) :=
  if_neg (by simp only; omega)

theorem retry_of_le {α : Type} (message : StreamMessage α) (h : 3 ≤ message.attemptCount + 1)
    (stream dlq : List (StreamMessage α)) :
    retry message stream dlq = (stream, dlq ++ [StreamMessage.failed message]) := if_pos h

def World.retryTools (w : World) (message : StreamMessage ToolEvent) : World :=
  { w with
    executionQueue := (retry message w.executionQueue w.deadLetters).1
    deadLetters := (retry message w.executionQueue w.deadLetters).2 }

/-- The message with the tools that the worker left. -/
def withTools (message : StreamMessage ToolEvent) (tools : List ToolSpec) : StreamMessage ToolEvent :=
  { message with data := { message.data with tools := tools } }

/-- One message of `execution_queue` is delivered. -/
def deliverTools (env : Env) (w : World) : Option World :=
  match w.executionQueue with
  | [] => none
  | message :: queue =>
    match processToolEvent env message.data
      { w with executionQueue := queue, inFlight := message.data.tools } with
    | .ok () w' => some w'.close
    | .error _ w' => some (w'.close.retryTools (withTools message w'.inFlight))

/-! ## What a delivery does -/

/-- The tools of an event after a delivery. -/
def toolsAfter (env : Env) (session : SessionModel) : List ToolSpec → List ToolSpec
  | [] => []
  | spec :: rest =>
    match classify env session spec with
    | .ok r => r.specAfter spec :: toolsAfter env session rest
    | .error _ => spec :: rest

theorem toolsAfter_split (env : Env) (session : SessionModel) (specs : List ToolSpec) :
    ∃ rest, specs = (handledCalls env session specs).map Prod.fst ++ rest ∧
      toolsAfter env session specs =
        (handledCalls env session specs).map (fun c => c.2.specAfter c.1) ++ rest := by
  induction specs with
  | nil => exact ⟨[], rfl, rfl⟩
  | cons spec specs ih =>
    unfold handledCalls toolsAfter
    cases hr : classify env session spec with
    | error e => exact ⟨spec :: specs, rfl, rfl⟩
    | ok r =>
      obtain ⟨rest, hspecs, hafter⟩ := ih
      exact ⟨rest, congrArg (spec :: ·) hspecs, congrArg (r.specAfter spec :: ·) hafter⟩

/-- A delivery does not repair the call that aborted the handler. -/
theorem toolsAfter_not_processable {env : Env} {session : SessionModel} {specs : List ToolSpec}
    (h : ¬ ∀ spec ∈ specs, Processable env session spec) :
    ¬ ∀ spec ∈ toolsAfter env session specs, Processable env session spec := by
  intro hall
  obtain ⟨rest, hspecs, hafter⟩ := toolsAfter_split env session specs
  rcases handledCalls_split env session specs with ⟨_, hprocessable⟩ | ⟨bad, rest', hsplit, hbad⟩
  · exact h hprocessable
  · have hrest : rest = bad :: rest' := List.append_cancel_left (hspecs.symm.trans hsplit)
    refine hbad (hall bad ?_)
    rw [hafter, hrest]
    exact List.mem_append_right _ List.mem_cons_self

/-- What a delivery to an existing session leaves, besides the streams. -/
structure Delivered (env : Env) (session : SessionModel) (event : ToolEvent) (w w' : World) :
    Prop where
  clean : w'.Clean
  db : ∃ turns, List.Forall₂ (Reports event) (handledCalls env session event.tools) turns ∧
    w'.db = (w.db.addTurns env.nextSequence event.sessionId turns).commit
  executed : w'.executed = w.executed ++ (handledCalls env session event.tools).flatMap
    fun c => c.2.executions event session c.1
  deadThinks : w'.deadThinks = w.deadThinks
  llmCalls : w'.llmCalls = w.llmCalls

/-- **A delivery to an existing session: all calls are handled and the task continues unless one
waits, or the event is tried again.** -/
theorem deliverTools_spec (env : Env) {w : World} {message : StreamMessage ToolEvent}
    {queue : List (StreamMessage ToolEvent)} {session : SessionModel} (hw : w.Clean)
    (hqueue : w.executionQueue = message :: queue)
    (hsession : loadSession w.db message.data.sessionId message.data.tenantId = some session) :
    ∃ w', deliverTools env.reliable w = some w' ∧ Delivered env session message.data w w' ∧
      (((∀ spec ∈ message.data.tools, Processable env session spec) ∧
          w'.executionQueue = queue ∧ w'.deadLetters = w.deadLetters ∧
          w'.taskQueue = w.taskQueue ++
            if ((handledCalls env session message.data.tools).any fun c => c.2.waits) = true then []
            else [⟨w.nextMessage, continuation message.data, 0⟩]) ∨
        ((¬ ∀ spec ∈ message.data.tools, Processable env session spec) ∧
          w'.taskQueue = w.taskQueue ∧
          (w'.executionQueue, w'.deadLetters) =
            retry (withTools message (toolsAfter env session message.data.tools)) queue
              w.deadLetters)) := by
  -- the world the worker starts from, and the world after the calls
  have hclean : ({ w with executionQueue := queue, inFlight := message.data.tools } : World).Clean :=
    ⟨hw.usable, hw.committed, hw.flushed⟩
  generalize hw₀ : ({ w with executionQueue := queue, inFlight := message.data.tools } : World) = w₀ at hclean
  have hsession' : loadSession w₀.db message.data.sessionId message.data.tenantId = some session := by
    rw [← hw₀]
    exact hsession
  have hcounted : ({ w₀ with dbOps := w₀.dbOps + 1 } : World).Clean :=
    ⟨hclean.usable, hclean.committed, hclean.flushed⟩
  obtain ⟨hafter, turns, hturns, hdb⟩ := db_answeredAll env message.data session 0
    (handledCalls env session message.data.tools) hcounted
  have hstreams : w₀.SameStreams (w₀.afterCalls env message.data session) := by
    have hcount : w₀.SameStreams { w₀ with dbOps := w₀.dbOps + 1 } := ⟨rfl, rfl, rfl, rfl, rfl, rfl⟩
    exact hcount.trans (sameStreams_answeredAll env message.data session 0 _ _)
  have hexecuted := executed_answeredAll env message.data session 0
    (handledCalls env session message.data.tools) { w₀ with dbOps := w₀.dbOps + 1 }
  change (w₀.afterCalls env message.data session).Clean at hafter
  change (w₀.afterCalls env message.data session).db = _ at hdb
  change (w₀.afterCalls env message.data session).executed = _ at hexecuted
  have hdelivered : ∀ w' : World, w'.db = (w₀.afterCalls env message.data session).committed →
      w'.committed = w'.db → w'.usable = true →
      w'.executed = (w₀.afterCalls env message.data session).executed →
      w'.deadThinks = (w₀.afterCalls env message.data session).deadThinks →
      w'.llmCalls = (w₀.afterCalls env message.data session).llmCalls →
      Delivered env session message.data w w' := by
    intro w' hdb' hcommitted husable hexecuted' hthinks hcalls
    rw [hafter.committed] at hdb'
    refine ⟨⟨husable, hcommitted, hdb' ▸ hafter.flushed⟩, ⟨turns, hturns, ?_⟩, ?_, ?_, ?_⟩
    · rw [hdb', hdb, ← hw₀]
    · rw [hexecuted', hexecuted, ← hw₀]
    · rw [hthinks, hstreams.deadThinks, ← hw₀]
    · rw [hcalls, hstreams.llmCalls, ← hw₀]
  unfold deliverTools
  rw [hqueue]
  simp only
  rw [hw₀]
  rcases processToolEvent_run env message.data hclean.usable hsession' with
    ⟨hall, hrun⟩ | ⟨bad, hmem, hbad, e, hrun⟩
  · rw [hrun]
    simp only
    split_ifs with hwaits
    · refine ⟨_, rfl, hdelivered _ rfl rfl rfl rfl rfl rfl, Or.inl ⟨hall, ?_, ?_, ?_⟩⟩
      · exact hstreams.executionQueue.trans (by rw [← hw₀])
      · exact hstreams.deadLetters.trans (by rw [← hw₀])
      · rw [List.append_nil]
        exact hstreams.taskQueue.trans (by rw [← hw₀])
    · refine ⟨_, rfl, hdelivered _ rfl rfl rfl rfl rfl rfl, Or.inl ⟨hall, ?_, ?_, ?_⟩⟩
      · exact hstreams.executionQueue.trans (by rw [← hw₀])
      · exact hstreams.deadLetters.trans (by rw [← hw₀])
      · show (w₀.afterCalls env message.data session).taskQueue ++ [_] = _
        rw [hstreams.taskQueue, hstreams.nextMessage, ← hw₀]
  · rw [hrun]
    have hnot : ¬ ∀ spec ∈ message.data.tools, Processable env session spec :=
      fun hall => hbad (hall bad hmem)
    have htools : (w₀.afterCalls env message.data session).inFlight =
        toolsAfter env session message.data.tools := by
      obtain ⟨rest, hspecs, htools⟩ := toolsAfter_split env session message.data.tools
      have h := inFlight_answeredAll env message.data session
        (handledCalls env session message.data.tools) [] rest { w₀ with dbOps := w₀.dbOps + 1 }
        (by rw [← hw₀]; exact hspecs)
      exact h.trans htools.symm
    refine ⟨_, rfl, hdelivered _ rfl rfl rfl rfl rfl rfl, Or.inr ⟨hnot, ?_, ?_⟩⟩
    · exact hstreams.taskQueue.trans (by rw [← hw₀])
    · show retry (withTools message (w₀.afterCalls env message.data session).inFlight)
        (w₀.afterCalls env message.data session).executionQueue
        (w₀.afterCalls env message.data session).deadLetters = _
      rw [htools, hstreams.executionQueue, hstreams.deadLetters, ← hw₀]

/-- What a delivery for a session that is not there leaves. -/
structure Missed (env : Env) (event : ToolEvent) (queue : List (StreamMessage ToolEvent))
    (w w' : World) : Prop where
  clean : w'.Clean
  db : w'.db = (w.db.addTurns env.nextSequence event.sessionId [missingSessionTurn event]).commit
  executed : w'.executed = w.executed
  taskQueue : w'.taskQueue = w.taskQueue ++ [⟨w.nextMessage, continuation event, 0⟩]
  executionQueue : w'.executionQueue = queue
  deadLetters : w'.deadLetters = w.deadLetters
  deadThinks : w'.deadThinks = w.deadThinks
  llmCalls : w'.llmCalls = w.llmCalls

theorem deliverTools_missing (env : Env) {w : World} {message : StreamMessage ToolEvent}
    {queue : List (StreamMessage ToolEvent)} (hw : w.Clean)
    (hqueue : w.executionQueue = message :: queue)
    (hsession : loadSession w.db message.data.sessionId message.data.tenantId = none) :
    ∃ w', deliverTools env.reliable w = some w' ∧ Missed env message.data queue w w' := by
  have hstart : ({ w with executionQueue := queue, inFlight := message.data.tools } : World).usable =
      true := hw.usable
  have hrun := processToolEvent_missing env message.data hstart hsession
  unfold deliverTools
  rw [hqueue]
  simp only
  rw [hrun]
  exact ⟨_, rfl, ⟨rfl, rfl, rfl⟩, rfl, rfl, rfl, rfl, rfl, rfl, rfl⟩

/-! ## What a delivery can touch -/

/-- The event belongs to the same task, session and tenant. -/
def SameOrigin (event event' : ToolEvent) : Prop :=
  event'.taskId = event.taskId ∧ event'.sessionId = event.sessionId ∧ event'.tenantId = event.tenantId

/-- A delivery writes rows of the task of its event, and publishes events of it. -/
structure Touched (env : Env) (event : ToolEvent) (queue : List (StreamMessage ToolEvent))
    (w w' : World) : Prop where
  clean : w'.Clean
  db : ∃ turns : List Turn, (∀ turn ∈ turns, turn.taskId = event.taskId) ∧
    w'.db = (w.db.addTurns env.nextSequence event.sessionId turns).commit
  taskQueue : ∃ thinks, w'.taskQueue = w.taskQueue ++ thinks ∧
    ∀ m ∈ thinks, m.data = continuation event
  executionQueue : ∃ events, w'.executionQueue = queue ++ events ∧
    ∀ m ∈ events, SameOrigin event m.data
  deadLetters : ∃ events, w'.deadLetters = w.deadLetters ++ events ∧
    ∀ m ∈ events, SameOrigin event m.data
  deadThinks : w'.deadThinks = w.deadThinks
  llmCalls : w'.llmCalls = w.llmCalls

theorem mem_reports_taskId {event : ToolEvent} {calls : List (ToolSpec × CallResult)}
    {turns : List Turn} (h : List.Forall₂ (Reports event) calls turns) :
    ∀ turn ∈ turns, turn.taskId = event.taskId := by
  induction h with
  | nil => exact fun _ h => absurd h List.not_mem_nil
  | cons hreports _ ih =>
    intro turn hturn
    rcases List.mem_cons.mp hturn with rfl | hturn
    · exact hreports.taskId
    · exact ih turn hturn

theorem deliverTools_touched (env : Env) {w : World} {message : StreamMessage ToolEvent}
    {queue : List (StreamMessage ToolEvent)} (hw : w.Clean)
    (hqueue : w.executionQueue = message :: queue) :
    ∃ w', deliverTools env.reliable w = some w' ∧ Touched env message.data queue w w' := by
  cases hsession : loadSession w.db message.data.sessionId message.data.tenantId with
  | none =>
    obtain ⟨w', hrun, hmissed⟩ := deliverTools_missing env hw hqueue hsession
    refine ⟨w', hrun, hmissed.clean, ⟨[missingSessionTurn message.data], ?_, hmissed.db⟩,
      ⟨_, hmissed.taskQueue, ?_⟩, ⟨[], hmissed.executionQueue.trans (List.append_nil _).symm, nofun⟩,
      ⟨[], hmissed.deadLetters.trans (List.append_nil _).symm, nofun⟩, hmissed.deadThinks,
      hmissed.llmCalls⟩
    · intro turn hturn
      rw [List.mem_singleton.mp hturn]
      rfl
    · intro m hm
      rw [List.mem_singleton.mp hm]
  | some session =>
    obtain ⟨w', hrun, hdelivered, hstreams⟩ := deliverTools_spec env hw hqueue hsession
    obtain ⟨turns, hreports, hdb⟩ := hdelivered.db
    refine ⟨w', hrun, ?_⟩
    rcases hstreams with ⟨_, hexecution, hdead, hthinks⟩ | ⟨_, hthinks, hretry⟩
    · refine ⟨hdelivered.clean, ⟨turns, mem_reports_taskId hreports, hdb⟩, ⟨_, hthinks, ?_⟩,
        ⟨[], hexecution.trans (List.append_nil _).symm, nofun⟩,
        ⟨[], hdead.trans (List.append_nil _).symm, nofun⟩, hdelivered.deadThinks, hdelivered.llmCalls⟩
      intro m hm
      split_ifs at hm
      · exact absurd hm List.not_mem_nil
      · rw [List.mem_singleton.mp hm]
    · have hmoved : ∀ m ∈ [StreamMessage.failed
          (withTools message (toolsAfter env session message.data.tools))],
          SameOrigin message.data m.data := by
        intro m hm
        rw [List.mem_singleton.mp hm]
        exact ⟨rfl, rfl, rfl⟩
      have hthinks' : ∃ thinks, w'.taskQueue = w.taskQueue ++ thinks ∧
          ∀ m ∈ thinks, m.data = continuation message.data :=
        ⟨[], hthinks.trans (List.append_nil _).symm, nofun⟩
      rcases Nat.lt_or_ge (message.attemptCount + 1) 3 with hlimit | hlimit
      · rw [retry_of_lt _ (by exact hlimit)] at hretry
        obtain ⟨hexecution, hdead⟩ := Prod.mk.inj hretry
        exact ⟨hdelivered.clean, ⟨turns, mem_reports_taskId hreports, hdb⟩, hthinks',
          ⟨_, hexecution, hmoved⟩, ⟨[], hdead.trans (List.append_nil _).symm, nofun⟩,
          hdelivered.deadThinks, hdelivered.llmCalls⟩
      · rw [retry_of_le _ (by exact hlimit)] at hretry
        obtain ⟨hexecution, hdead⟩ := Prod.mk.inj hretry
        exact ⟨hdelivered.clean, ⟨turns, mem_reports_taskId hreports, hdb⟩, hthinks',
          ⟨[], hexecution.trans (List.append_nil _).symm, nofun⟩, ⟨_, hdead, hmoved⟩,
          hdelivered.deadThinks, hdelivered.llmCalls⟩

theorem deliverTools_inv {env : Env} {w w' : World} (hw : w.Clean)
    (hstep : deliverTools env.reliable w = some w') :
    ∃ message queue, w.executionQueue = message :: queue ∧ Touched env message.data queue w w' := by
  cases hqueue : w.executionQueue with
  | nil =>
    unfold deliverTools at hstep
    rw [hqueue] at hstep
    cases hstep
  | cons message queue =>
    obtain ⟨w'', hrun, htouched⟩ := deliverTools_touched env hw hqueue
    obtain rfl := Option.some.inj (hrun.symm.trans hstep)
    exact ⟨message, queue, rfl, htouched⟩

end KernelRuntime.AgentLoop
