import KernelRuntime.AgentLoop.BrainEffects

/-! # Publishing before the commit

`process_response` publishes a batch before it commits the message that carries its calls, and its
caller catches every exception. Any operation of the database may fail here: `dbFails` is arbitrary.
A batch and its message come apart at one point only, the commit after the publication. -/

namespace KernelRuntime.AgentLoop
set_option autoImplicit false

/-! ## What is promised -/

/-- The calls of an assistant message are those of a batch. -/
def Carries (env : Env) (calls : List ToolCall) (tools : List ToolSpec) : Prop :=
  List.Forall₂ (fun tc spec => spec.id = tc.id ∧ spec.name = tc.name ∧
    parseArguments env tc.arguments = .ok spec.args) calls tools

/-- A row that a response stored for a batch. -/
structure CarriedBy (env : Env) (target : Target) (firstId : ℕ) (batch : ToolEvent) (r : MessageModel) : Prop where
  new : firstId ≤ r.id
  role : r.role = "assistant"
  sessionId : r.sessionId = target.sessionId
  taskId : r.taskId = target.taskId
  calls : Carries env r.toolCalls batch.tools

/-- Every batch that was published is carried by a committed message, and a response that published
one did not end the task. -/
def PublishContract (env : Env) (target : Target) (w w' : World) : Prop :=
  ∃ events logs, w'.executionQueue = w.executionQueue ++ events ∧ w'.taskLog = w.taskLog ++ logs ∧
    (∀ m ∈ events, ∃ r ∈ w'.committed.messages, CarriedBy env target w.db.nextId m.data r) ∧
    (events ≠ [] → (target.taskId, LogEvent.taskResolved) ∉ logs)

/-- The batch of the response is published, and the commit that follows fails. -/
structure LosesCommit (env : Env) (chunks : List (Option Delta)) (failure : Option String)
    (w : World) : Prop where
  unbroken : failure = none
  calls : (collect chunks).toolCalls ≠ []
  payload : ∃ payload, payloadOf env ((collect chunks).toolCalls.map Prod.snd) = .ok payload
  stored : ∀ k < 3, env.dbFails (w.dbOps + k) = false
  lost : env.dbFails (w.dbOps + 3) = true

/-! ## Handlers that publish no batch -/

/-- No batch was published, and the log only grew. -/
structure Kept (w w' : World) : Prop where
  executionQueue : w'.executionQueue = w.executionQueue
  taskLog : ∃ logs, w'.taskLog = w.taskLog ++ logs

theorem Kept.refl (w : World) : Kept w w := ⟨rfl, [], (List.append_nil _).symm⟩

theorem Kept.trans (w w' w'' : World) (h : Kept w w') (h' : Kept w' w'') : Kept w w'' := by
  obtain ⟨logs, hlogs⟩ := h.taskLog
  obtain ⟨logs', hlogs'⟩ := h'.taskLog
  refine ⟨h'.executionQueue.trans h.executionQueue, logs ++ logs', ?_⟩
  rw [hlogs', hlogs, List.append_assoc]

theorem Kept.contract {w w' : World} (h : Kept w w') (env : Env) (target : Target) :
    PublishContract env target w w' := by
  obtain ⟨logs, hlogs⟩ := h.taskLog
  refine ⟨[], logs, by rw [h.executionQueue, List.append_nil], hlogs, ?_, ?_⟩
  · exact fun m hm => absurd hm List.not_mem_nil
  · exact fun hne => absurd rfl hne

theorem kept_log (w : World) (taskId : Option String) (es : List LogEvent) :
    Kept w (w.logAll taskId es) := ⟨rfl, _, rfl⟩

section Handlers
variable (env : Env) (target : Target)

theorem kept_query : Preserves Kept (query env) := by
  intro w
  unfold finalState query
  simp only
  split_ifs <;> exact ⟨rfl, [], (List.append_nil _).symm⟩

theorem kept_write {change : World → World} (hchange : ∀ w, Kept w (change w)) :
    Preserves Kept (write env change) := by
  intro w
  unfold finalState write
  simp only
  split_ifs
  · exact ⟨rfl, [], (List.append_nil _).symm⟩
  · obtain ⟨hqueue, logs, hlogs⟩ := hchange { w with dbOps := w.dbOps + 1 }
    exact ⟨hqueue, logs, hlogs⟩

theorem kept_persistMessage (sessionId : String) (turn : Turn) :
    Preserves Kept (persistMessage env sessionId turn) := by
  unfold persistMessage
  refine (kept_query env).bind Kept.trans fun _ => (kept_query env).bind Kept.trans fun _ => ?_
  exact kept_write env fun _ => ⟨rfl, [], (List.append_nil _).symm⟩

theorem kept_commit : Preserves Kept (commit env) :=
  kept_write env fun _ => ⟨rfl, [], (List.append_nil _).symm⟩

theorem kept_publishLog (taskId : Option String) (e : LogEvent) : Preserves Kept (publishLog taskId e) :=
  fun w => kept_log w taskId [e]

theorem kept_finishWith (content : String) : Preserves Kept (finishWith env target content) := by
  unfold finishWith endTask
  refine (kept_persistMessage env _ _).bind Kept.trans fun _ => ?_
  exact (kept_publishLog _ _).bind Kept.trans fun _ => kept_commit env

theorem kept_reportStreamError (message : String) :
    Preserves Kept (reportStreamError env target message) := by
  unfold reportStreamError
  exact (kept_publishLog _ _).bind Kept.trans fun _ => kept_finishWith env target _

theorem kept_answerTask (content : String) : Preserves Kept (answerTask env target content) := by
  unfold answerTask
  refine (kept_persistMessage env _ _).bind Kept.trans fun _ => ?_
  have hresolved : ∀ event, Preserves Kept (publishResolved event) :=
    fun _ _ => ⟨rfl, [], (List.append_nil _).symm⟩
  refine (hresolved _).bind Kept.trans fun _ => ?_
  exact (kept_publishLog _ _).bind Kept.trans fun _ => kept_commit env

theorem kept_dispatchCalls {calls : List ToolCall} {bad : BadCall} (hbad : payloadOf env calls = .error bad)
    (content : String) : Preserves Kept (dispatchCalls env target content calls) := by
  unfold dispatchCalls
  refine (kept_persistMessage env _ _).bind Kept.trans fun _ => ?_
  intro w
  rw [finalState_bind, toolsPayload_run, hbad]
  obtain ⟨tc, e⟩ := bad
  cases e with
  | malformed => exact Kept.trans _ _ _ (kept_log w _ _) (kept_finishWith env target _ _)
  | refused => exact kept_log w _ _

end Handlers

/-! ## A batch -/

section Batch
variable (env : Env) (target : Target) {w : World}

theorem query_ok (hw : w.usable = true) (hop : env.dbFails w.dbOps = false) :
    query env w = .ok () { w with dbOps := w.dbOps + 1 } := by
  simp [query, hw, hop]

theorem query_error (h : w.usable = false ∨ env.dbFails w.dbOps = true) :
    query env w = .error databaseError { w with dbOps := w.dbOps + 1 } := if_pos h

theorem write_ok (change : World → World) (hw : w.usable = true) (hop : env.dbFails w.dbOps = false) :
    write env change w = .ok () (change { w with dbOps := w.dbOps + 1 }) := by
  simp [write, hw, hop]

theorem write_error (change : World → World) (h : w.usable = false ∨ env.dbFails w.dbOps = true) :
    write env change w =
      .error databaseError { w with dbOps := w.dbOps + 1, db := w.committed, usable := false } := if_pos h

theorem persistMessage_cases (sessionId : String) (turn : Turn) (hw : w.usable = true) :
    ((∀ k < 3, env.dbFails (w.dbOps + k) = false) ∧
      persistMessage env sessionId turn w = .ok () (w.persisted env.nextSequence sessionId turn)) ∨
    ((¬ ∀ k < 3, env.dbFails (w.dbOps + k) = false) ∧
      ∃ e w', persistMessage env sessionId turn w = .error e w') := by
  unfold persistMessage
  rw [bind_run]
  cases h₀ : env.dbFails w.dbOps with
  | true =>
    rw [query_error env (Or.inr h₀)]
    refine Or.inr ⟨fun hall => ?_, _, _, rfl⟩
    exact absurd (h₀.symm.trans (hall 0 (by omega))) (by decide)
  | false =>
    rw [query_ok env hw h₀]
    simp only
    rw [bind_run]
    cases h₁ : env.dbFails (w.dbOps + 1) with
    | true =>
      rw [query_error env (Or.inr (by exact h₁))]
      refine Or.inr ⟨fun hall => ?_, _, _, rfl⟩
      exact absurd (h₁.symm.trans (hall 1 (by omega))) (by decide)
    | false =>
      rw [query_ok env (by exact hw) (by exact h₁)]
      simp only
      cases h₂ : env.dbFails (w.dbOps + 2) with
      | true =>
        rw [write_error env _ (Or.inr (by exact h₂))]
        refine Or.inr ⟨fun hall => ?_, _, _, rfl⟩
        exact absurd (h₂.symm.trans (hall 2 (by omega))) (by decide)
      | false =>
        rw [write_ok env _ (by exact hw) (by exact h₂)]
        refine Or.inl ⟨fun k hk => ?_, rfl⟩
        obtain rfl | rfl | rfl : k = 0 ∨ k = 1 ∨ k = 2 := by omega
        · exact h₀
        · exact h₁
        · exact h₂

/-- The world in which a batch is published and its message not yet committed. -/
def World.announced (w : World) (env : Env) (target : Target) (content : String) (calls : List ToolCall)
    (payload : List ToolSpec) : World :=
  ((w.persisted env.nextSequence target.sessionId (assistantTurn target.taskId content calls)).logAll
    target.taskId (startEvents env calls)).putTools (batchEvent target payload)

/-- A response with calls ends before the publication, after the commit, or between the two. -/
theorem dispatchCalls_cases (content : String) {calls : List ToolCall} {payload : List ToolSpec}
    (hpayload : payloadOf env calls = .ok payload) (hw : w.usable = true) :
    ((¬ ∀ k < 3, env.dbFails (w.dbOps + k) = false) ∧
      ∃ e w', dispatchCalls env target content calls w = .error e w' ∧ Kept w w') ∨
    ((∀ k < 3, env.dbFails (w.dbOps + k) = false) ∧ env.dbFails (w.dbOps + 3) = false ∧
      dispatchCalls env target content calls w =
        .ok () (w.announced env target content calls payload).saved) ∨
    ((∀ k < 3, env.dbFails (w.dbOps + k) = false) ∧ env.dbFails (w.dbOps + 3) = true ∧
      ∃ e w', dispatchCalls env target content calls w = .error e w' ∧ w'.usable = false ∧
        w'.executionQueue = (w.announced env target content calls payload).executionQueue ∧
        w'.committed = w.committed) := by
  have hkept := kept_persistMessage env target.sessionId (assistantTurn target.taskId content calls) w
  rcases persistMessage_cases env target.sessionId (assistantTurn target.taskId content calls) hw with
    ⟨hstored, hrun⟩ | ⟨hlost, e, w', hrun⟩
  · right
    have hbatch : dispatchCalls env target content calls w =
        commit env (w.announced env target content calls payload) := by
      unfold dispatchCalls
      rw [bind_run, hrun]
      simp only
      rw [bind_run, toolsPayload_run, hpayload]
      rfl
    rw [hbatch]
    cases hcommit : env.dbFails (w.dbOps + 3) with
    | false => exact Or.inl ⟨hstored, rfl, write_ok env _ (by exact hw) (by exact hcommit)⟩
    | true =>
      exact Or.inr ⟨hstored, rfl, _, _, write_error env _ (Or.inr (by exact hcommit)), rfl, rfl, rfl⟩
  · refine Or.inl ⟨hlost, e, w', ?_, ?_⟩
    · unfold dispatchCalls
      rw [bind_run, hrun]
    · unfold finalState at hkept
      rw [hrun] at hkept
      exact hkept

theorem announced_contract (content : String) {calls : List ToolCall} {payload : List ToolSpec}
    (hpayload : payloadOf env calls = .ok payload) :
    PublishContract env target w (w.announced env target content calls payload).saved := by
  refine ⟨[⟨w.nextMessage, batchEvent target payload, 0⟩],
    (startEvents env calls).map fun e => (target.taskId, e), rfl, rfl, ?_, ?_⟩
  · intro m hm
    rw [List.mem_singleton.mp hm]
    refine ⟨w.db.newMessage env.nextSequence target.sessionId
      (assistantTurn target.taskId content calls), ?_, le_refl _, rfl, rfl, rfl,
      payloadOf_eq_ok hpayload⟩
    show _ ∈ w.db.messages ++ (w.db.flushed ++ [_])
    exact List.mem_append_right _ (List.mem_append_right _ List.mem_cons_self)
  · intro _ hmem
    obtain ⟨e, he, heq⟩ := List.mem_map.mp hmem
    rw [(Prod.mk.inj heq).2] at he
    exact not_mem_startEvents env calls he

/-- A unit of work that takes no statement publishes no batch and commits nothing. -/
def Stuck (w w' : World) : Prop :=
  w.usable = false → w'.usable = false ∧ w'.executionQueue = w.executionQueue ∧ w'.committed = w.committed

theorem Stuck.trans (w w' w'' : World) (h : Stuck w w') (h' : Stuck w' w'') : Stuck w w'' := by
  intro hw
  obtain ⟨husable, hqueue, hcommitted⟩ := h hw
  obtain ⟨husable', hqueue', hcommitted'⟩ := h' husable
  exact ⟨husable', hqueue'.trans hqueue, hcommitted'.trans hcommitted⟩

theorem stuck_query : Preserves Stuck (query env) := by
  intro w hw
  unfold finalState
  rw [query_error env (Or.inl hw)]
  exact ⟨hw, rfl, rfl⟩

theorem stuck_write (change : World → World) : Preserves Stuck (write env change) := by
  intro w hw
  unfold finalState
  rw [write_error env change (Or.inl hw)]
  exact ⟨rfl, rfl, rfl⟩

theorem stuck_reportStreamError (message : String) :
    Preserves Stuck (reportStreamError env target message) := by
  have hlog : ∀ e, Preserves Stuck (publishLog target.taskId e) := fun _ _ hw => ⟨hw, rfl, rfl⟩
  unfold reportStreamError finishWith endTask persistMessage
  refine (hlog _).bind Stuck.trans fun _ => ?_
  refine ((stuck_query env).bind Stuck.trans fun _ => (stuck_query env).bind Stuck.trans fun _ =>
    stuck_write env _).bind Stuck.trans fun _ => ?_
  exact (hlog _).bind Stuck.trans fun _ => stuck_write env _

end Batch

/-! ## The response -/

section Response
variable (env : Env) (target : Target) (chunks : List (Option Delta))

/-- What `process_response` does after the line break. -/
def respond (env : Env) (target : Target) (c : Collected) : Handler Unit :=
  if (c.toolCalls.map Prod.snd).isEmpty then answerTask env target (String.join c.content)
  else dispatchCalls env target (String.join c.content) (c.toolCalls.map Prod.snd)

theorem logAll_append (w : World) (taskId : Option String) (es es' : List LogEvent) :
    (w.logAll taskId es).logAll taskId es' = w.logAll taskId (es ++ es') := by
  simp [World.logAll]

theorem streamResponse_respond (w : World) : ∃ es, LogEvent.taskResolved ∉ es ∧
    finalState (streamResponse env target chunks none) w =
      finalState (tryCatch (respond env target (collect chunks))
        fun e => reportStreamError env target e.message) (w.logAll target.taskId es) := by
  obtain ⟨w₁, hrun, es, hes, rfl⟩ := readStream_run target.taskId ⟨[], []⟩ chunks w
  change readStream target.taskId ⟨[], []⟩ chunks w = .ok (collect chunks) _ at hrun
  have hline : ∃ line, LogEvent.taskResolved ∉ line ∧
      publishLineBreak target (String.join (collect chunks).content) (w.logAll target.taskId es) =
        .ok () (w.logAll target.taskId (es ++ line)) := by
    unfold publishLineBreak
    split_ifs
    · exact ⟨[], List.not_mem_nil, by rw [List.append_nil]; rfl⟩
    · refine ⟨[.text "\r\n"], by simp, ?_⟩
      rw [← logAll_append]
      rfl
  obtain ⟨line, hlineNot, hline⟩ := hline
  refine ⟨es ++ line, ?_, ?_⟩
  · intro hmem
    rcases List.mem_append.mp hmem with hmem | hmem
    · exact hes hmem
    · exact hlineNot hmem
  · unfold streamResponse finalState
    rw [tryCatch_run, tryCatch_run, bind_run, hrun]
    have hresponse : processResponse env target (collect chunks).content
        ((collect chunks).toolCalls.map Prod.snd) (w.logAll target.taskId es) =
        respond env target (collect chunks) (w.logAll target.taskId (es ++ line)) := by
      show (publishLineBreak target _ >>= fun _ => respond env target (collect chunks)) _ = _
      rw [bind_run, hline]
    simp only
    rw [hresponse]

theorem PublishContract.of_log {w w' : World} {es : List LogEvent} (hes : LogEvent.taskResolved ∉ es)
    (h : PublishContract env target (w.logAll target.taskId es) w') : PublishContract env target w w' := by
  obtain ⟨events, logs, hqueue, hlogs, hcarried, hresolved⟩ := h
  refine ⟨events, es.map (fun e => (target.taskId, e)) ++ logs, hqueue, ?_, hcarried, ?_⟩
  · rw [hlogs, ← List.append_assoc]
    rfl
  · intro hne hmem
    rcases List.mem_append.mp hmem with hmem | hmem
    · obtain ⟨e, he, heq⟩ := List.mem_map.mp hmem
      rw [(Prod.mk.inj heq).2] at he
      exact hes he
    · exact hresolved hne hmem

/-- No batch is published when the stream breaks, when it has no calls, or when the arguments of one
are not JSON. -/
theorem kept_streamResponse {failure : Option String} (h : failure ≠ none ∨
      (collect chunks).toolCalls = [] ∨
      ∃ bad, payloadOf env ((collect chunks).toolCalls.map Prod.snd) = .error bad) :
    ∀ w, PublishContract env target w (finalState (streamResponse env target chunks failure) w) := by
  intro w
  cases failure with
  | some message =>
    obtain ⟨w₁, hrun, es, _, rfl⟩ := readStream_run target.taskId ⟨[], []⟩ chunks w
    have hraised : finalState (streamResponse env target chunks (some message)) w =
        finalState (reportStreamError env target message) (w.logAll target.taskId es) := by
      unfold streamResponse finalState
      rw [tryCatch_run, bind_run, hrun]
      rfl
    rw [hraised]
    exact (Kept.trans _ _ _ (kept_log w _ _) (kept_reportStreamError env target _ _)).contract env target
  | none =>
    obtain ⟨es, _, hrun⟩ := streamResponse_respond env target chunks w
    rw [hrun]
    have hrespond : Preserves Kept (respond env target (collect chunks)) := by
      unfold respond
      split_ifs with hcalls
      · exact kept_answerTask env target _
      · rcases h with h | h | ⟨bad, hbad⟩
        · exact absurd rfl h
        · rw [h] at hcalls
          exact absurd rfl hcalls
        · exact kept_dispatchCalls env target hbad _
    have hkept := hrespond.tryCatch Kept.trans fun e => kept_reportStreamError env target e.message
    exact (Kept.trans _ _ _ (kept_log w _ _) (hkept _)).contract env target

/-- **A published batch is carried by a committed message, and does not end the task, unless exactly
the commit after its publication fails.** -/
theorem publishContract_iff (failure : Option String) (w : World) (hw : w.usable = true)
    (hids : ∀ r ∈ w.committed.messages, r.id < w.db.nextId) :
    PublishContract env target w (finalState (streamResponse env target chunks failure) w) ↔
      ¬ LosesCommit env chunks failure w := by
  by_cases hquiet : failure ≠ none ∨ (collect chunks).toolCalls = [] ∨
      ∃ bad, payloadOf env ((collect chunks).toolCalls.map Prod.snd) = .error bad
  · refine iff_of_true (kept_streamResponse env target chunks hquiet w) fun hlost => ?_
    rcases hquiet with h | h | ⟨bad, hbad⟩
    · exact h hlost.unbroken
    · exact hlost.calls h
    · obtain ⟨payload, hpayload⟩ := hlost.payload
      rw [hbad] at hpayload
      cases hpayload
  · push Not at hquiet
    obtain ⟨rfl, hcalls, hnoError⟩ := hquiet
    cases hpayload : payloadOf env ((collect chunks).toolCalls.map Prod.snd) with
    | error bad => exact absurd hpayload (hnoError bad)
    | ok payload =>
      obtain ⟨es, hes, hrun⟩ := streamResponse_respond env target chunks w
      have hdispatch : respond env target (collect chunks) = dispatchCalls env target
          (String.join (collect chunks).content) ((collect chunks).toolCalls.map Prod.snd) :=
        if_neg (by simpa using hcalls)
      rw [hrun, hdispatch]
      unfold finalState
      rw [tryCatch_run]
      rcases dispatchCalls_cases env target (String.join (collect chunks).content) hpayload
        (w := w.logAll target.taskId es) hw with ⟨hlost, e, w', hends, hkept⟩ |
        ⟨hstored, hcommit, hends⟩ | ⟨hstored, hcommit, e, w', hends, husable, hqueue, hcommitted⟩
      · -- the message is not stored, and nothing is published
        rw [hends]
        refine iff_of_true ?_ fun h => hlost h.stored
        refine PublishContract.of_log env target hes (Kept.contract ?_ env target)
        exact Kept.trans _ _ _ hkept (kept_reportStreamError env target e.message w')
      · rw [hends]
        refine iff_of_true ?_ fun h => absurd (h.lost.symm.trans hcommit) (by decide)
        exact PublishContract.of_log env target hes (announced_contract env target _ hpayload)
      · -- the batch is published, and its message rolled back
        rw [hends]
        refine iff_of_false ?_ fun h => h ⟨rfl, hcalls, ⟨payload, hpayload⟩, hstored, hcommit⟩
        obtain ⟨_, hqueue', hcommitted'⟩ := stuck_reportStreamError env target e.message w' husable
        rintro ⟨events, logs, hevents, _, hcarried, _⟩
        change (finalState (reportStreamError env target e.message) w').executionQueue = _ at hevents
        rw [hqueue', hqueue] at hevents
        have hbatch := List.append_cancel_left hevents
        obtain ⟨r, hr, hcarriedBy⟩ := hcarried _ (hbatch ▸ List.mem_cons_self)
        change r ∈ (finalState (reportStreamError env target e.message) w').committed.messages at hr
        rw [hcommitted', hcommitted] at hr
        have hold := hids r hr
        have hnew := hcarriedBy.new
        omega

end Response

/-- A stream with one call. -/
def readChunks : List (Option Delta) :=
  [some ⟨none, none, [⟨0, some "call_1", some "function", some "read_file",
    some "\x7b\"filepath\": \"a.txt\"\x7d"⟩]⟩]

/-- The deployment in which the `n`-th operation of the database fails. -/
def failingAt (n : ℕ) : Env := { localEnv with dbFails := fun k => decide (k = n) }

/-- The message of a call is not stored: its batch is not published. -/
theorem publishContract_flush_fails : PublishContract (failingAt 2) ⟨some "t1", "s1", "acme"⟩
    (World.start [localSession "auto"])
    (finalState (streamResponse (failingAt 2) ⟨some "t1", "s1", "acme"⟩ readChunks none)
      (World.start [localSession "auto"])) :=
  (publishContract_iff (failingAt 2) _ readChunks none _ rfl (fun _ h => absurd h List.not_mem_nil)).mpr
    fun h => absurd (h.stored 2 (by omega)) (by decide)

/-- The commit fails after the publication: the batch stays, and its message is gone. -/
theorem batch_without_message : ¬ ∀ env target chunks failure w, w.usable = true →
    (∀ r ∈ w.committed.messages, r.id < w.db.nextId) →
    PublishContract env target w (finalState (streamResponse env target chunks failure) w) := by
  intro h
  obtain ⟨events, logs, hevents, _, hcarried, _⟩ := h (failingAt 3) ⟨some "t1", "s1", "acme"⟩ readChunks
    none (World.start [localSession "auto"]) rfl fun _ h => absurd h List.not_mem_nil
  have hqueue : (finalState (streamResponse (failingAt 3) ⟨some "t1", "s1", "acme"⟩ readChunks none)
      (World.start [localSession "auto"])).executionQueue.length = 1 := by decide +kernel
  have hrows : (finalState (streamResponse (failingAt 3) ⟨some "t1", "s1", "acme"⟩ readChunks none)
      (World.start [localSession "auto"])).committed.messages = [] := by decide +kernel
  rw [hevents] at hqueue
  cases events with
  | nil => exact absurd hqueue (by decide)
  | cons m events =>
    obtain ⟨r, hr, _⟩ := hcarried m List.mem_cons_self
    rw [hrows] at hr
    exact absurd hr List.not_mem_nil

end KernelRuntime.AgentLoop
