import KernelRuntime.AgentLoop.TaskView

/-! # The session of a task

A task belongs to one session: its rows and its events name it, and no step moves it. The window that
the model is given is then the transcript of the task. -/

namespace KernelRuntime.AgentLoop
open Approval Transcript
set_option autoImplicit false

/-! ## The tables -/

structure Grounded (w : World) : Prop where
  clean : w.Clean
  ids : (w.db.sessions.map SessionModel.id).Nodup
  sound : w.db.Sound

section Tables
variable {env : Env} {w w' : World}

theorem Grounded.of_turns (hfresh : env.nextSequence.Fresh) (h : Grounded w) (hclean : w'.Clean)
    (tasks : List TaskModel) {sessionId : String} {turns : List Turn}
    (hdb : w'.db = ((w.withTasks tasks).db.addTurns env.nextSequence sessionId turns).commit) :
    Grounded w' := by
  have hsound : (w.withTasks tasks).db.Sound := h.sound.congr rfl fun _ => rfl
  refine ⟨hclean, ?_, ?_⟩
  · rw [hdb, Database.sessions_commit_addTurns]
    exact h.ids
  · rw [hdb]
    exact (hsound.addTurns hfresh sessionId turns).commit

theorem map_id_map {f : SessionModel → SessionModel} (hid : ∀ s, (f s).id = s.id)
    (sessions : List SessionModel) :
    (sessions.map f).map SessionModel.id = sessions.map SessionModel.id := by
  rw [List.map_map]
  exact List.map_congr_left fun s _ => hid s

theorem tenantOf_map {db : Database} {f : SessionModel → SessionModel}
    (hid : ∀ s, (f s).id = s.id) (htenant : ∀ s, (f s).tenantId = s.tenantId) (sessionId : String) :
    ({ db with sessions := db.sessions.map f } : Database).tenantOf sessionId = db.tenantOf sessionId := by
  have hfind : ({ db with sessions := db.sessions.map f } : Database).findSession sessionId =
      (db.findSession sessionId).map f := by
    unfold Database.findSession
    rw [List.find?_map]
    congr 2
    funext s
    simp [hid]
  unfold Database.tenantOf
  rw [hfind]
  cases db.findSession sessionId with
  | none => rfl
  | some s => exact htenant s

theorem grounded_chat (h : Grounded w) {tenantId id : String} {req : ChatRequest}
    (hstep : sendChatMessage tenantId id req w = some w') : Grounded w' := by
  unfold sendChatMessage at hstep
  split_ifs at hstep
  · obtain rfl := Option.some.inj hstep
    have hid : ∀ s : SessionModel, (if s.id = req.sessionId ∧ s.tenantId = tenantId then
        { s with context := req.contextOf s.context } else s).id = s.id := by
      intro s
      split_ifs <;> rfl
    have htenant : ∀ s : SessionModel, (if s.id = req.sessionId ∧ s.tenantId = tenantId then
        { s with context := req.contextOf s.context } else s).tenantId = s.tenantId := by
      intro s
      split_ifs <;> rfl
    refine ⟨⟨h.clean.usable, rfl, h.clean.flushed⟩, ?_, ?_⟩
    · show ((w.db.sessions.map _).map SessionModel.id).Nodup
      rw [map_id_map hid]
      exact h.ids
    · exact h.sound.congr rfl fun sessionId => tenantOf_map hid htenant sessionId
  · obtain rfl := Option.some.inj hstep
    exact h

theorem grounded_decision (h : Grounded w) {req : ApprovalRequest} (hd : Decision req w w') :
    Grounded w' := by
  have hstore : ∀ metadata, Grounded (w.store (decideRow w.db req metadata)) := by
    intro metadata
    have hmap : ∀ {α : Type} (f : MessageModel → α),
        (∀ r metadata, f { r with extraMetadata := metadata } = f r) →
        (decideRow w.db req metadata).messages.map f = w.db.messages.map f :=
      fun f hf => map_decideRow f hf w.db req metadata
    have hvisible : (decideRow w.db req metadata).visible = (decideRow w.db req metadata).messages := by
      show _ ++ w.db.flushed = _
      rw [h.clean.flushed, List.append_nil]
    have hbefore : w.db.visible = w.db.messages := by
      rw [Database.visible, h.clean.flushed, List.append_nil]
    refine ⟨⟨h.clean.usable, rfl, h.clean.flushed⟩, h.ids, ?_, ?_⟩
    · show (decideRow w.db req metadata).visible.Pairwise _
      have hkeys : (w.db.messages.map fun r => (r.sessionId, r.sequence)).Pairwise
          fun a b => a.1 = b.1 → a.2 < b.2 := List.pairwise_map.mpr (hbefore ▸ h.sound.ordered)
      rw [← hmap _ fun _ _ => rfl] at hkeys
      rw [hvisible]
      exact List.pairwise_map.mp hkeys
    · intro r hr
      change r ∈ (decideRow w.db req metadata).visible at hr
      rw [hvisible] at hr
      have hmem := List.mem_map_of_mem (f := fun r : MessageModel => (r.sessionId, r.tenantId)) hr
      rw [hmap _ fun _ _ => rfl] at hmem
      obtain ⟨r', hr', heq⟩ := List.mem_map.mp hmem
      obtain ⟨hsession, htenant⟩ := Prod.mk.inj heq
      rw [← hsession, ← htenant]
      exact h.sound.tenants r' (hbefore ▸ hr')
  cases hd with
  | nothing => exact h
  | denied message m => exact hstore _
  | approved message m args =>
    have hs := hstore { m with status := .approved, args := args }
    exact ⟨⟨hs.clean.usable, rfl, hs.clean.flushed⟩, hs.ids, hs.sound⟩

theorem grounded_thought (hfresh : env.nextSequence.Fresh) (h : Grounded w) {target : Target}
    {s : SessionModel} {asks : Prop} {reply : ProviderReply} {message : StreamMessage ThinkEvent}
    {queue : List (StreamMessage ThinkEvent)}
    (ht : Thought env target s asks reply message queue w w') : Grounded w' := by
  rcases ht.outcome with ⟨tasks, before, turns, _, _, _, _, _, _, _, hdb, _⟩ | ⟨_, _, _, _, _, hdb, _⟩
  · exact h.of_turns hfresh ht.clean tasks hdb
  · exact ⟨ht.clean, hdb ▸ h.ids, hdb ▸ h.sound⟩

end Tables

/-! ## Where a task lives -/

/-- An event of the session. -/
structure Owned (session : SessionModel) (sessionId : String) (tenantId : Option String) : Prop where
  sessionId : sessionId = session.id
  tenantId : truthyText tenantId ≠ none → tenantId = some session.tenantId

/-- The task is one of the session. -/
structure Home (session : SessionModel) (taskId : Option String) (w : World) : Prop where
  registered : Registered session w
  named : truthyText taskId ≠ none
  born : ∃ t ∈ w.db.tasks, some t.id = taskId
  rows : ∀ r ∈ taskRows taskId w, r.sessionId = session.id
  thinks : ∀ m ∈ taskThinks taskId w, Owned session m.data.sessionId m.data.tenantId
  events : ∀ m ∈ taskEvents taskId w, Owned session m.data.sessionId m.data.tenantId

section Homes
variable {env : Env} {session : SessionModel} {taskId : Option String} {w w' : World}

theorem Home.loads (h : Home session taskId w) {sessionId : String} {tenantId : Option String}
    (ho : Owned session sessionId tenantId) :
    ∃ context, loadSession w.db sessionId tenantId = some { session with context := context } := by
  obtain ⟨context, hrow⟩ := h.registered.row
  rw [ho.sessionId]
  exact ⟨context, loadSession_of_mem h.registered.ids hrow ho.tenantId⟩

theorem Home.tenantOf (h : Home session taskId w) : w.db.tenantOf session.id = session.tenantId := by
  obtain ⟨context, hrow⟩ := h.registered.row
  have htenant := Database.tenantOf_of_mem h.registered.ids hrow
  exact htenant

theorem Home.tenant (h : Home session taskId w) (hsound : w.db.Sound) {r : MessageModel}
    (hr : r ∈ taskRows taskId w) : r.tenantId = session.tenantId := by
  have hmem := (List.mem_filter.mp hr).1
  rw [hsound.tenants r (List.mem_append_left _ hmem), h.rows r hr, h.tenantOf]

theorem Home.unaffected (h : Home session taskId w) (hregistered : Registered session w')
    (hu : Unaffected taskId w w') : Home session taskId w' := by
  refine ⟨hregistered, h.named, hu.born.mpr h.born, fun r hr => ?_, ?_, ?_⟩
  · have hmem : r.sessionId ∈ (taskRows taskId w').map MessageModel.sessionId := List.mem_map_of_mem hr
    rw [hu.sessions] at hmem
    obtain ⟨r', hr', heq⟩ := List.mem_map.mp hmem
    rw [← heq]
    exact h.rows r' hr'
  · rw [hu.thinks]
    exact h.thinks
  · rw [hu.events]
    exact h.events

/-! ## The session of the task after a step -/

theorem truthyText_eq_self {text : Option String} (h : truthyText text ≠ none) :
    truthyText text = text := by
  obtain ⟨x, hx⟩ := Option.ne_none_iff_exists'.mp h
  rw [hx]
  exact (Option.filter_eq_some_iff.mp hx).1.symm

/-- The continuation carries the tenant of the batch, or none where that is empty. -/
theorem truthyText_eq_some {tenantId : Option String} {tenant : String}
    (h : truthyText tenantId ≠ none → tenantId = some tenant)
    (hne : truthyText (truthyText tenantId) ≠ none) : truthyText tenantId = some tenant := by
  have htruthy : truthyText tenantId ≠ none := by
    rw [truthyText_eq_self hne] at hne
    exact hne
  exact (truthyText_eq_self htruthy).trans (h htruthy)

theorem mem_retry {message m : StreamMessage ThinkEvent} {queue dead : List (StreamMessage ThinkEvent)}
    (h : m ∈ (retry message queue dead).1) : m ∈ queue ∨ m.data = message.data := by
  unfold retry at h
  simp only at h
  split_ifs at h
  · exact Or.inl h
  · rcases List.mem_append.mp h with h | h
    · exact Or.inl h
    · right
      rw [List.mem_singleton.mp h]

/-- The event of the task that is at the head of the queue, and those behind it. -/
theorem Home.queued {message : StreamMessage ThinkEvent} {queue : List (StreamMessage ThinkEvent)}
    (h : Home session taskId w) (hqueue : w.taskQueue = message :: queue)
    {m : StreamMessage ThinkEvent} (hm : m ∈ message :: queue) (hown : m.data.taskId = taskId) :
    Owned session m.data.sessionId m.data.tenantId :=
  h.thinks m (List.mem_filter.mpr ⟨hqueue ▸ hm, decide_eq_true hown⟩)

/-- An event that failed goes back to the queue, and nothing else has changed. -/
theorem Home.retried {message : StreamMessage ThinkEvent} {queue dead : List (StreamMessage ThinkEvent)}
    (h : Home session taskId w) (hregistered : Registered session w')
    (hqueue : w.taskQueue = message :: queue) (htask : message.data.taskId = taskId) (hdb : w'.db = w.db)
    (hthinks : w'.taskQueue = (retry message queue dead).1) (hevents : w'.executionQueue = w.executionQueue) :
    Home session taskId w' := by
  refine ⟨hregistered, h.named, ?_, ?_, ?_, ?_⟩
  · rw [hdb]
    exact h.born
  · unfold taskRows
    rw [hdb]
    exact h.rows
  · intro m hm
    obtain ⟨hmem, hown⟩ := List.mem_filter.mp hm
    rw [hthinks] at hmem
    rcases mem_retry hmem with hmem | hdata
    · exact h.queued hqueue (List.mem_cons_of_mem _ hmem) (of_decide_eq_true hown)
    · rw [hdata]
      exact h.queued hqueue List.mem_cons_self htask
  · unfold taskEvents
    rw [hevents]
    exact h.events

theorem home_thought {target : Target} {s : SessionModel} {asks : Prop} {reply : ProviderReply}
    {message : StreamMessage ThinkEvent} {queue : List (StreamMessage ThinkEvent)}
    (h : Home session taskId w) (hregistered : Registered session w')
    (hqueue : w.taskQueue = message :: queue) (htask : message.data.taskId = taskId)
    (htarget : target.taskId = taskId) (hsession : target.sessionId = session.id)
    (htenant : asks → target.tenantId = session.tenantId)
    (ht : Thought env target s asks reply message queue w w') : Home session taskId w' := by
  rcases ht.outcome with ⟨tasks, before, turns, batches, calls, hids, hplain, _, hresponse, hasked, hdb,
    hthinks', hevents', _⟩ | ⟨tasks, before, calls, _, _, hdb, hretry, hevents', _⟩
  · have hflushed : (w.withTasks tasks).db.flushed = [] := h.registered.clean.flushed
    obtain ⟨rows, hmessages, hstored⟩ := stored_turns hflushed hdb
    change w'.db.messages = w.db.messages ++ rows at hmessages
    have hturns : ∀ turn ∈ before ++ turns, turn.taskId = taskId :=
      fun turn hturn => (hresponse.turns_of_task hplain turn hturn).1.trans htarget
    refine ⟨hregistered, h.named, ?_, ?_, ?_, ?_⟩
    · have htasks : w'.db.tasks = tasks := by
        rw [hdb]
        exact Database.tasks_addTurns _ _ _ _
      rw [htasks]
      exact (exists_id_congr hids).mpr h.born
    · intro r hr
      rw [rows_stored hturns hstored hmessages] at hr
      rcases List.mem_append.mp hr with hr | hr
      · exact h.rows r hr
      · exact (mem_rows_taskId hturns hstored r hr).2.1.trans hsession
    · intro m hm
      obtain ⟨hmem, hown⟩ := List.mem_filter.mp hm
      rw [hthinks'] at hmem
      exact h.queued hqueue (List.mem_cons_of_mem _ hmem) (of_decide_eq_true hown)
    · intro m hm
      obtain ⟨hmem, hown⟩ := List.mem_filter.mp hm
      rw [hevents'] at hmem
      rcases List.mem_append.mp hmem with hmem | hmem
      · exact h.events m (List.mem_filter.mpr ⟨hmem, hown⟩)
      · obtain ⟨batch, hbatch, rfl⟩ := List.mem_map.mp hmem
        obtain ⟨hasks, payload, rfl⟩ := hresponse.published hasked hbatch
        exact ⟨hsession, fun _ => congrArg some (htenant hasks)⟩
  · exact h.retried hregistered hqueue htask hdb (congrArg Prod.fst hretry) hevents'

theorem home_touched {message : StreamMessage ToolEvent} {queue : List (StreamMessage ToolEvent)}
    (h : Home session taskId w) (hregistered : Registered session w')
    (hqueue : w.executionQueue = message :: queue) (htask : message.data.taskId = taskId)
    (ht : Touched env message.data queue w w') : Home session taskId w' := by
  have hmessage : message ∈ taskEvents taskId w := by
    refine List.mem_filter.mpr ⟨?_, decide_eq_true htask⟩
    rw [hqueue]
    exact List.mem_cons_self
  have howned := h.events message hmessage
  obtain ⟨turns, hturns, hdb⟩ := ht.db
  obtain ⟨thinks, hthinks, hcontinue⟩ := ht.taskQueue
  obtain ⟨events, hevents, hsame⟩ := ht.executionQueue
  obtain ⟨rows, hmessages, hstored⟩ := stored_turns h.registered.clean.flushed hdb
  have hturns' : ∀ turn ∈ turns, turn.taskId = taskId := fun turn hturn => (hturns turn hturn).trans htask
  refine ⟨hregistered, h.named, ?_, ?_, ?_, ?_⟩
  · have htasks : w'.db.tasks = w.db.tasks := by
      rw [hdb]
      exact Database.tasks_addTurns _ _ _ _
    rw [htasks]
    exact h.born
  · intro r hr
    rw [rows_stored hturns' hstored hmessages] at hr
    rcases List.mem_append.mp hr with hr | hr
    · exact h.rows r hr
    · exact (mem_rows_taskId hturns' hstored r hr).2.1.trans howned.sessionId
  · intro m hm
    obtain ⟨hmem, hown⟩ := List.mem_filter.mp hm
    rw [hthinks] at hmem
    rcases List.mem_append.mp hmem with hmem | hmem
    · exact h.thinks m (List.mem_filter.mpr ⟨hmem, hown⟩)
    · rw [hcontinue m hmem]
      exact ⟨howned.sessionId, truthyText_eq_some howned.tenantId⟩
  · intro m hm
    obtain ⟨hmem, hown⟩ := List.mem_filter.mp hm
    rw [hevents] at hmem
    rcases List.mem_append.mp hmem with hmem | hmem
    · refine h.events m (List.mem_filter.mpr ⟨?_, hown⟩)
      rw [hqueue]
      exact List.mem_cons_of_mem _ hmem
    · obtain ⟨_, hsession, htenant⟩ := hsame m hmem
      rw [hsession, htenant]
      exact howned

theorem home_decision {req : ApprovalRequest} (h : Home session taskId w) (hg : Grounded w)
    (hd : Decision req w w') : Home session taskId w' := by
  obtain ⟨_, hsessions⟩ := transcript_decision taskId hd
  have hclean := (grounded_decision hg hd).clean
  have hrows : ∀ r ∈ taskRows taskId w', r.sessionId = session.id := by
    intro r hr
    have hmem : r.sessionId ∈ (taskRows taskId w').map MessageModel.sessionId := List.mem_map_of_mem hr
    rw [hsessions] at hmem
    obtain ⟨r', hr', heq⟩ := List.mem_map.mp hmem
    rw [← heq]
    exact h.rows r' hr'
  cases hd with
  | nothing => exact h
  | denied message m hpending =>
    exact ⟨h.registered.of_sessions hclean rfl, h.named, h.born, hrows, h.thinks, h.events⟩
  | approved message m args hpending =>
    refine ⟨h.registered.of_sessions hclean rfl, h.named, h.born, hrows, h.thinks, ?_⟩
    intro event hevent
    obtain ⟨hmem, hown⟩ := List.mem_filter.mp hevent
    rcases List.mem_append.mp hmem with hmem | hmem
    · exact h.events event (List.mem_filter.mpr ⟨hmem, hown⟩)
    · rw [List.mem_singleton.mp hmem] at hown ⊢
      obtain ⟨hrow, hmatches, _⟩ := pendingAt_spec hpending
      have htaskRow : message ∈ taskRows taskId w := List.mem_filter.mpr ⟨hrow, hown⟩
      have hsession := h.rows message htaskRow
      have htenant := h.tenant hg.sound htaskRow
      refine ⟨hmatches.2.1.symm.trans hsession, fun _ => ?_⟩
      show some req.tenantId = some session.tenantId
      rw [← hmatches.2.2, htenant]

/-! ## The conversation -/

/-- The window of the task, when the brain has stored plain turns for it. -/
theorem conversation_items {s : SessionModel} {target : Target} (hg : Grounded w)
    (hfresh : env.nextSequence.Fresh) (hhome : Home session taskId w) (htarget : target.taskId = taskId)
    (hsession : target.sessionId = session.id) (htenant : s.tenantId = session.tenantId)
    (tasks : List TaskModel) {before : List Turn} (hplain : ∀ turn ∈ before, PlainTurn target turn) :
    (conversation env target s ((w.withTasks tasks).db.addTurns env.nextSequence target.sessionId
      before)).map ContextEntry.item =
      .plain :: (transcript taskId w ++ before.map Turn.item).take maxTurns := by
  have hsound : ((w.withTasks tasks).db.addTurns env.nextSequence target.sessionId before).Sound := by
    have hstart : (w.withTasks tasks).db.Sound := hg.sound.congr rfl fun _ => rfl
    exact hstart.addTurns hfresh target.sessionId before
  have hvisible := Database.visible_addTurns (w.withTasks tasks).db env.nextSequence target.sessionId before
  have hbefore : (w.withTasks tasks).db.visible = w.db.messages := by
    show w.db.messages ++ w.db.flushed = _
    rw [hg.clean.flushed, List.append_nil]
  have hscope : ∀ r : MessageModel, (r.taskId = taskId → r.sessionId = session.id ∧
      r.tenantId = session.tenantId) →
      decide (InContext target.sessionId s.tenantId target.taskId r) = decide (r.taskId = taskId) := by
    intro r hr
    rw [decide_eq_decide]
    constructor
    · exact fun h => (h.2.2 (htarget ▸ hhome.named)).trans htarget
    · intro htask
      obtain ⟨hid, hown⟩ := hr htask
      exact ⟨hid.trans hsession.symm, fun _ => hown.trans htenant.symm, fun _ => htask.trans htarget.symm⟩
  have hold : (w.db.messages.filter fun r =>
      decide (InContext target.sessionId s.tenantId target.taskId r)) = taskRows taskId w := by
    refine List.filter_congr fun r hr => hscope r fun htask => ?_
    have hrow : r ∈ taskRows taskId w := List.mem_filter.mpr ⟨hr, decide_eq_true htask⟩
    exact ⟨hhome.rows r hrow, hhome.tenant hg.sound hrow⟩
  have hstored := (w.withTasks tasks).db.newRows_storedAs env.nextSequence target.sessionId before
  have hnew : ((w.withTasks tasks).db.newRows env.nextSequence target.sessionId before).filter
      (fun r => decide (InContext target.sessionId s.tenantId target.taskId r)) =
        (w.withTasks tasks).db.newRows env.nextSequence target.sessionId before := by
    rw [List.filter_eq_self]
    intro r hr
    obtain ⟨htask, hid, hown⟩ := mem_rows_taskId (fun turn h => (hplain turn h).taskId) hstored r hr
    have htenantOf : (w.withTasks tasks).db.tenantOf session.id = session.tenantId := hhome.tenantOf
    rw [hsession] at hid hown
    rw [hscope r fun _ => ⟨hid, hown.trans htenantOf⟩]
    exact decide_eq_true (htask.trans htarget)
  unfold conversation buildLlmContext
  simp only
  rw [contextRows_eq_take hsound, hvisible, hbefore, List.filter_append, hold, hnew, List.map_cons,
    List.map_map]
  congr 1
  show ((taskRows taskId w ++ _).take maxTurns).map MessageModel.item = _
  rw [List.map_take, List.map_append, map_item_stored hstored]
  rfl

end Homes

end KernelRuntime.AgentLoop
