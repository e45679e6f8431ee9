import KernelRuntime.AgentLoop.Producers
import KernelRuntime.AgentLoop.TaskHome

/-! # The iteration limit of a task

The brain counts the events of a task in the row of the task, and ends the task at the 51st. The count is part of the
unit of work of the event: it is kept by every event that is ended, for the row is found by every event that names the
session of the task. -/

namespace KernelRuntime.AgentLoop
open Approval
set_option autoImplicit false

/-! ## Deliveries -/

section Deliveries
variable {env : Env} {run : BrainRun} {w w' : World} {message : StreamMessage ThinkEvent}
variable {queue : List (StreamMessage ThinkEvent)} {session : SessionModel}

/-- A delivery ends the event and keeps the count, or loses it. -/
theorem deliverThink_ended (hw : w.Clean) (hqueue : w.taskQueue = message :: queue)
    (hsession : loadSession w.db message.data.sessionId message.data.tenantId = some session)
    (hstep : deliverThink env.reliable run w = some w') :
    let target : Target := ⟨message.data.taskId, message.data.sessionId, session.tenantId⟩
    ((WithinLimit w.db target → ConfigLoads env session ∧ Undisturbed env session run) ∧
      w'.db.tasks = countedTasks w.db target ∧
      ∃ batches, (¬ WithinLimit w.db target → batches = []) ∧ OneEnd message.data.taskId batches w w') ∨
    (¬ (WithinLimit w.db target → ConfigLoads env session ∧ Undisturbed env session run) ∧ w'.db = w.db) := by
  intro target
  have hstart : ({ w with taskQueue := queue } : World).usable = true := hw.usable
  unfold deliverThink at hstep
  rw [hqueue] at hstep
  simp only at hstep
  obtain ⟨_, w₁, hrun, hcondition, batches, hbeyond, hend⟩ | ⟨e, w₁, hrun, hcondition, hquiet⟩ :=
    (processTaskEvent_ended run hstart hsession).cases
  · rw [hrun] at hstep
    obtain rfl := Option.some.inj hstep
    refine Or.inl ⟨hcondition, ?_, batches, hbeyond, hend.taskLog, hend.published, hend.kind, rfl⟩
    show w₁.committed.tasks = _
    rw [hend.committed]
    exact hend.tasks
  · rw [hrun] at hstep
    obtain rfl := Option.some.inj hstep
    exact Or.inr ⟨hcondition, hquiet.committed.trans hw.committed⟩

theorem map_countedTasks {α : Type} (f : TaskModel → α) (hf : ∀ t n, f { t with iterationCount := n } = f t)
    (db : Database) (target : Target) : (countedTasks db target).map f = db.tasks.map f := by
  unfold countedTasks
  cases findTask db target with
  | none => rfl
  | some task =>
    simp only
    unfold incrementCount
    rw [List.map_map]
    refine List.map_congr_left fun t _ => ?_
    simp only [Function.comp]
    split_ifs
    · exact hf t _
    · rfl

theorem deliverThink_unknown (hw : w.Clean) (hqueue : w.taskQueue = message :: queue)
    (hsession : loadSession w.db message.data.sessionId message.data.tenantId = none)
    (hstep : deliverThink env.reliable run w = some w') : w'.db.tasks = w.db.tasks := by
  have hstart : ({ w with taskQueue := queue } : World).usable = true := hw.usable
  have hends : Ends (processTaskEvent env.reliable message.data run) { w with taskQueue := queue } _
      fun _ _ => False := processTaskEvent_unknown run hstart hsession
  unfold deliverThink at hstep
  rw [hqueue] at hstep
  simp only at hstep
  obtain ⟨_, w₁, hrun, hend⟩ | ⟨_, _, _, hfalse⟩ := hends.cases
  · rw [hrun] at hstep
    obtain rfl := Option.some.inj hstep
    show w₁.committed.tasks = _
    rw [hend.committed, hend.tasks]
  · exact hfalse.elim

/-- The tasks after a delivery: one may be counted, of the task of the event. -/
theorem deliverThink_tasks (hw : w.Clean) (hqueue : w.taskQueue = message :: queue)
    (hstep : deliverThink env.reliable run w = some w') : w'.db.tasks = w.db.tasks ∨
      ∃ target : Target, target.taskId = message.data.taskId ∧ w'.db.tasks = countedTasks w.db target := by
  cases hsession : loadSession w.db message.data.sessionId message.data.tenantId with
  | some session =>
    obtain ⟨_, htasks, _⟩ | ⟨_, hdb⟩ := deliverThink_ended hw hqueue hsession hstep
    · exact Or.inr ⟨_, rfl, htasks⟩
    · exact Or.inl (by rw [hdb])
  | none => exact Or.inl (deliverThink_unknown hw hqueue hsession hstep)

theorem deliverThink_keys (hw : w.Clean) (hqueue : w.taskQueue = message :: queue)
    (hstep : deliverThink env.reliable run w = some w') :
    w'.db.tasks.map taskKey = w.db.tasks.map taskKey := by
  obtain htasks | ⟨target, _, htasks⟩ := deliverThink_tasks hw hqueue hstep
  · rw [htasks]
  · rw [htasks]
    exact map_countedTasks taskKey (fun _ _ => rfl) w.db target

end Deliveries

/-! ## The session of the task -/

/-- A task is named that exists, and if it is this one, then as `own` says of its session and tenant. -/
def Refers (task : String) (tasks : List TaskModel) (taskId : Option String) (own : String → String → Prop) : Prop :=
  (∃ t ∈ tasks, some t.id = taskId) ∧
    ∀ t ∈ tasks, t.id = task → taskId = some task → own t.sessionId t.tenantId

def ForSession (eventSession : String) (eventTenant : Option String) (sessionId tenantId : String) : Prop :=
  eventSession = sessionId ∧ (truthyText eventTenant ≠ none → eventTenant = some tenantId)

/-- Every row and every event of the task leads back to its session, whose tenant is that of the task. A fork has rows
of the task in another session. -/
structure Linked (task : String) (w : World) : Prop where
  clean : w.Clean
  sessionIds : (w.db.sessions.map SessionModel.id).Nodup
  taskIds : (w.db.tasks.map TaskModel.id).Nodup
  homes : ∀ t ∈ w.db.tasks, ∃ s ∈ w.db.sessions, sessionKey s = (t.sessionId, t.tenantId)
  rows : ∀ r ∈ w.db.messages, Refers task w.db.tasks r.taskId fun sessionId tenantId =>
    r.sessionId = sessionId → r.tenantId = tenantId
  thinks : ∀ m ∈ w.taskQueue, Refers task w.db.tasks m.data.taskId (ForSession m.data.sessionId m.data.tenantId)
  events : ∀ m ∈ w.executionQueue, Refers task w.db.tasks m.data.taskId (ForSession m.data.sessionId m.data.tenantId)

section Links
variable {env : Env} {task : String} {w w' : World} {taskId : Option String} {own : String → String → Prop}

theorem exists_key {tasks tasks' : List TaskModel} (hkeys : tasks'.map taskKey = tasks.map taskKey)
    {t' : TaskModel} (ht' : t' ∈ tasks') : ∃ t ∈ tasks, taskKey t = taskKey t' := by
  have hmem := List.mem_map_of_mem (f := taskKey) ht'
  rw [hkeys] at hmem
  exact List.mem_map.mp hmem

theorem Refers.congr {tasks tasks' : List TaskModel} (hkeys : tasks'.map taskKey = tasks.map taskKey)
    (h : Refers task tasks taskId own) : Refers task tasks' taskId own := by
  refine ⟨?_, fun t' ht' hid htask => ?_⟩
  · obtain ⟨t, ht, hid⟩ := h.1
    obtain ⟨t', ht', hkey⟩ := exists_key hkeys.symm ht
    exact ⟨t', ht', (congrArg (fun k => some k.1) hkey).trans hid⟩
  · obtain ⟨t, ht, hkey⟩ := exists_key hkeys ht'
    obtain ⟨hidEq, hrest⟩ := Prod.mk.inj hkey
    obtain ⟨hsession, htenant⟩ := Prod.mk.inj hrest
    rw [← hsession, ← htenant]
    exact h.2 t ht (hidEq.trans hid) htask

theorem Refers.append {tasks : List TaskModel} {t : TaskModel} (hfresh : ∀ t' ∈ tasks, t'.id ≠ t.id)
    (h : Refers task tasks taskId own) : Refers task (tasks ++ [t]) taskId own := by
  obtain ⟨⟨t₀, ht₀, hid₀⟩, hown⟩ := h
  refine ⟨⟨t₀, List.mem_append_left _ ht₀, hid₀⟩, fun t' ht' hid htask => ?_⟩
  rcases List.mem_append.mp ht' with ht' | ht'
  · exact hown t' ht' hid htask
  · rw [List.mem_singleton.mp ht'] at hid
    have hsame : t₀.id = t.id := (Option.some.inj (hid₀.trans htask)).trans hid.symm
    exact absurd hsame (hfresh t₀ ht₀)

theorem Linked.tenantOf (h : Linked task w) {t : TaskModel} (ht : t ∈ w.db.tasks) :
    w.db.tenantOf t.sessionId = t.tenantId := by
  obtain ⟨s, hs, hkey⟩ := h.homes t ht
  obtain ⟨hid, htenant⟩ := Prod.mk.inj hkey
  rw [← hid, ← htenant]
  exact Database.tenantOf_of_mem h.sessionIds hs

theorem Linked.loads (h : Linked task w) {t : TaskModel} (ht : t ∈ w.db.tasks) {sessionId : String}
    {tenantId : Option String} (hof : ForSession sessionId tenantId t.sessionId t.tenantId) :
    ∃ s, loadSession w.db sessionId tenantId = some s ∧ s.tenantId = t.tenantId := by
  obtain ⟨s, hs, hkey⟩ := h.homes t ht
  obtain ⟨hid, htenant⟩ := Prod.mk.inj hkey
  rw [hof.1, ← hid]
  refine ⟨s, loadSession_of_mem h.sessionIds hs fun hne => ?_, htenant⟩
  rw [hof.2 hne, htenant]

/-- The rows that a handler stores for a task. -/
theorem Linked.stored (h : Linked task w) {sessionId : String} {turns : List Turn} {rows : List MessageModel}
    (hborn : ∃ t ∈ w.db.tasks, some t.id = taskId) (hturns : ∀ turn ∈ turns, turn.taskId = taskId)
    (hstored : List.Forall₂ (fun turn => Turn.StoredAs turn sessionId (w.db.tenantOf sessionId)) turns rows) :
    ∀ r ∈ rows, Refers task w.db.tasks r.taskId fun sessionId tenantId =>
      r.sessionId = sessionId → r.tenantId = tenantId := by
  intro r hr
  obtain ⟨htask, hsession, htenant⟩ := mem_rows_taskId hturns hstored r hr
  rw [htask, hsession, htenant]
  refine ⟨hborn, fun t ht _ _ hsame => ?_⟩
  rw [hsame]
  exact h.tenantOf ht

theorem Linked.update (h : Linked task w) (hclean : w'.Clean) (hsessions : w'.db.sessions = w.db.sessions)
    (hkeys : w'.db.tasks.map taskKey = w.db.tasks.map taskKey)
    (hrows : ∀ r ∈ w'.db.messages, Refers task w.db.tasks r.taskId fun sessionId tenantId =>
      r.sessionId = sessionId → r.tenantId = tenantId)
    (hthinks : ∀ m ∈ w'.taskQueue,
      Refers task w.db.tasks m.data.taskId (ForSession m.data.sessionId m.data.tenantId))
    (hevents : ∀ m ∈ w'.executionQueue,
      Refers task w.db.tasks m.data.taskId (ForSession m.data.sessionId m.data.tenantId)) : Linked task w' := by
  refine ⟨hclean, hsessions ▸ h.sessionIds, ?_, ?_, fun r hr => (hrows r hr).congr hkeys,
    fun m hm => (hthinks m hm).congr hkeys, fun m hm => (hevents m hm).congr hkeys⟩
  · have hids := h.taskIds
    have hmap : ∀ tasks : List TaskModel, tasks.map TaskModel.id = (tasks.map taskKey).map Prod.fst := by
      intro tasks
      rw [List.map_map]
      rfl
    rw [hmap] at hids ⊢
    rwa [hkeys]
  · intro t' ht'
    obtain ⟨t, ht, hkey⟩ := exists_key hkeys ht'
    rw [hsessions, ← (Prod.mk.inj hkey).2]
    exact h.homes t ht

/-! ## What the steps keep of it -/

theorem linked_opened {t : TaskModel} (h : Linked task w) (ho : Opened t w w') : Linked task w' := by
  obtain ⟨message, hqueue, hnames⟩ := ho.taskQueue
  have hsessionIds : w'.db.sessions.map SessionModel.id = w.db.sessions.map SessionModel.id := by
    have hids := congrArg (List.map Prod.fst) ho.sessions
    rw [List.map_map, List.map_map] at hids
    exact hids
  have hhome : ∀ {k}, (∃ s ∈ w.db.sessions, sessionKey s = k) → ∃ s ∈ w'.db.sessions, sessionKey s = k := by
    intro k hs
    rw [← List.mem_map, ho.sessions]
    exact List.mem_map.mpr hs
  refine ⟨ho.clean h.clean, hsessionIds ▸ h.sessionIds, ?_, fun t' ht' => ?_, fun r hr => ?_, fun m hm => ?_,
    fun m hm => ?_⟩
  · rw [ho.tasks, List.map_append, List.nodup_append]
    refine ⟨h.taskIds, List.nodup_singleton _, fun id hid id' hid' => ?_⟩
    obtain ⟨t', ht', rfl⟩ := List.mem_map.mp hid
    rw [List.mem_singleton.mp hid']
    exact ho.fresh t' ht'
  · rw [ho.tasks] at ht'
    rcases List.mem_append.mp ht' with ht' | ht'
    · exact hhome (h.homes t' ht')
    · rw [List.mem_singleton.mp ht']
      exact hhome ho.home
  · rw [ho.messages] at hr
    rw [ho.tasks]
    exact (h.rows r hr).append ho.fresh
  · rw [hqueue] at hm
    rw [ho.tasks]
    rcases List.mem_append.mp hm with hm | hm
    · exact (h.thinks m hm).append ho.fresh
    · rw [List.mem_singleton.mp hm]
      refine ⟨⟨t, List.mem_append_right _ (List.mem_singleton_self t), hnames.1⟩, fun t' ht' hid htask => ?_⟩
      rcases List.mem_append.mp ht' with ht' | ht'
      · have hsame : t'.id = t.id := hid.trans (Option.some.inj (hnames.1.trans htask)).symm
        exact absurd hsame (ho.fresh t' ht')
      · rw [List.mem_singleton.mp ht']
        exact ⟨hnames.2.1.symm, hnames.2.2⟩
  · rw [ho.executionQueue] at hm
    rw [ho.tasks]
    exact (h.events m hm).append ho.fresh

theorem linked_forked {session : SessionModel} (h : Linked task w) (hf : Forked session w w') :
    Linked task w' := by
  obtain ⟨rows, hmessages, hcopies⟩ := hf.messages
  refine ⟨hf.clean h.clean, ?_, hf.tasks ▸ h.taskIds, fun t ht => ?_, fun r hr => ?_, fun m hm => ?_,
    fun m hm => ?_⟩
  · rw [hf.sessions, List.map_append, List.nodup_append]
    refine ⟨h.sessionIds, List.nodup_singleton _, fun id hid id' hid' => ?_⟩
    obtain ⟨s, hs, rfl⟩ := List.mem_map.mp hid
    rw [List.mem_singleton.mp hid']
    exact hf.fresh s hs
  · rw [hf.tasks] at ht
    obtain ⟨s, hs, hkey⟩ := h.homes t ht
    rw [hf.sessions]
    exact ⟨s, List.mem_append_left _ hs, hkey⟩
  · rw [hmessages] at hr
    rw [hf.tasks]
    rcases List.mem_append.mp hr with hr | hr
    · exact h.rows r hr
    · obtain ⟨hsession, r', hr', htask⟩ := hcopies r hr
      refine ⟨htask ▸ (h.rows r' hr').1, fun t ht _ _ hsame => ?_⟩
      obtain ⟨s, hs, hkey⟩ := h.homes t ht
      have hid : s.id = session.id := (Prod.mk.inj hkey).1.trans (hsame.symm.trans hsession)
      exact absurd hid (hf.fresh s hs)
  · rw [hf.taskQueue] at hm
    rw [hf.tasks]
    exact h.thinks m hm
  · rw [hf.executionQueue] at hm
    rw [hf.tasks]
    exact h.events m hm

theorem linked_trigger {event : ThinkEvent} (h : Linked task w) (hstep : trigger event w = some w') :
    Linked task w' := by
  unfold trigger at hstep
  split_ifs at hstep with hnamed
  obtain rfl := Option.some.inj hstep
  obtain ⟨t, ht, hmatch⟩ := List.any_eq_true.mp hnamed
  have hnames := of_decide_eq_true hmatch
  refine h.update ⟨h.clean.usable, h.clean.committed, h.clean.flushed⟩ rfl rfl h.rows (fun m hm => ?_) h.events
  rcases List.mem_append.mp hm with hm | hm
  · exact h.thinks m hm
  · rw [List.mem_singleton.mp hm]
    refine ⟨⟨t, ht, hnames.1⟩, fun t' ht' hid htask => ?_⟩
    have hsame : t'.id = t.id := hid.trans (Option.some.inj (hnames.1.trans htask)).symm
    obtain rfl := List.inj_on_of_nodup_map h.taskIds ht' ht hsame
    exact ⟨hnames.2.1.symm, hnames.2.2⟩

theorem linked_touched {message : StreamMessage ToolEvent} {queue : List (StreamMessage ToolEvent)}
    (h : Linked task w) (hqueue : w.executionQueue = message :: queue) (ht : Touched env message.data queue w w') :
    Linked task w' := by
  obtain ⟨turns, hturns, hdb⟩ := ht.db
  obtain ⟨thinks, hthinks, hcontinue⟩ := ht.taskQueue
  obtain ⟨events, hevents, hsame⟩ := ht.executionQueue
  obtain ⟨rows, hmessages, hstored⟩ := stored_turns h.clean.flushed hdb
  have hmessage := h.events message (hqueue ▸ List.mem_cons_self)
  have htasks : w'.db.tasks = w.db.tasks := by
    rw [hdb]
    exact Database.tasks_addTurns _ _ _ _
  refine h.update ht.clean ?_ (by rw [htasks]) (fun r hr => ?_) (fun m hm => ?_) fun m hm => ?_
  · rw [hdb, Database.sessions_commit_addTurns]
  · rw [hmessages] at hr
    rcases List.mem_append.mp hr with hr | hr
    · exact h.rows r hr
    · exact h.stored hmessage.1 hturns hstored r hr
  · rw [hthinks] at hm
    rcases List.mem_append.mp hm with hm | hm
    · exact h.thinks m hm
    · rw [hcontinue m hm]
      refine ⟨hmessage.1, fun t ht hid htask => ?_⟩
      obtain ⟨hsession, htenant⟩ := hmessage.2 t ht hid htask
      exact ⟨hsession, truthyText_eq_some htenant⟩
  · rw [hevents] at hm
    rcases List.mem_append.mp hm with hm | hm
    · exact h.events m (hqueue ▸ List.mem_cons_of_mem _ hm)
    · obtain ⟨htask, hsession, htenant⟩ := hsame m hm
      rw [htask, hsession, htenant]
      exact hmessage

theorem linked_decision {req : ApprovalRequest} (h : Linked task w) (hd : Decision req w w')
    (hown : ∀ message m t, PendingAt w req message m → req.decision ≠ "denied" →
      t ∈ w.db.tasks → t.id = task → message.taskId = some task → message.sessionId = t.sessionId) :
    Linked task w' := by
  have hrows : ∀ metadata, ∀ r ∈ (decideRow w.db req metadata).messages,
      Refers task w.db.tasks r.taskId fun sessionId tenantId => r.sessionId = sessionId → r.tenantId = tenantId := by
    intro metadata r hr
    have hkeys := map_decideRow (fun r => (r.taskId, r.sessionId, r.tenantId)) (fun _ _ => rfl) w.db req metadata
    have hmem := List.mem_map_of_mem (f := fun r : MessageModel => (r.taskId, r.sessionId, r.tenantId)) hr
    rw [hkeys] at hmem
    obtain ⟨r', hr', hkey⟩ := List.mem_map.mp hmem
    obtain ⟨htask, hrest⟩ := Prod.mk.inj hkey
    obtain ⟨hsession, htenant⟩ := Prod.mk.inj hrest
    rw [← htask, ← hsession, ← htenant]
    exact h.rows r' hr'
  cases hd with
  | nothing => exact h
  | denied message m hpending hdecision =>
    exact h.update ⟨h.clean.usable, rfl, h.clean.flushed⟩ rfl rfl (hrows _) h.thinks h.events
  | approved message m args hpending hdecision =>
    refine h.update ⟨h.clean.usable, rfl, h.clean.flushed⟩ rfl rfl (hrows _) h.thinks fun event hevent => ?_
    rcases List.mem_append.mp hevent with hevent | hevent
    · exact h.events event hevent
    · rw [List.mem_singleton.mp hevent]
      obtain ⟨hrow, hmatches, _⟩ := pendingAt_spec hpending
      refine ⟨(h.rows message hrow).1, fun t ht hid htask => ?_⟩
      have hsession := hown message m t hpending hdecision ht hid htask
      have htenant := (h.rows message hrow).2 t ht hid htask hsession
      exact ⟨hmatches.2.1.symm.trans hsession, fun _ => congrArg some (hmatches.2.2.symm.trans htenant)⟩

theorem linked_thought {message : StreamMessage ThinkEvent} {queue : List (StreamMessage ThinkEvent)}
    {target : Target} {s : SessionModel} {asks : Prop} {reply : ProviderReply} (h : Linked task w)
    (hqueue : w.taskQueue = message :: queue) (htarget : target.taskId = message.data.taskId)
    (hsession : target.sessionId = message.data.sessionId)
    (ht : Thought env target s asks reply message queue w w')
    (hasks : asks → loadSession w.db message.data.sessionId message.data.tenantId = some s ∧
      target.tenantId = s.tenantId) (hkeys : w'.db.tasks.map taskKey = w.db.tasks.map taskKey) :
    Linked task w' := by
  have hmessage := h.thinks message (hqueue ▸ List.mem_cons_self)
  have hqueued : ∀ m ∈ queue, Refers task w.db.tasks m.data.taskId (ForSession m.data.sessionId m.data.tenantId) :=
    fun m hm => h.thinks m (hqueue ▸ List.mem_cons_of_mem _ hm)
  rcases ht.outcome with ⟨tasks, before, turns, batches, calls, _, hplain, _, hresponse, hasked, hdb, hthinks,
    hevents, _⟩ | ⟨tasks, before, calls, _, _, hdb, hretry, hevents, _⟩
  · have hflushed : (w.withTasks tasks).db.flushed = [] := h.clean.flushed
    obtain ⟨rows, hmessages, hstored⟩ := stored_turns hflushed hdb
    change w'.db.messages = w.db.messages ++ rows at hmessages
    refine h.update ht.clean ?_ hkeys (fun r hr => ?_) (fun m hm => hqueued m (hthinks ▸ hm)) fun m hm => ?_
    · rw [hdb, Database.sessions_commit_addTurns]
      rfl
    · rw [hmessages] at hr
      rcases List.mem_append.mp hr with hr | hr
      · exact h.rows r hr
      · refine h.stored hmessage.1 (fun turn hturn => ?_) hstored r hr
        exact (hresponse.turns_of_task hplain turn hturn).1.trans htarget
    · rw [hevents] at hm
      rcases List.mem_append.mp hm with hm | hm
      · exact h.events m hm
      · obtain ⟨batch, hbatch, rfl⟩ := List.mem_map.mp hm
        obtain ⟨ha, payload, rfl⟩ := hresponse.published hasked hbatch
        obtain ⟨hload, htenant⟩ := hasks ha
        show Refers task w.db.tasks target.taskId (ForSession target.sessionId (some target.tenantId))
        rw [htarget]
        refine ⟨hmessage.1, fun t ht hid htask => ?_⟩
        obtain ⟨s', hload', htenant'⟩ := h.loads ht (hmessage.2 t ht hid htask)
        obtain rfl := Option.some.inj (hload.symm.trans hload')
        exact ⟨hsession.trans (hmessage.2 t ht hid htask).1, fun _ => congrArg some (htenant.trans htenant')⟩
  · refine h.update ht.clean (by rw [hdb]) hkeys (fun r hr => h.rows r (hdb ▸ hr)) (fun m hm => ?_) fun m hm => ?_
    · have hretried : w'.taskQueue = (retry message queue w.deadThinks).1 := congrArg Prod.fst hretry
      rw [hretried] at hm
      rcases mem_retry hm with hm | hdata
      · exact hqueued m hm
      · rw [hdata]
        exact hmessage
    · exact h.events m (hevents ▸ hm)

end Links

/-! ## The count -/

def providerCalls (task : String) (w : World) : ℕ := w.llmCalls.countP fun c => decide (c.taskId = some task)

/-- The step delivers an event of the task to the brain. -/
def thinks (task : String) (w : World) : LoopLabel → Bool
  | .loop (.think _) => w.taskQueue.head?.any fun m => decide (m.data.taskId = some task)
  | _ => false

/-- The deliveries of the task in a run. -/
def iterations (env : Env) (task : String) : World → List LoopLabel → ℕ :=
  tally (loopStep env) fun w i => (thinks task w i).toNat

/-- No delivery of the task is interrupted within the limit, and no call of the task is approved in a fork. -/
def Calm (env : Env) (task : String) (w : World) : LoopLabel → Prop
  | .loop (.think run) => ∀ message queue session, w.taskQueue = message :: queue →
      message.data.taskId = some task →
      loadSession w.db message.data.sessionId message.data.tenantId = some session →
      WithinLimit w.db ⟨message.data.taskId, message.data.sessionId, session.tenantId⟩ →
      ConfigLoads env session ∧ Undisturbed env session run
  | .loop (.approve req) => ∀ message m t, PendingAt w req message m → req.decision ≠ "denied" →
      t ∈ w.db.tasks → t.id = task → message.taskId = some task → message.sessionId = t.sessionId
  | _ => True

/-- The row of the task holds the number of its deliveries, and only the first fifty may reach the provider. -/
structure Limited (task : String) (n : ℕ) (w : World) : Prop extends Linked task w where
  count : ∀ t ∈ w.db.tasks, t.id = task → t.iterationCount = n
  unborn : (∀ t ∈ w.db.tasks, t.id ≠ task) → n = 0
  calls : providerCalls task w ≤ min n 50

section Counts
variable {env : Env} {task : String} {n : ℕ} {w w' : World}

theorem Limited.unchanged (h : Limited task n w) (hlinked : Linked task w') (htasks : w'.db.tasks = w.db.tasks)
    (hcalls : w'.llmCalls = w.llmCalls) : Limited task n w' := by
  refine ⟨hlinked, htasks ▸ h.count, htasks ▸ h.unborn, ?_⟩
  unfold providerCalls
  rw [hcalls]
  exact h.calls

theorem limited_opened {t : TaskModel} (h : Limited task n w) (ho : Opened t w w') : Limited task n w' := by
  refine ⟨linked_opened h.toLinked ho, fun t' ht' hid => ?_, fun hnone => h.unborn fun t' ht' => ?_, ?_⟩
  · rw [ho.tasks] at ht'
    rcases List.mem_append.mp ht' with ht' | ht'
    · exact h.count t' ht' hid
    · rw [List.mem_singleton.mp ht'] at hid ⊢
      rw [ho.uncounted]
      exact (h.unborn fun t' ht' => hid ▸ ho.fresh t' ht').symm
  · rw [ho.tasks] at hnone
    exact hnone t' (List.mem_append_left _ ht')
  · unfold providerCalls
    rw [ho.llmCalls]
    exact h.calls

variable {message : StreamMessage ThinkEvent} {queue : List (StreamMessage ThinkEvent)} {run : BrainRun}

theorem Linked.finds (h : Linked task w) (hqueue : w.taskQueue = message :: queue)
    (htask : message.data.taskId = some task) : ∃ session t,
      loadSession w.db message.data.sessionId message.data.tenantId = some session ∧
      t ∈ w.db.tasks ∧ t.id = task ∧
      findTask w.db ⟨message.data.taskId, message.data.sessionId, session.tenantId⟩ = some t := by
  obtain ⟨⟨t, ht, hid⟩, hown⟩ := h.thinks message (hqueue ▸ List.mem_cons_self)
  have hid' : t.id = task := Option.some.inj (hid.trans htask)
  have hsession := hown t ht hid' htask
  obtain ⟨session, hload, htenant⟩ := h.loads ht hsession
  refine ⟨session, t, hload, ht, hid', ?_⟩
  refine find?_of_nodup_map TaskModel.id h.taskIds ht ?_ fun t' hp => ?_
  · exact decide_eq_true ⟨hid, hsession.1.symm, fun _ => htenant.symm⟩
  · exact Option.some.inj ((of_decide_eq_true hp).1.trans hid.symm)

theorem Limited.delivered (h : Limited task n w) (hqueue : w.taskQueue = message :: queue)
    (htask : message.data.taskId = some task) (hok : Calm env task w (.loop (.think run)))
    (hstep : deliverThink env.reliable run w = some w') : ∃ t ∈ w.db.tasks, t.id = task ∧
      w'.db.tasks = incrementCount t w.db.tasks ∧
      ∃ batches, (50 ≤ n → batches = []) ∧ OneEnd (some task) batches w w' := by
  obtain ⟨session, t, hload, ht, hid, hfind⟩ := h.toLinked.finds hqueue htask
  obtain ⟨_, htasks, batches, hbeyond, hend⟩ | ⟨hbroken, _⟩ :=
    deliverThink_ended h.clean hqueue hload hstep
  · unfold countedTasks at htasks
    rw [hfind] at htasks
    refine ⟨t, ht, hid, htasks, batches, fun hn => hbeyond fun hwithin => ?_, htask ▸ hend⟩
    have hcount := hwithin t hfind
    rw [h.count t ht hid] at hcount
    omega
  · exact absurd (hok message queue session hqueue htask hload) hbroken

theorem count_incrementCount {t : TaskModel} {tasks : List TaskModel} (hid : t.id = task)
    (hcount : ∀ t ∈ tasks, t.id = task → t.iterationCount = n) :
    ∀ t' ∈ incrementCount t tasks, t'.id = task → t'.iterationCount = n + 1 := by
  intro t' ht' hid'
  obtain ⟨t₀, ht₀, rfl⟩ := List.mem_map.mp ht'
  by_cases hsame : t₀.id = t.id
  · rw [if_pos hsame]
    exact congrArg (· + 1) (hcount t₀ ht₀ (hsame.trans hid))
  · rw [if_neg hsame] at hid'
    exact absurd (hid'.trans hid.symm) hsame

theorem mem_countedTasks {db : Database} {target : Target} {t : TaskModel} (ht : t ∈ countedTasks db target)
    (hother : some t.id ≠ target.taskId) : t ∈ db.tasks := by
  unfold countedTasks at ht
  cases hfind : findTask db target with
  | none =>
    rw [hfind] at ht
    exact ht
  | some found =>
    rw [hfind] at ht
    obtain ⟨t₀, ht₀, rfl⟩ := List.mem_map.mp ht
    have hmatch := List.find?_some hfind
    by_cases hsame : t₀.id = found.id
    · rw [if_pos hsame] at hother
      exact absurd ((congrArg some hsame).trans (of_decide_eq_true hmatch).1) hother
    · rwa [if_neg hsame]

/-- The provider is called at most once for an event, for its own task, and only if the brain comes to ask it. -/
theorem Thought.providerCalls_cases (task : String) {target : Target} {s : SessionModel} {asks : Prop}
    {reply : ProviderReply} (h : Thought env target s asks reply message queue w w') :
    providerCalls task w' = providerCalls task w ∨
      asks ∧ target.taskId = some task ∧ providerCalls task w' = providerCalls task w + 1 := by
  obtain ⟨_, _, calls, _, hasked, hcalls⟩ := h.asked
  unfold providerCalls
  rw [hcalls, List.countP_append]
  rcases hasked with rfl | ⟨ha, rfl⟩
  · exact Or.inl rfl
  · rw [List.countP_singleton]
    by_cases htask : target.taskId = some task
    · rw [if_pos (decide_eq_true htask)]
      exact Or.inr ⟨ha, htask, rfl⟩
    · rw [if_neg (by simpa using htask)]
      exact Or.inl rfl

theorem limited_think (h : Limited task n w) (hok : Calm env task w (.loop (.think run)))
    (hstep : deliverThink env.reliable run w = some w') :
    Limited task (n + (thinks task w (.loop (.think run))).toNat) w' := by
  obtain ⟨message, queue, target, s, asks, hqueue, htarget, hsession, ht, hasks⟩ :=
    deliverThink_inv h.clean hstep
  have hkeys := deliverThink_keys h.clean hqueue hstep
  have hlinked := linked_thought h.toLinked hqueue htarget hsession ht
    (fun ha => ⟨(hasks ha).1, (hasks ha).2.1⟩) hkeys
  have hbefore := h.calls
  have hthinks : thinks task w (.loop (.think run)) = decide (message.data.taskId = some task) := by
    unfold thinks
    rw [hqueue]
    rfl
  rw [hthinks]
  by_cases htask : message.data.taskId = some task
  · rw [decide_eq_true htask]
    obtain ⟨t, htmem, hid, htasks, _⟩ := h.delivered hqueue htask hok hstep
    refine ⟨hlinked, ?_, fun hnone => ?_, ?_⟩
    · rw [htasks]
      exact count_incrementCount hid h.count
    · obtain ⟨t', ht', hkey⟩ := exists_key hkeys.symm htmem
      exact absurd ((Prod.mk.inj hkey).1.trans hid) (hnone t' ht')
    · show providerCalls task w' ≤ min (n + 1) 50
      obtain hcount | ⟨ha, _, hcount⟩ := ht.providerCalls_cases task
      · omega
      · -- the provider is asked within the limit only
        obtain ⟨session, t, hload, htmem, hid, hfind⟩ := h.toLinked.finds hqueue htask
        obtain ⟨hload', htenant, hwithin, _⟩ := hasks ha
        obtain rfl := Option.some.inj (hload'.symm.trans hload)
        have htargetEq : target = ⟨message.data.taskId, message.data.sessionId, s.tenantId⟩ := by
          rw [← htarget, ← hsession, ← htenant]
        have hlimit := hwithin t (htargetEq ▸ hfind)
        rw [h.count t htmem hid] at hlimit
        omega
  · rw [decide_eq_false htask]
    refine ⟨hlinked, fun t' ht' hid => ?_, fun hnone => h.unborn fun t ht hid => ?_, ?_⟩
    · obtain htasks | ⟨target', htarget', htasks⟩ := deliverThink_tasks h.clean hqueue hstep
      · exact h.count t' (htasks ▸ ht') hid
      · rw [htasks] at ht'
        refine h.count t' (mem_countedTasks ht' fun hsame => ?_) hid
        exact htask (htarget'.symm.trans (hsame.symm.trans (congrArg some hid)))
    · obtain ⟨t', ht', hkey⟩ := exists_key hkeys.symm ht
      exact hnone t' ht' ((Prod.mk.inj hkey).1.trans hid)
    · obtain hcount | ⟨_, hsame, _⟩ := ht.providerCalls_cases task
      · rw [hcount]
        exact hbefore
      · exact absurd (htarget.symm.trans hsame) htask

theorem thinks_eq_true {i : LoopLabel} (h : thinks task w i = true) : ∃ run, i = .loop (.think run) ∧
    ∃ message queue, w.taskQueue = message :: queue ∧ message.data.taskId = some task := by
  unfold thinks at h
  split at h
  · obtain ⟨message, hhead, htask⟩ := (Option.any_eq_true _ _).mp h
    obtain ⟨queue, hqueue⟩ := List.head?_eq_some_iff.mp hhead
    exact ⟨_, rfl, message, queue, hqueue, of_decide_eq_true htask⟩
  · cases h

theorem limited_step (h : Limited task n w) {i : LoopLabel} (hok : Calm env task w i)
    (hstep : loopStep env.reliable w i = some w') : Limited task (n + (thinks task w i).toNat) w' := by
  cases i with
  | loop i =>
    cases i with
    | chat tenantId id req =>
      obtain rfl | ⟨t, ho⟩ := sendChatMessage_opened hstep
      · exact h
      · exact limited_opened h ho
    | think run => exact limited_think h hok hstep
    | executeTools =>
      obtain ⟨message, queue, hqueue, ht⟩ := deliverTools_inv h.clean hstep
      obtain ⟨turns, _, hdb⟩ := ht.db
      have htasks : w'.db.tasks = w.db.tasks := by
        rw [hdb]
        exact Database.tasks_addTurns _ _ _ _
      exact h.unchanged (linked_touched h.toLinked hqueue ht) htasks ht.llmCalls
    | approve req =>
      obtain rfl := Option.some.inj hstep
      have hd := approveToolCall_decision req w
      generalize approveToolCall req w = w' at hd
      refine h.unchanged (linked_decision h.toLinked hd hok) ?_ ?_
      · cases hd <;> rfl
      · cases hd <;> rfl
  | dispatch tenantId id sessionId description =>
    obtain rfl | ⟨t, ho⟩ := dispatchTask_opened hstep
    · exact h
    · exact limited_opened h ho
  | trigger event =>
    have hlinked := linked_trigger h.toLinked hstep
    unfold loopStep trigger at hstep
    simp only at hstep
    split_ifs at hstep
    obtain rfl := Option.some.inj hstep
    exact h.unchanged hlinked rfl rfl
  | fork tenantId sessionId newId slug messageId =>
    obtain rfl | ⟨session, hf⟩ := forkSession_forked hstep
    · exact h
    · exact h.unchanged (linked_forked h.toLinked hf) hf.tasks hf.llmCalls

theorem limited_start (task : String) {sessions : List SessionModel}
    (hids : (sessions.map SessionModel.id).Nodup) : Limited task 0 (World.start sessions) :=
  ⟨⟨World.start_clean sessions, hids, List.nodup_nil, nofun, nofun, nofun, nofun⟩, nofun, fun _ => rfl, le_rfl⟩

end Counts

/-! ## Runs -/

/-- In every step of the run the provider is not called more than fifty times for the task, and after fifty deliveries
of the task every other one ends with `TASK_RESOLVED` and publishes no batch. -/
def WithinIterations (env : Env) (task : String) (w : World) (is : List LoopLabel) : Prop :=
  ∀ js i ks t t', is = js ++ i :: ks → exec (loopStep env) w js = some t → loopStep env t i = some t' →
    providerCalls task t' ≤ 50 ∧
      (thinks task t i = true → 50 ≤ iterations env task w js → OneEnd (some task) [] t t')

/-- **In a calm run the iteration limit holds.** -/
theorem withinIterations_of_calm (env : Env) (sessions : List SessionModel)
    (hids : (sessions.map SessionModel.id).Nodup) (task : String) (is : List LoopLabel)
    (hcalm : Guarded (loopStep env.reliable) (Calm env task) (World.start sessions) is) :
    WithinIterations env.reliable task (World.start sessions) is := by
  intro js i ks t t' his hrun hstep
  rw [his, List.append_cons] at hcalm
  have hkeep : ∀ n s i s', Limited task n s → Calm env task s i → loopStep env.reliable s i = some s' →
      Limited task (n + (thinks task s i).toNat) s' := fun _ _ _ _ h hok hstep => limited_step h hok hstep
  have hlimited : Limited task (0 + iterations env.reliable task (World.start sessions) js) t :=
    exec_tally hkeep (limited_start task hids) hcalm.of_append.of_append hrun
  have hok : Calm env task t i := hcalm.of_append.last hrun
  rw [Nat.zero_add] at hlimited
  have hcalls := (limited_step hlimited hok hstep).calls
  refine ⟨by omega, fun hthinks hbeyond => ?_⟩
  obtain ⟨run, rfl, message, queue, hqueue, htask⟩ := thinks_eq_true hthinks
  obtain ⟨_, _, _, _, batches, hbatches, hend⟩ := hlimited.delivered hqueue htask hok hstep
  rwa [hbatches hbeyond] at hend

def chatRequest : LoopLabel := .loop (.chat "acme" "t1" ⟨"s1", "list the files", false, none⟩)

theorem withinIterations_chat : WithinIterations localEnv.reliable "t1" (World.start [localSession "auto"])
    [chatRequest, .loop (.think ⟨none, .ok none, answered⟩)] := by
  refine withinIterations_of_calm localEnv [localSession "auto"] (by decide) "t1" _
    ⟨True.intro, fun w₁ h₁ => ⟨?_, fun _ _ => True.intro⟩⟩
  obtain rfl := Option.some.inj h₁
  intro message queue session hqueue htask hload _
  cases hqueue
  cases hload
  refine ⟨⟨_, rfl⟩, rfl, nofun, fun config hconfig _ _ _ _ => ?_⟩
  cases hconfig
  exact ⟨_, rfl⟩

/-! ## Runs beyond the limit -/

def askingFor (name arguments : String) : LoopLabel :=
  .loop (.think ⟨none, .ok none,
    .stream [some ⟨none, none, [⟨0, some "call_1", some "function", some name, some arguments⟩]⟩] none⟩)

def askingFile : LoopLabel := askingFor "read_file" "\x7b\"filepath\": \"a.txt\"\x7d"

/-- A call is approved in a fork of the session, and its task goes on there: the row of the task is not found. -/
def forkedRun : List LoopLabel :=
  [chatRequest, askingFor "bash_execute" "\x7b\"command\": \"ls\"\x7d", .loop .executeTools,
    .fork "acme" "s1" "s2" "workspace-1" 2, .loop (.approve ⟨"s2", 5, "approved", "acme"⟩), .loop .executeTools] ++
  (List.replicate 49 [askingFile, .loop .executeTools]).flatten

/-- The store of the code snippets cannot be opened. -/
def unopenedStore : LoopLabel :=
  .loop (.think ⟨some ⟨.other, "unable to open database file"⟩, .ok none, answered⟩)

def interruptedRun : List LoopLabel :=
  chatRequest :: (List.replicate 50 (.trigger firstThink) ++ List.replicate 50 unopenedStore)

theorem iteration_limit_exceeded :
    ¬ WithinIterations localEnv.reliable "t1" (World.start [localSession "strict"]) (forkedRun ++ [askingFile]) ∧
    ¬ WithinIterations localEnv.reliable "t1" (World.start [localSession "auto"])
      (interruptedRun ++ [unopenedStore]) := by
  refine ⟨fun h => ?_, fun h => ?_⟩
  · have hcalls : (exec (loopStep localEnv.reliable) (World.start [localSession "strict"])
        (forkedRun ++ [askingFile])).map (providerCalls "t1") = some 51 := by decide +kernel
    obtain ⟨t', hrun, hcount⟩ := Option.map_eq_some_iff.mp hcalls
    obtain ⟨t, hbefore, hstep⟩ := (exec_concat_eq_some _).mp hrun
    have hle := (h forkedRun askingFile [] t t' rfl hbefore hstep).1
    omega
  · have hlog : (exec (loopStep localEnv.reliable) (World.start [localSession "auto"]) interruptedRun).map (fun t =>
        (thinks "t1" t unopenedStore, (loopStep localEnv.reliable t unopenedStore).map fun t' =>
          t'.taskLog.all fun e => decide (e.2 ≠ .taskResolved))) = some (true, some true) := by decide +kernel
    have hdelivered : iterations localEnv.reliable "t1" (World.start [localSession "auto"]) interruptedRun = 50 := by
      decide +kernel
    obtain ⟨t, hrun, hpair⟩ := Option.map_eq_some_iff.mp hlog
    obtain ⟨hthinks, hnone⟩ := Prod.mk.inj hpair
    obtain ⟨t', hstep, hall⟩ := Option.map_eq_some_iff.mp hnone
    have hend := (h interruptedRun unopenedStore [] t t' rfl hrun hstep).2 hthinks hdelivered.ge
    obtain ⟨es, hes, hone⟩ := hend.taskLog
    have hmem : LogEvent.taskResolved ∈ es := List.count_pos_iff.mp (by rw [List.length_nil] at hone; omega)
    have hlast : (some "t1", LogEvent.taskResolved) ∈ t'.taskLog := by
      rw [hes]
      exact List.mem_append_right _ (List.mem_map.mpr ⟨_, hmem, rfl⟩)
    exact absurd rfl (of_decide_eq_true (List.all_eq_true.mp hall _ hlast))

end KernelRuntime.AgentLoop
