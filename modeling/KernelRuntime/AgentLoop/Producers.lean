import KernelRuntime.AgentLoop.TaskView
import KernelRuntime.AgentLoop.TerminalEvent

/-! # Everything that leads to an event of the brain

Besides the four steps of the agent loop there are tasks that are dispatched without a chat, events that come a second
time, and forks of sessions, whose rows keep the task they were written for. -/

namespace KernelRuntime.AgentLoop
open Approval
set_option autoImplicit false

/-- `dispatch_task`. The task gets an id that no task has. -/
def dispatchTask (tenantId taskId sessionId description : String) (w : World) : Option World :=
  if taskId ≠ "" ∧ ∀ t ∈ w.db.tasks, t.id ≠ taskId then
    if w.db.sessions.any fun s => decide (s.id = sessionId ∧ s.tenantId = tenantId) then
      some ((w.store { w.db with
        tasks := w.db.tasks ++ [⟨taskId, tenantId, sessionId, description, "pending", 0⟩] }).putThink
          ⟨some taskId, sessionId, description, some tenantId⟩)
    else some w
  else none

/-- The event names the task and its session. -/
def Names (event : ThinkEvent) (t : TaskModel) : Prop :=
  some t.id = event.taskId ∧ t.sessionId = event.sessionId ∧
    (truthyText event.tenantId ≠ none → event.tenantId = some t.tenantId)

instance (event : ThinkEvent) (t : TaskModel) : Decidable (Names event t) :=
  inferInstanceAs (Decidable (_ ∧ _ ∧ _))

/-- An event of a task comes again: the broker delivers it twice, or a user triggers it. -/
def trigger (event : ThinkEvent) (w : World) : Option World :=
  if w.db.tasks.any fun t => decide (Names event t) then some (w.putThink event) else none

/-! ## Forks -/

/-- The rows that a fork copies: those of the session up to the message, in the order of their numbers. -/
def branchRows (db : Database) (tenantId sessionId : String) (messageId : ℕ) : List MessageModel :=
  let scope := db.messages.filter fun m => decide (m.sessionId = sessionId ∧ m.tenantId = tenantId)
  match scope.find? fun m => decide (m.id = messageId) with
  | none => []
  | some branch => (scope.filter fun m => decide (m.sequence ≤ branch.sequence)).insertionSort
      fun a b => a.sequence ≤ b.sequence

/-- The copy of a row in another session. -/
def copyRow (tenantId newId : String) (nextId : ℕ) (r : MessageModel) : MessageModel :=
  { r with id := nextId, tenantId := tenantId, sessionId := newId }

def copyRows (tenantId newId : String) : ℕ → List MessageModel → List MessageModel
  | _, [] => []
  | nextId, r :: rows => copyRow tenantId newId nextId r :: copyRows tenantId newId (nextId + 1) rows

/-- `fork_session`. The helper for the workspaces reads attributes of the dictionaries that it is given, and raises when
there is one; without one it makes a default workspace, whose slug is `slug`. -/
def forkSession (tenantId sessionId newId slug : String) (messageId : ℕ) (w : World) : Option World :=
  if ∀ s ∈ w.db.sessions, s.id ≠ newId then
    match w.db.sessions.find? fun s => decide (s.id = sessionId ∧ s.tenantId = tenantId) with
    | none => some w
    | some old =>
      if old.mountedFolders = [] then
        let rows := branchRows w.db tenantId sessionId messageId
        some (w.store { w.db with
          sessions := w.db.sessions ++ [⟨newId, tenantId, old.userRole, [], "auto", [slug]⟩]
          messages := w.db.messages ++ copyRows tenantId newId w.db.nextId rows
          nextId := w.db.nextId + rows.length })
      else some w
  else none

/-! ## Steps -/

inductive LoopLabel where
  | loop (i : Label)
  | dispatch (tenantId taskId sessionId description : String)
  | trigger (event : ThinkEvent)
  | fork (tenantId sessionId newId slug : String) (messageId : ℕ)

def loopStep (env : Env) (w : World) : LoopLabel → Option World
  | .loop i => step env w i
  | .dispatch tenantId taskId sessionId description => dispatchTask tenantId taskId sessionId description w
  | .trigger event => trigger event w
  | .fork tenantId sessionId newId slug messageId => forkSession tenantId sessionId newId slug messageId w

/-! ## What the steps do -/

/-- The columns that no step changes. -/
def taskKey (t : TaskModel) : String × String × String := (t.id, t.sessionId, t.tenantId)

def sessionKey (s : SessionModel) : String × String := (s.id, s.tenantId)

/-- A task is added, and its first event published. -/
structure Opened (t : TaskModel) (w w' : World) : Prop where
  fresh : ∀ t' ∈ w.db.tasks, t'.id ≠ t.id
  uncounted : t.iterationCount = 0
  home : ∃ s ∈ w.db.sessions, sessionKey s = (t.sessionId, t.tenantId)
  clean : w.Clean → w'.Clean
  sessions : w'.db.sessions.map sessionKey = w.db.sessions.map sessionKey
  tasks : w'.db.tasks = w.db.tasks ++ [t]
  messages : w'.db.messages = w.db.messages
  taskQueue : ∃ message, w'.taskQueue = w.taskQueue ++ [message] ∧ Names message.data t
  executionQueue : w'.executionQueue = w.executionQueue
  llmCalls : w'.llmCalls = w.llmCalls

section Open
variable {tenantId taskId sessionId description : String} {w w' : World}

theorem exists_home (h : (w.db.sessions.any fun s => decide (s.id = sessionId ∧ s.tenantId = tenantId)) = true) :
    ∃ s ∈ w.db.sessions, sessionKey s = (sessionId, tenantId) := by
  obtain ⟨s, hs, hmatch⟩ := List.any_eq_true.mp h
  obtain ⟨hid, htenant⟩ := of_decide_eq_true hmatch
  exact ⟨s, hs, Prod.ext hid htenant⟩

theorem sendChatMessage_opened {req : ChatRequest} (hstep : sendChatMessage tenantId taskId req w = some w') :
    w' = w ∨ ∃ t, Opened t w w' := by
  unfold sendChatMessage at hstep
  split_ifs at hstep with hfresh hsession
  · obtain rfl := Option.some.inj hstep
    refine Or.inr ⟨⟨taskId, tenantId, req.sessionId, req.message, "pending", 0⟩, hfresh.2, rfl,
      exists_home hsession, fun h => ⟨h.usable, rfl, h.flushed⟩, ?_, rfl, rfl,
      ⟨_, rfl, rfl, rfl, fun _ => rfl⟩, rfl, rfl⟩
    show (w.db.sessions.map _).map sessionKey = _
    rw [List.map_map]
    refine List.map_congr_left fun s _ => ?_
    simp only [Function.comp]
    split_ifs <;> rfl
  · exact Or.inl (Option.some.inj hstep).symm

theorem dispatchTask_opened (hstep : dispatchTask tenantId taskId sessionId description w = some w') :
    w' = w ∨ ∃ t, Opened t w w' := by
  unfold dispatchTask at hstep
  split_ifs at hstep with hfresh hsession
  · obtain rfl := Option.some.inj hstep
    exact Or.inr ⟨⟨taskId, tenantId, sessionId, description, "pending", 0⟩, hfresh.2, rfl,
      exists_home hsession, fun h => ⟨h.usable, rfl, h.flushed⟩, rfl, rfl, rfl,
      ⟨_, rfl, rfl, rfl, fun _ => rfl⟩, rfl, rfl⟩
  · exact Or.inl (Option.some.inj hstep).symm

end Open

/-- A session is added, with copies of rows of another one. -/
structure Forked (session : SessionModel) (w w' : World) : Prop where
  fresh : ∀ s ∈ w.db.sessions, s.id ≠ session.id
  clean : w.Clean → w'.Clean
  sessions : w'.db.sessions = w.db.sessions ++ [session]
  tasks : w'.db.tasks = w.db.tasks
  messages : ∃ rows, w'.db.messages = w.db.messages ++ rows ∧
    ∀ r ∈ rows, r.sessionId = session.id ∧ ∃ r' ∈ w.db.messages, r'.taskId = r.taskId
  taskQueue : w'.taskQueue = w.taskQueue
  executionQueue : w'.executionQueue = w.executionQueue
  llmCalls : w'.llmCalls = w.llmCalls

theorem mem_copyRows {tenantId newId : String} {r : MessageModel} {rows : List MessageModel} :
    ∀ {nextId : ℕ}, r ∈ copyRows tenantId newId nextId rows →
      r.sessionId = newId ∧ ∃ r' ∈ rows, r'.taskId = r.taskId := by
  induction rows with
  | nil => exact fun h => absurd h List.not_mem_nil
  | cons first rows ih =>
    intro nextId h
    rcases List.mem_cons.mp h with rfl | h
    · exact ⟨rfl, first, List.mem_cons_self, rfl⟩
    · obtain ⟨hsession, r', hr', htask⟩ := ih h
      exact ⟨hsession, r', List.mem_cons_of_mem _ hr', htask⟩

theorem mem_branchRows {db : Database} {tenantId sessionId : String} {messageId : ℕ} {r : MessageModel}
    (h : r ∈ branchRows db tenantId sessionId messageId) : r ∈ db.messages := by
  unfold branchRows at h
  simp only at h
  split at h
  · exact absurd h List.not_mem_nil
  · exact (List.mem_filter.mp (List.mem_filter.mp ((List.mem_insertionSort _).mp h)).1).1

theorem forkSession_forked {tenantId sessionId newId slug : String} {messageId : ℕ} {w w' : World}
    (hstep : forkSession tenantId sessionId newId slug messageId w = some w') :
    w' = w ∨ ∃ session, Forked session w w' := by
  unfold forkSession at hstep
  split_ifs at hstep with hfresh
  cases hold : w.db.sessions.find? fun s => decide (s.id = sessionId ∧ s.tenantId = tenantId) with
  | none =>
    rw [hold] at hstep
    exact Or.inl (Option.some.inj hstep).symm
  | some old =>
    rw [hold] at hstep
    simp only at hstep
    split_ifs at hstep
    · obtain rfl := Option.some.inj hstep
      refine Or.inr ⟨_, hfresh, fun h => ⟨h.usable, rfl, h.flushed⟩, rfl, rfl, ⟨_, rfl, fun r hr => ?_⟩,
        rfl, rfl, rfl⟩
      obtain ⟨hsession, r', hr', htask⟩ := mem_copyRows hr
      exact ⟨hsession, r', mem_branchRows hr', htask⟩
    · exact Or.inl (Option.some.inj hstep).symm

end KernelRuntime.AgentLoop
