import KernelRuntime.Memory.SequenceNumbers

/-! # The context of a model call

`build_llm_context` reads the first rows of a task in the order of their numbers. The turns that a
handler persists are a run of `persist_message`; on a `Sound` table, whose sessions are numbered
upwards, the context is the first forty rows of the task as they were written. -/

namespace KernelRuntime
open SequenceNumbers
set_option autoImplicit false

/-- An entry of the list that `build_llm_context` returns. A key that is not set is `none` or `[]`. -/
structure ContextEntry where
  role : String
  content : String
  toolCallId : Option String
  toolCalls : List ToolCall
  metadata : Option ApprovalMetadata
deriving DecidableEq

/-- The value of a key that is only set when it is truthy. -/
def truthyText (text : Option String) : Option String := text.filter fun s => decide (s ≠ "")

def maxTurns : ℕ := 40

def MAX_CHARS : ℕ := 15000

/-- The `WHERE` conditions of the query. -/
def InContext (sessionId tenantId : String) (taskId : Option String) (r : MessageModel) : Prop :=
  r.sessionId = sessionId ∧ (tenantId ≠ "" → r.tenantId = tenantId) ∧
    (truthyText taskId ≠ none → r.taskId = taskId)

instance (sessionId tenantId : String) (taskId : Option String) (r : MessageModel) :
    Decidable (InContext sessionId tenantId taskId r) := inferInstanceAs (Decidable (_ ∧ _ ∧ _))

/-- The rows of the query, in its order. -/
def contextRows (rows : List MessageModel) (sessionId tenantId : String) (taskId : Option String) :
    List MessageModel :=
  ((rows.filter fun r => decide (InContext sessionId tenantId taskId r)).insertionSort
    fun a b => a.sequence ≤ b.sequence).take maxTurns

/-- A long content is cut in the middle, and its full text written to a file. -/
def compactContent (cacheDir : String) (row : MessageModel) : String :=
  let text := row.content.toList
  String.ofList (text.take 5000) ++ "\n\n...[" ++ toString (text.length - 10000) ++
    " BYTES COMPACTED (SWE-Agent Strict Bounds)]...\n[Full output paged to MemGPT Archival Disk: " ++
    cacheDir ++ "/context_dump_" ++ toString row.id ++ ".txt]\n\n" ++
    String.ofList (text.drop (text.length - 5000)) ++ "\n"

def contextEntry (cacheDir : String) (row : MessageModel) : ContextEntry where
  role := row.role
  content :=
    if MAX_CHARS < row.content.length ∧ row.role ∈ ["tool", "assistant"] then compactContent cacheDir row
    else row.content
  toolCallId := truthyText row.toolCallId
  toolCalls := row.toolCalls
  metadata := row.extraMetadata

/-- `build_llm_context` on the rows of its query, with the system prompt already made. -/
def buildLlmContext (cacheDir systemPrompt : String) (rows : List MessageModel) : List ContextEntry :=
  ⟨"system", systemPrompt, none, [], none⟩ :: rows.map (contextEntry cacheDir)

/-! ## The turns of a handler -/

/-- A run of `persist_message` on one session. -/
def Database.addTurns (db : Database) (next : Sequencer) (sessionId : String) (turns : List Turn) :
    Database := (messageStore next sessionId).run db turns

/-- The rows of the run. -/
def Database.newRows (db : Database) (next : Sequencer) (sessionId : String) (turns : List Turn) :
    List MessageModel := (messageStore next sessionId).appended db turns

/-- The row holds the turn. -/
structure Turn.StoredAs (turn : Turn) (sessionId tenantId : String) (r : MessageModel) : Prop where
  sessionId : r.sessionId = sessionId
  tenantId : r.tenantId = tenantId
  taskId : r.taskId = turn.taskId
  role : r.role = turn.role
  content : r.content = turn.content
  toolCallId : r.toolCallId = turn.toolCallId
  toolCalls : r.toolCalls = turn.toolCalls
  extraMetadata : r.extraMetadata = turn.metadata

namespace Database

theorem visible_addTurns (db : Database) (next : Sequencer) (sessionId : String) (turns : List Turn) :
    (db.addTurns next sessionId turns).visible =
      db.visible ++ db.newRows next sessionId turns :=
  (messageStore next sessionId).rows_run db turns

theorem addTurns_cons (db : Database) (next : Sequencer) (sessionId : String) (turn : Turn)
    (turns : List Turn) : db.addTurns next sessionId (turn :: turns) =
      (db.persistMessage next sessionId turn).2.addTurns next sessionId turns := rfl

theorem addTurns_append (db : Database) (next : Sequencer) (sessionId : String)
    (turns turns' : List Turn) : db.addTurns next sessionId (turns ++ turns') =
      (db.addTurns next sessionId turns).addTurns next sessionId turns' := by
  induction turns generalizing db with
  | nil => rfl
  | cons turn turns ih => exact ih (db.persistMessage next sessionId turn).2

@[simp] theorem sessions_addTurns (db : Database) (next : Sequencer) (sessionId : String)
    (turns : List Turn) : (db.addTurns next sessionId turns).sessions = db.sessions := by
  induction turns generalizing db with
  | nil => rfl
  | cons turn turns ih => exact ih (db.persistMessage next sessionId turn).2

@[simp] theorem tasks_addTurns (db : Database) (next : Sequencer) (sessionId : String)
    (turns : List Turn) : (db.addTurns next sessionId turns).tasks = db.tasks := by
  induction turns generalizing db with
  | nil => rfl
  | cons turn turns ih => exact ih (db.persistMessage next sessionId turn).2

theorem sessions_commit_addTurns (db : Database) (next : Sequencer) (sessionId : String)
    (turns : List Turn) : (db.addTurns next sessionId turns).commit.sessions = db.sessions :=
  sessions_addTurns db next sessionId turns

theorem tenantOf_congr {db db' : Database} (h : db'.sessions = db.sessions) (sessionId : String) :
    db'.tenantOf sessionId = db.tenantOf sessionId := by
  unfold tenantOf findSession
  rw [h]

theorem messages_commit_addTurns {db : Database} (hdb : db.flushed = []) (next : Sequencer)
    (sessionId : String) (turns : List Turn) : (db.addTurns next sessionId turns).commit.messages =
      db.messages ++ db.newRows next sessionId turns := by
  show (db.addTurns next sessionId turns).visible = _
  rw [visible_addTurns, visible, hdb, List.append_nil]

theorem newRows_storedAs (db : Database) (next : Sequencer) (sessionId : String) (turns : List Turn) :
    List.Forall₂ (fun turn => Turn.StoredAs turn sessionId (db.tenantOf sessionId)) turns
      (db.newRows next sessionId turns) := by
  induction turns generalizing db with
  | nil => exact List.Forall₂.nil
  | cons turn turns ih =>
    exact List.Forall₂.cons ⟨rfl, rfl, rfl, rfl, rfl, rfl, rfl, rfl⟩
      (ih (db.persistMessage next sessionId turn).2)

theorem commit_eq_self {db : Database} (h : db.flushed = []) : db.commit = db := by
  obtain ⟨sessions, tasks, messages, flushed, nextId⟩ := db
  obtain rfl : flushed = [] := h
  simp [commit]

theorem commit_congr_persistMessage {db db' : Database} (h : db.commit = db'.commit)
    (next : Sequencer) (sessionId : String) (turn : Turn) :
    (db.persistMessage next sessionId turn).2.commit =
      (db'.persistMessage next sessionId turn).2.commit := by
  obtain ⟨sessions, tasks, messages, flushed, nextId⟩ := db
  obtain ⟨sessions', tasks', messages', flushed', nextId'⟩ := db'
  simp only [commit, Database.mk.injEq] at h
  obtain ⟨rfl, rfl, hvisible, -, rfl⟩ := h
  simp only [commit, persistMessage, newMessage, visible, tenantOf, findSession, hvisible,
    ← List.append_assoc]

/-- A commit between the turns makes no difference to what is committed in the end. -/
theorem commit_addTurns_commit (db : Database) (next : Sequencer) (sessionId : String)
    (turns : List Turn) : (db.commit.addTurns next sessionId turns).commit =
      (db.addTurns next sessionId turns).commit := by
  have hcongr : ∀ turns : List Turn, ∀ db db' : Database, db.commit = db'.commit →
      (db.addTurns next sessionId turns).commit = (db'.addTurns next sessionId turns).commit := by
    intro turns
    induction turns with
    | nil => exact fun _ _ h => h
    | cons turn turns ih =>
      intro db db' h
      exact ih _ _ (commit_congr_persistMessage h next sessionId turn)
  refine hcongr turns _ _ ?_
  simp [commit]

/-! ## Sound tables -/

/-- The rows of a session are numbered upwards, and carry the tenant of the session. -/
structure Sound (db : Database) : Prop where
  ordered : db.visible.Pairwise fun a b => a.sessionId = b.sessionId → a.sequence < b.sequence
  tenants : ∀ r ∈ db.visible, r.tenantId = db.tenantOf r.sessionId

theorem Sound.congr {db db' : Database} (h : db.Sound) (hvisible : db'.visible = db.visible)
    (htenants : ∀ sessionId, db'.tenantOf sessionId = db.tenantOf sessionId) : db'.Sound := by
  refine ⟨hvisible ▸ h.ordered, fun r hr => ?_⟩
  rw [htenants]
  exact h.tenants r (hvisible ▸ hr)

theorem Sound.commit {db : Database} (h : db.Sound) : db.commit.Sound :=
  h.congr (visible_commit db) fun _ => rfl

theorem Sound.persistMessage {next : Sequencer} (hnext : next.Fresh) {db : Database} (h : db.Sound)
    (sessionId : String) (turn : Turn) : (db.persistMessage next sessionId turn).2.Sound := by
  constructor
  · rw [visible_persistMessage, List.pairwise_append]
    refine ⟨h.ordered, List.pairwise_singleton _ _, ?_⟩
    intro a ha b hb hsession
    rw [List.mem_singleton.mp hb] at hsession ⊢
    have hstored : a.StoredFor sessionId (db.tenantOf sessionId) :=
      ⟨hsession, by rw [h.tenants a ha, hsession]; rfl⟩
    exact hnext db.visible sessionId (db.tenantOf sessionId) a ha hstored
  · intro r hr
    rw [visible_persistMessage] at hr
    rw [tenantOf_persistMessage]
    rcases List.mem_append.mp hr with hr | hr
    · exact h.tenants r hr
    · rw [List.mem_singleton.mp hr]
      rfl

theorem Sound.addTurns {next : Sequencer} (hnext : next.Fresh) {db : Database} (h : db.Sound)
    (sessionId : String) (turns : List Turn) : (db.addTurns next sessionId turns).Sound := by
  induction turns generalizing db with
  | nil => exact h
  | cons turn turns ih => exact ih (h.persistMessage hnext sessionId turn)

end Database

/-- On a sound table the context is the first rows of its scope, as they were written. -/
theorem contextRows_eq_take {db : Database} (h : db.Sound) (sessionId tenantId : String)
    (taskId : Option String) : contextRows db.visible sessionId tenantId taskId =
      (db.visible.filter fun r => decide (InContext sessionId tenantId taskId r)).take maxTurns := by
  unfold contextRows
  congr 1
  apply List.Pairwise.insertionSort_eq
  have hscope : (db.visible.filter fun r => decide (InContext sessionId tenantId taskId r)).Pairwise
      fun a b => a.sessionId = b.sessionId → a.sequence < b.sequence := h.ordered.filter _
  refine hscope.imp_of_mem fun {a b} ha hb hlt => ?_
  have hsession : ∀ r ∈ db.visible.filter fun r => decide (InContext sessionId tenantId taskId r),
      r.sessionId = sessionId := fun r hr => (of_decide_eq_true (List.mem_filter.mp hr).2).1
  exact (hlt ((hsession a ha).trans (hsession b hb).symm)).le

end KernelRuntime
