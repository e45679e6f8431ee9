import Mathlib.Algebra.GroupWithZero.Nat
import KernelRuntime.Foundations.LruCache
import KernelRuntime.Memory.MessageStore

/-! # Contexts that are kept in memory

`ContextPersistenceManager` keeps the newest messages of a session in a cache and writes them to the
table of messages when it stops. Timestamps, file references and summaries are left out: nothing that
is stored depends on them. The cache is that of a library. -/

namespace KernelRuntime.ContextPersistence
set_option autoImplicit false

/-! ## Contexts -/

/-- The record of a message. -/
structure Message where
  sequence : ℤ
  role : String
  content : String
  taskId : Option String
  toolCalls : Option (List Json)
  toolResults : Option (List Json)
deriving DecidableEq

structure ContextWindow where
  startSequence : ℤ
  endSequence : ℤ
  messages : List Message
  tokenCount : ℕ

structure SessionContext where
  sessionId : String
  userId : String
  windows : List ContextWindow := []
  recentMessages : List Message := []
  lastSequence : ℤ := 0
  totalMessages : ℤ := 0
  isDirty : Bool := false

def maxRecent : ℕ := 10

def cacheSize : ℕ := 1000

/-- `WindowManager.create_window`, for messages that are not empty. -/
def createWindow (first : Message) (rest : List Message) : ContextWindow where
  startSequence := first.sequence
  endSequence := (rest.getLastD first).sequence
  messages := first :: rest
  tokenCount := ((first :: rest).map fun m => m.content.length).sum / 4

/-- The messages that leave the list of recent ones when it gets too long. -/
def oldMessages (recent : List Message) : List Message := recent.take (recent.length - maxRecent)

/-- The arguments of `add_message`. -/
structure NewMessage where
  role : String
  content : String
  taskId : Option String := none
  toolCalls : Option (List Json) := none
  toolResults : Option (List Json) := none

/-- The record that `MessageHandler.add_message` makes. -/
def newRecord (context : SessionContext) (args : NewMessage) : Message :=
  ⟨context.lastSequence + 1, args.role, args.content, args.taskId, args.toolCalls, args.toolResults⟩

/-- `MessageHandler.add_message`: the record, and the context afterwards. -/
def handleMessage (context : SessionContext) (args : NewMessage) : Message × SessionContext :=
  let message := newRecord context args
  let recent := context.recentMessages ++ [message]
  let windows :=
    match oldMessages recent with
    | [] => context.windows
    | first :: rest => context.windows ++ [createWindow first rest]
  (message, { context with windows := windows,
                           recentMessages := recent.drop (recent.length - maxRecent),
                           lastSequence := message.sequence,
                           totalMessages := context.totalMessages + 1, isDirty := true })

/-! ## The database -/

/-- The message that is made of a row. -/
def loadedMessage (row : MessageModel) : Message :=
  ⟨row.sequence, row.role, row.content, row.taskId, none, none⟩

/-- The rows that `load_from_db` reads: the newest of the session and tenant, in their order. -/
def recentRows (rows : List MessageModel) (sessionId tenantId : String) : List MessageModel :=
  (((rows.filter fun r => decide (r.sessionId = sessionId ∧ r.tenantId = tenantId)).insertionSort
    fun a b => b.sequence ≤ a.sequence).take (maxRecent * 2)).reverse

/-- `PersistenceManager.load_from_db`. -/
def loadFromDb (db : Database) (sessionId userId : String) : Option SessionContext :=
  match db.findSession sessionId with
  | none => none
  | some session =>
    match recentRows db.messages sessionId session.tenantId with
    | [] => none
    | row :: rows =>
      let lastSequence := ((row :: rows).map MessageModel.sequence).foldl max 0
      some { sessionId := sessionId, userId := userId,
             recentMessages := (row :: rows).map loadedMessage,
             lastSequence := lastSequence, totalMessages := lastSequence }

/-- The row of a message. -/
def messageRow (id : ℕ) (sessionId tenantId : String) (msg : Message) : MessageModel where
  id := id
  tenantId := tenantId
  sessionId := sessionId
  taskId := msg.taskId
  role := msg.role
  content := msg.content
  toolCallId := none
  toolCalls := []
  extraMetadata := none
  sequence := msg.sequence

/-- The rows that `persist_to_db` finds for a message. -/
def existing (db : Database) (sessionId tenantId : String) (msg : Message) : List MessageModel :=
  db.messages.filter fun r => decide (r.sessionId = sessionId ∧ r.sequence = msg.sequence ∧ r.tenantId = tenantId)

/-- The body of the loop of `persist_to_db`: a number that the session has already is passed over, and
`scalar_one_or_none` raises `MultipleResultsFound` where two rows have it. -/
def persistRecord (sessionId tenantId : String) (db : Database) (msg : Message) : Option Database :=
  match existing db sessionId tenantId msg with
  | [] => some { db with messages := db.messages ++ [messageRow db.nextId sessionId tenantId msg],
                         nextId := db.nextId + 1 }
  | [_] => some db
  | _ :: _ :: _ => none

/-- `PersistenceManager.persist_to_db`: the database when it does not raise. Its transaction sees what is
committed. -/
def persistToDb (db : Database) (context : SessionContext) : Option Database :=
  match db.findSession context.sessionId with
  | none => some db
  | some session => context.recentMessages.foldlM (persistRecord context.sessionId session.tenantId) db

/-! ## The manager -/

section Manager
variable {lib : LruLibrary String SessionContext}

/-- The manager, the database, the calls of `get_or_create_context` that are loading, and the records
that `add_message` returned so far. -/
structure State (lib : LruLibrary String SessionContext) where
  cache : lib.Cache
  dirtySessions : List String
  db : Database
  loading : List SessionContext
  accepted : List (String × Message)

/-- What can happen. -/
inductive Event where
  /-- A call of `get_or_create_context` up to its use of the database. -/
  | lookUp (sessionId userId : String)
  /-- The call that loads the `n`-th context goes on and caches it. -/
  | store (n : ℕ)
  | addMessage (sessionId : String) (args : NewMessage)
  /-- The background loop of the checkpoints wakes up. -/
  | checkpoint
  /-- The agent loop persists a message, and its unit of work ends. -/
  | persist (sessionId : String) (turn : Turn)
  | commit
  | rollback
  | stop

/-- `get_or_create_context` before the context is cached. -/
def lookUpContext (s : State lib) (sessionId userId : String) : State lib :=
  match lib.get? s.cache sessionId with
  | some _ => { s with cache := lib.touch s.cache sessionId }
  | none =>
    let context := (loadFromDb s.db sessionId userId).getD { sessionId := sessionId, userId := userId }
    { s with loading := s.loading ++ [context] }

/-- `self._cache.put(session_id, context)`. -/
def storeContext (s : State lib) (n : ℕ) : Option (State lib) :=
  (s.loading[n]?).map fun context =>
    { s with cache := lib.set s.cache context.sessionId context, loading := s.loading.eraseIdx n }

/-- `add_message`: the record that is returned, or none for the error. `userIds` is the column of the
sessions. A context that is not in the cache is loaded for the call alone. -/
def addMessage (userIds : String → String) (s : State lib) (sessionId : String) (args : NewMessage) :
    Option Message × State lib :=
  match lib.get? s.cache sessionId with
  | some context =>
    let handled := handleMessage context args
    (some handled.1, { s with cache := lib.modify (lib.touch s.cache sessionId) sessionId handled.2,
                              dirtySessions := s.dirtySessions ++ [context.sessionId] })
  | none =>
    if (s.db.findSession sessionId).isSome ∧ userIds sessionId ≠ "" then
      match loadFromDb s.db sessionId (userIds sessionId) with
      | none => (none, s)
      | some context =>
        (some (handleMessage context args).1,
          { s with dirtySessions := s.dirtySessions ++ [context.sessionId] })
    else (none, s)

/-- `CheckpointManager.flush_dirty_sessions` as the loop calls it, without a way to get a context. -/
def flushDirtySessions (s : State lib) : State lib := { s with dirtySessions := [] }

/-- The loop of `_flush_all`, which an exception of `persist_to_db` leaves. -/
def flushEntries (s : State lib) : List (String × SessionContext) → State lib
  | [] => s
  | (sessionId, context) :: rest =>
    if context.isDirty then
      match persistToDb s.db context with
      | none => s
      | some db =>
        flushEntries { s with db := db, cache := lib.modify s.cache sessionId { context with isDirty := false } } rest
    else flushEntries s rest

/-- `stop`: every context in the cache is flushed. -/
def flushAll (s : State lib) : State lib := flushEntries s (lib.items s.cache)

/-- One event. -/
def step (userIds : String → String) (s : State lib) : Event → Option (State lib)
  | .lookUp sessionId userId => some (lookUpContext s sessionId userId)
  | .store n => storeContext s n
  | .addMessage sessionId args =>
    let result := addMessage userIds s sessionId args
    some { result.2 with accepted := result.2.accepted ++ (result.1.toList.map fun m => (sessionId, m)) }
  | .checkpoint => some (flushDirtySessions s)
  | .persist sessionId turn => some { s with db := (s.db.persistMessage nextSequence sessionId turn).2 }
  | .commit => some { s with db := s.db.commit }
  | .rollback => some { s with db := s.db.rollback }
  | .stop => some (flushAll s)

end Manager

end KernelRuntime.ContextPersistence
