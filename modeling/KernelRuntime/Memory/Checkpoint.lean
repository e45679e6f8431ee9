import Mathlib.Data.Finset.Dedup
import Mathlib.Data.Finset.Insert
import Mathlib.Data.List.TakeWhile
import KernelRuntime.Memory.ContextPersistence
import KernelRuntime.Memory.MessageHandler

/-! # The checkpoint of dirty sessions

`flush_dirty_sessions` beside calls of `add_message`. A session is marked twice, in a set that the
flush empties first and by a flag that it clears last. Between the two the flush waits: for the lock,
for every query of `persist_to_db`, and for its commit. -/

namespace KernelRuntime.CheckpointManager
open ContextPersistence
set_option autoImplicit false

/-! ## States -/

structure Contexts where
  get : String → SessionContext
  sessionId_get : ∀ sessionId, (get sessionId).sessionId = sessionId

def Contexts.set (contexts : Contexts) (context : SessionContext) : Contexts where
  get := Function.update contexts.get context.sessionId context
  sessionId_get := by
    intro sessionId
    by_cases h : sessionId = context.sessionId
    · rw [h, Function.update_self]
    · rw [Function.update_of_ne h]
      exact contexts.sessionId_get sessionId

/-- `context.is_dirty = flag`. -/
def Contexts.setFlag (contexts : Contexts) (sessionId : String) (flag : Bool) : Contexts :=
  contexts.set { contexts.get sessionId with isDirty := flag }

/-- The loop of `persist_to_db` over the list that was `recent_messages` when the loop began, with a
query in flight for the message at `position`. `db` is what its transaction sees. -/
structure Reading where
  tenantId : String
  messages : List Message
  position : ℕ
  /-- `recent_messages` is another list by now. -/
  replaced : Bool
  db : Database
deriving DecidableEq

/-- Where the flush waits. -/
inductive Flush where
  | idle
  /-- For the lock. -/
  | waiting (sessions : List String)
  /-- For the row of the session. -/
  | opening (sessionId : String) (rest : List String)
  | reading (sessionId : String) (rest : List String) (loop : Reading)
  | committing (sessionId : String) (rest : List String) (db : Database)
  /-- For the connection to be given back. -/
  | closing (sessionId : String) (rest : List String)
  | ended
deriving DecidableEq

structure State where
  db : Database
  contexts : Contexts
  dirtySessions : Finset String
  flush : Flush

inductive Event where
  /-- `flush_dirty_sessions` is called, and lists the set in this order. -/
  | start (sessions : List String)
  /-- What the flush waits for is there. -/
  | resume
  /-- What the flush waits for fails. -/
  | raised
  | addMessage (sessionId : String) (args : NewMessage)
  | summarized (sessionId : String)

/-! ## Steps -/

section Steps
variable (handler : MessageHandler) (getContext : Option (String → Bool))

/-- The loop has no way to get a context, the context is missing, or its flag is not set. -/
def skips (contexts : Contexts) (sessionId : String) : Bool :=
  match getContext with
  | none => true
  | some found => !found sessionId || !(contexts.get sessionId).isDirty

/-- The loop of `flush_dirty_sessions` up to the next call of `persist_to_db`. -/
def nextSession (contexts : Contexts) (sessions : List String) : Flush :=
  match sessions.dropWhile (skips getContext contexts) with
  | [] => .ended
  | sessionId :: rest => .opening sessionId rest

/-- The loop of `persist_to_db` up to its next query. -/
def nextMessage (sessionId : String) (rest : List String) (loop : Reading) : Flush :=
  if loop.position < loop.messages.length then .reading sessionId rest loop
  else .committing sessionId rest loop.db

/-- The answer for the message at the position; the flush ends where `scalar_one_or_none` raises. -/
def queried (sessionId : String) (rest : List String) (loop : Reading) : Flush :=
  match loop.messages[loop.position]? with
  | none => .committing sessionId rest loop.db
  | some msg =>
    match persistRecord sessionId loop.tenantId loop.db msg with
    | none => .ended
    | some db => nextMessage sessionId rest { loop with position := loop.position + 1, db := db }

def beginLoop (s : State) (sessionId tenantId : String) : Reading :=
  ⟨tenantId, (s.contexts.get sessionId).recentMessages, 0, false, s.db⟩

/-- The flush goes on to where it waits next. -/
def resume (s : State) : Option State :=
  match s.flush with
  | .idle => none
  | .waiting sessions => some { s with flush := nextSession getContext s.contexts sessions }
  | .opening sessionId rest =>
    match s.db.findSession sessionId with
    | none => some { s with flush := .closing sessionId rest }
    | some session =>
      some { s with flush := nextMessage sessionId rest (beginLoop s sessionId session.tenantId) }
  | .reading sessionId rest loop => some { s with flush := queried sessionId rest loop }
  | .committing sessionId rest db => some { s with db := db, flush := .closing sessionId rest }
  | .closing sessionId rest =>
    let contexts := s.contexts.setFlag sessionId false
    some { s with contexts := contexts, flush := nextSession getContext contexts rest }
  | .ended => none

/-- What `add_message` does to the list of the loop: it appends to it, and then may put another list in
its place. -/
def Flush.appended (context : SessionContext) (message : Message) : Flush → Flush
  | .reading sessionId rest loop =>
    if sessionId = context.sessionId ∧ loop.replaced = false then
      .reading sessionId rest { loop with
        messages := loop.messages ++ [message]
        replaced := decide (handler.maxRecent < (context.recentMessages ++ [message]).length) }
    else .reading sessionId rest loop
  | flush => flush

def addMessage (s : State) (sessionId : String) (args : NewMessage) : State :=
  let context := s.contexts.get sessionId
  { s with
    contexts := s.contexts.set (handler.addMessage context args).2
    dirtySessions := insert context.sessionId s.dirtySessions
    flush := s.flush.appended handler context (newRecord context args) }

def step (s : State) : Event → Option State
  | .start sessions =>
    match s.flush with
    | .idle =>
      if s.dirtySessions = ∅ then some { s with flush := .ended }
      else if sessions.Nodup ∧ sessions.toFinset = s.dirtySessions then
        some { s with dirtySessions := ∅, flush := .waiting sessions }
      else none
    | _ => none
  | .resume => resume getContext s
  | .raised =>
    match s.flush with
    | .idle => none
    | .ended => none
    | _ => some { s with flush := .ended }
  | .addMessage sessionId args => some (addMessage handler s sessionId args)
  | .summarized sessionId => some { s with contexts := s.contexts.setFlag sessionId true }

end Steps

/-! ## What should hold afterwards -/

def Saved (db : Database) (sessionId : String) (messages : List Message) : Prop :=
  ∀ m ∈ messages, ∃ row ∈ db.messages, Holds sessionId m row

instance (db : Database) (sessionId : String) (messages : List Message) :
    Decidable (Saved db sessionId messages) := inferInstanceAs (Decidable (∀ m ∈ messages, _))

/-- Every recent message of the session has its row. -/
def Written (s : State) (sessionId : String) : Prop :=
  Saved s.db sessionId (s.contexts.get sessionId).recentMessages

instance (s : State) (sessionId : String) : Decidable (Written s sessionId) :=
  inferInstanceAs (Decidable (Saved _ _ _))

/-- Nothing of the session is unsaved, or both of its marks are set. -/
def Settled (s : State) (sessionId : String) : Prop :=
  Written s sessionId ∨ (sessionId ∈ s.dirtySessions ∧ (s.contexts.get sessionId).isDirty = true)

instance (s : State) (sessionId : String) : Decidable (Settled s sessionId) :=
  inferInstanceAs (Decidable (_ ∨ _))

/-! ## Where no mark is lost -/

/-- The sessions that the flush has not come to the end of. -/
def Flush.pending : Flush → List String
  | .waiting sessions => sessions
  | .opening current rest => current :: rest
  | .reading current rest _ => current :: rest
  | .committing current rest _ => current :: rest
  | .closing current rest => current :: rest
  | _ => []

/-- The loop of `persist_to_db` does not see a message that is added to the session now. -/
def Flush.Late (sessionId : String) : Flush → Prop
  | .reading current _ loop => sessionId = current ∧ loop.replaced = true
  | .committing current _ _ => sessionId = current
  | .closing current _ => sessionId = current
  | _ => False

instance (sessionId : String) : (flush : Flush) → Decidable (flush.Late sessionId)
  | .idle => isFalse id
  | .waiting _ => isFalse id
  | .opening _ _ => isFalse id
  | .reading _ _ _ => inferInstanceAs (Decidable (_ ∧ _))
  | .committing _ _ _ => inferInstanceAs (Decidable (_ = _))
  | .closing _ _ => inferInstanceAs (Decidable (_ = _))
  | .ended => isFalse id

section Safe
variable (getContext : Option (String → Bool))

/-- A session that is left out loses nothing: all its recent messages have rows, or it was marked by both marks
since the flush took the set. -/
def Spared (s : State) (sessionId : String) : Prop :=
  (∀ m ∈ (s.contexts.get sessionId).recentMessages, ∃ row ∈ s.db.messages, row.sessionId = sessionId ∧
    row.sequence = m.sequence ∧ row.role = m.role ∧ row.content = m.content ∧ row.taskId = m.taskId) ∨
  (sessionId ∈ s.dirtySessions ∧ (s.contexts.get sessionId).isDirty = true)

instance (s : State) (sessionId : String) : Decidable (Spared s sessionId) :=
  inferInstanceAs (Decidable (_ ∨ _))

theorem Spared.settled {s : State} {sessionId : String} (h : Spared s sessionId) : Settled s sessionId := by
  refine h.imp_left fun hrows m hm => ?_
  obtain ⟨row, hrow, hsession, hnumber, hrole, hcontent, htask⟩ := hrows m hm
  exact ⟨row, hrow, hsession, hnumber, hrole, hcontent, htask⟩

/-- No session with a message to save is passed over by the loop. -/
def PassSafe (s : State) (contexts : Contexts) (sessions : List String) : Prop :=
  ∀ sessionId ∈ sessions.takeWhile (skips getContext contexts), Spared s sessionId

/-- The session is stored, the numbers of its messages are not taken by other rows, and no session
with a message to save is passed over. -/
def ResumeSafe (s : State) : Prop :=
  match s.flush with
  | .waiting sessions => PassSafe getContext s s.contexts sessions
  | .opening sessionId _ => s.db.findSession sessionId ≠ none
  | .reading sessionId _ loop => ∀ msg ∈ loop.messages[loop.position]?,
      (existing loop.db sessionId loop.tenantId msg).length ≤ 1 ∧
        ∀ row ∈ existing loop.db sessionId loop.tenantId msg, Holds sessionId msg row
  | .closing sessionId rest => PassSafe getContext s (s.contexts.setFlag sessionId false) rest
  | _ => True

/-- A failure leaves no session behind that has something to save, and a message is not added to a
session when the loop over its messages is over. -/
def Safe (s : State) : Event → Prop
  | .resume => ResumeSafe getContext s
  | .raised => ∀ sessionId ∈ s.flush.pending, Spared s sessionId
  | .addMessage sessionId _ => ¬s.flush.Late sessionId
  | _ => True

instance (s : State) (contexts : Contexts) (sessions : List String) :
    Decidable (PassSafe getContext s contexts sessions) := inferInstanceAs (Decidable (∀ q ∈ _, _))

instance (s : State) : Decidable (ResumeSafe getContext s) := by
  unfold ResumeSafe
  split <;> infer_instance

instance (s : State) : (e : Event) → Decidable (Safe getContext s e)
  | .start _ => isTrue True.intro
  | .resume => inferInstanceAs (Decidable (ResumeSafe getContext s))
  | .raised => inferInstanceAs (Decidable (∀ q ∈ s.flush.pending, Spared s q))
  | .addMessage sessionId _ => inferInstanceAs (Decidable (¬s.flush.Late sessionId))
  | .summarized _ => isTrue True.intro

end Safe

/-! ## Contexts -/

section Contexts
variable (contexts : Contexts)

theorem Contexts.get_set_self {context : SessionContext} {sessionId : String}
    (h : context.sessionId = sessionId) : (contexts.set context).get sessionId = context := by
  subst h
  exact Function.update_self ..

theorem Contexts.get_set_of_ne {context : SessionContext} {sessionId : String}
    (h : sessionId ≠ context.sessionId) : (contexts.set context).get sessionId = contexts.get sessionId :=
  Function.update_of_ne h ..

theorem Contexts.get_setFlag_self (sessionId : String) (flag : Bool) :
    (contexts.setFlag sessionId flag).get sessionId = { contexts.get sessionId with isDirty := flag } :=
  contexts.get_set_self (contexts.sessionId_get sessionId)

theorem Contexts.get_setFlag_of_ne {current sessionId : String} (h : sessionId ≠ current) (flag : Bool) :
    (contexts.setFlag current flag).get sessionId = contexts.get sessionId :=
  contexts.get_set_of_ne (by rwa [contexts.sessionId_get])

@[simp] theorem Contexts.recentMessages_setFlag (current sessionId : String) (flag : Bool) :
    ((contexts.setFlag current flag).get sessionId).recentMessages =
      (contexts.get sessionId).recentMessages := by
  by_cases h : sessionId = current
  · rw [h, contexts.get_setFlag_self]
  · rw [contexts.get_setFlag_of_ne h]

end Contexts

section AddMessage
variable {handler : MessageHandler}

theorem keepRecent_unchanged (context : SessionContext) (m : Message) :
    (handler.keepRecent context m).sessionId = context.sessionId := by
  unfold MessageHandler.keepRecent
  dsimp only
  split_ifs <;> rfl

theorem sessionId_addMessage (context : SessionContext) (args : NewMessage) :
    (handler.addMessage context args).2.sessionId = context.sessionId :=
  keepRecent_unchanged { context with lastSequence := context.lastSequence + 1 } (newRecord context args)

theorem isDirty_addMessage (context : SessionContext) (args : NewMessage) :
    (handler.addMessage context args).2.isDirty = true := rfl

theorem recentMessages_addMessage_long {context : SessionContext} {args : NewMessage}
    (h : handler.maxRecent < (context.recentMessages ++ [newRecord context args]).length) :
    (handler.addMessage context args).2.recentMessages =
      sliceFrom (context.recentMessages ++ [newRecord context args]) (-handler.maxRecent) := by
  have hkeep : handler.keepRecent { context with lastSequence := context.lastSequence + 1 }
      (newRecord context args) = _ := MessageHandler.keepRecent_long h
  exact congrArg SessionContext.recentMessages hkeep

theorem recentMessages_addMessage_short {context : SessionContext} {args : NewMessage}
    (h : ¬handler.maxRecent < (context.recentMessages ++ [newRecord context args]).length) :
    (handler.addMessage context args).2.recentMessages =
      context.recentMessages ++ [newRecord context args] := by
  have hkeep : handler.keepRecent { context with lastSequence := context.lastSequence + 1 }
      (newRecord context args) = _ := MessageHandler.keepRecent_short h
  exact congrArg SessionContext.recentMessages hkeep

theorem mem_recentMessages_addMessage {context : SessionContext} {args : NewMessage} {m : Message}
    (h : m ∈ (handler.addMessage context args).2.recentMessages) :
    m ∈ context.recentMessages ++ [newRecord context args] := by
  by_cases hlong : handler.maxRecent < (context.recentMessages ++ [newRecord context args]).length
  · rw [recentMessages_addMessage_long hlong] at h
    exact (sliceFrom_suffix _ _).subset h
  · rwa [recentMessages_addMessage_short hlong] at h

end AddMessage

/-! ## The write -/

def Grows (db db' : Database) : Prop := ∀ row ∈ db.messages, row ∈ db'.messages

theorem Saved.mono {db db' : Database} {sessionId : String} {messages messages' : List Message}
    (h : Saved db sessionId messages) (hdb : Grows db db') (hmessages : ∀ m ∈ messages', m ∈ messages) :
    Saved db' sessionId messages' := by
  intro m hm
  obtain ⟨row, hrow, hholds⟩ := h m (hmessages m hm)
  exact ⟨row, hdb row hrow, hholds⟩

/-- After the query the message has its row, when no other row has its number. -/
theorem saved_persistRecord {db db' : Database} {sessionId tenantId : String} {msg : Message}
    (hpersist : persistRecord sessionId tenantId db msg = some db')
    (h : ∀ row ∈ existing db sessionId tenantId msg, Holds sessionId msg row) : Saved db' sessionId [msg] := by
  intro m hm
  rw [List.mem_singleton.mp hm]
  rcases persistRecord_cases hpersist with ⟨⟨row, hrow⟩, rfl⟩ | ⟨-, rfl⟩
  · have hin : row ∈ existing db' sessionId tenantId msg := by
      rw [hrow]
      exact List.mem_singleton_self row
    exact ⟨row, (mem_existing.mp hin).1, h row hin⟩
  · exact ⟨messageRow db.nextId sessionId tenantId msg, by simp, rfl, rfl, rfl, rfl, rfl⟩

/-- Where the loop is: what is before its position is saved, and it will come to what is recent. -/
structure Reading.Inv (loop : Reading) (db : Database) (sessionId : String) (recent : List Message) :
    Prop where
  grows : Grows db loop.db
  saved : Saved loop.db sessionId (loop.messages.take loop.position)
  covers : ∀ m ∈ recent, m ∈ loop.messages
  same : loop.replaced = false → loop.messages = recent
  position : loop.position ≤ loop.messages.length

def Flush.Inv (db : Database) (contexts : Contexts) : Flush → Prop
  | .reading sessionId _ loop => loop.Inv db sessionId (contexts.get sessionId).recentMessages
  | .committing sessionId _ db' =>
    Grows db db' ∧ Saved db' sessionId (contexts.get sessionId).recentMessages
  | .closing sessionId _ => Saved db sessionId (contexts.get sessionId).recentMessages
  | _ => True

section Write
variable {db : Database} {contexts : Contexts} {sessionId : String} {rest : List String} {loop : Reading}

theorem Reading.Inv.finished (h : loop.Inv db sessionId (contexts.get sessionId).recentMessages)
    (hend : loop.messages.length ≤ loop.position) :
    (Flush.committing sessionId rest loop.db).Inv db contexts := by
  refine ⟨h.grows, ?_⟩
  have hall : loop.messages.take loop.position = loop.messages := List.take_of_length_le hend
  have hsaved : Saved loop.db sessionId loop.messages := hall ▸ h.saved
  exact hsaved.mono (fun _ => id) h.covers

theorem Reading.Inv.nextMessage (h : loop.Inv db sessionId (contexts.get sessionId).recentMessages) :
    (nextMessage sessionId rest loop).Inv db contexts := by
  unfold CheckpointManager.nextMessage
  split_ifs with hmore
  · exact h
  · exact h.finished (not_lt.mp hmore)

theorem Reading.Inv.queried (h : loop.Inv db sessionId (contexts.get sessionId).recentMessages)
    (hsafe : ∀ msg ∈ loop.messages[loop.position]?,
      (existing loop.db sessionId loop.tenantId msg).length ≤ 1 ∧
        ∀ row ∈ existing loop.db sessionId loop.tenantId msg, Holds sessionId msg row) :
    (queried sessionId rest loop).Inv db contexts := by
  unfold CheckpointManager.queried
  cases hmsg : loop.messages[loop.position]? with
  | none => exact h.finished (List.getElem?_eq_none_iff.mp hmsg)
  | some msg =>
    obtain ⟨hone, hholds⟩ := hsafe msg hmsg
    obtain ⟨hlt, -⟩ := List.getElem?_eq_some_iff.mp hmsg
    obtain ⟨db', hpersist⟩ := persistRecord_isSome hone
    have hgrows : Grows loop.db db' := (persistRecord_frame hpersist).2.2
    simp only [hpersist]
    refine Reading.Inv.nextMessage ⟨fun row hrow => hgrows row (h.grows row hrow), ?_, h.covers, h.same, hlt⟩
    intro m hm
    rw [List.take_add_one, hmsg] at hm
    cases List.mem_append.mp hm with
    | inl hbefore => exact h.saved.mono hgrows (fun _ => id) m hbefore
    | inr hthis => exact saved_persistRecord hpersist hholds m hthis

end Write

/-! ## The steps of the flush -/

def Flush.Unflushed (dirtySessions : Finset String) (sessionId : String) : Flush → Prop
  | .idle => sessionId ∈ dirtySessions
  | flush => sessionId ∈ flush.pending

/-- The flush will come to the session, or need not. -/
def Tracked (s : State) (sessionId : String) : Prop :=
  s.flush.Unflushed s.dirtySessions sessionId ∨ Settled s sessionId

structure Inv (marked : Set String) (s : State) : Prop where
  flush : s.flush.Inv s.db s.contexts
  tracked : ∀ sessionId ∈ marked, Tracked s sessionId

theorem Settled.mono {s s' : State} {sessionId : String} (h : Settled s sessionId) (hdb : Grows s.db s'.db)
    (hrecent : (s'.contexts.get sessionId).recentMessages = (s.contexts.get sessionId).recentMessages)
    (hmarks : sessionId ∈ s.dirtySessions → (s.contexts.get sessionId).isDirty = true →
      sessionId ∈ s'.dirtySessions ∧ (s'.contexts.get sessionId).isDirty = true) : Settled s' sessionId := by
  cases h with
  | inl hwritten =>
    refine Or.inl (Saved.mono hwritten hdb fun m hm => ?_)
    rwa [hrecent] at hm
  | inr hmarked => exact Or.inr (hmarks hmarked.1 hmarked.2)

section Resume
variable {getContext : Option (String → Bool)}

theorem unflushed_nextSession {contexts : Contexts} {sessions : List String} {sessionId : String}
    (h : sessionId ∈ sessions) (dirtySessions : Finset String) :
    sessionId ∈ sessions.takeWhile (skips getContext contexts) ∨
      (nextSession getContext contexts sessions).Unflushed dirtySessions sessionId := by
  rw [← List.takeWhile_append_dropWhile (p := skips getContext contexts) (l := sessions)] at h
  refine (List.mem_append.mp h).imp id fun hlater => ?_
  unfold nextSession
  cases hdrop : sessions.dropWhile (skips getContext contexts) with
  | nil => simp [hdrop] at hlater
  | cons next rest => rwa [hdrop] at hlater

theorem inv_nextSession (db : Database) (contexts contexts' : Contexts) (sessions : List String) :
    (nextSession getContext contexts sessions).Inv db contexts' := by
  unfold nextSession
  cases sessions.dropWhile (skips getContext contexts) with
  | nil => exact True.intro
  | cons next rest => exact True.intro

theorem unflushed_nextMessage {current sessionId : String} {rest : List String} (loop : Reading)
    (h : sessionId ∈ current :: rest) (dirtySessions : Finset String) :
    (nextMessage current rest loop).Unflushed dirtySessions sessionId := by
  unfold nextMessage
  split_ifs
  · exact h
  · exact h

theorem unflushed_queried {current sessionId : String} {rest : List String} {loop : Reading}
    (h : sessionId ∈ current :: rest) (dirtySessions : Finset String)
    (hone : ∀ msg ∈ loop.messages[loop.position]?, (existing loop.db current loop.tenantId msg).length ≤ 1) :
    (queried current rest loop).Unflushed dirtySessions sessionId := by
  unfold queried
  cases hmsg : loop.messages[loop.position]? with
  | none => exact h
  | some msg =>
    obtain ⟨db', hpersist⟩ := persistRecord_isSome (hone msg hmsg)
    simp only [hpersist]
    exact unflushed_nextMessage _ h dirtySessions

/-- A session whose messages are written is settled without its flag, and no other flag changes. -/
theorem settled_setFlag {s s' : State} {current sessionId : String}
    (hwritten : Saved s.db current (s.contexts.get current).recentMessages) (hdb : s'.db = s.db)
    (hdirty : s'.dirtySessions = s.dirtySessions) (hcontexts : s'.contexts = s.contexts.setFlag current false)
    (h : sessionId = current ∨ Settled s sessionId) : Settled s' sessionId := by
  have hrecent : ∀ q, (s'.contexts.get q).recentMessages = (s.contexts.get q).recentMessages := by
    intro q
    rw [hcontexts, Contexts.recentMessages_setFlag]
  by_cases hcurrent : sessionId = current
  · rw [hcurrent]
    left
    unfold Written
    rwa [hdb, hrecent]
  · refine (h.resolve_left hcurrent).mono (fun row hrow => hdb ▸ hrow) (hrecent _) fun hmem hflag => ?_
    rw [hdirty, hcontexts, Contexts.get_setFlag_of_ne _ hcurrent]
    exact ⟨hmem, hflag⟩

theorem resume_inv {marked : Set String} {s s' : State} (h : Inv marked s) (hsafe : ResumeSafe getContext s)
    (hstep : resume getContext s = some s') : Inv marked s' := by
  obtain ⟨db, contexts, dirtySessions, flush⟩ := s
  obtain ⟨hflush, htracked⟩ := h
  cases flush with
  | idle => cases hstep
  | ended => cases hstep
  | waiting sessions =>
    cases hstep
    refine ⟨inv_nextSession db _ _ sessions, fun q hq => ?_⟩
    cases htracked q hq with
    | inl hwaits =>
      exact (unflushed_nextSession hwaits dirtySessions).elim (fun hpass => Or.inr (hsafe _ hpass).settled) Or.inl
    | inr hsettled => exact Or.inr hsettled
  | opening current rest =>
    simp only [resume] at hstep
    cases hsession : db.findSession current with
    | none => exact absurd hsession hsafe
    | some session =>
      rw [hsession] at hstep
      cases hstep
      have hbegin : (beginLoop ⟨db, contexts, dirtySessions, .opening current rest⟩ current session.tenantId).Inv db
          current (contexts.get current).recentMessages :=
        ⟨fun _ => id, by simp [Saved, beginLoop], fun _ => id, fun _ => rfl, Nat.zero_le _⟩
      refine ⟨hbegin.nextMessage, fun q hq => ?_⟩
      exact (htracked q hq).imp (fun hwaits => unflushed_nextMessage _ hwaits dirtySessions) id
  | reading current rest loop =>
    cases hstep
    refine ⟨Reading.Inv.queried hflush hsafe, fun q hq => ?_⟩
    exact (htracked q hq).imp (fun hwaits => unflushed_queried hwaits _ fun msg hmsg => (hsafe msg hmsg).1) id
  | committing current rest db' =>
    cases hstep
    refine ⟨hflush.2, fun q hq => (htracked q hq).imp id fun hsettled => ?_⟩
    exact hsettled.mono hflush.1 rfl fun hmem hflag => ⟨hmem, hflag⟩
  | closing current rest =>
    cases hstep
    refine ⟨inv_nextSession db _ _ rest, fun q hq => ?_⟩
    have hkeep : q = current ∨ Settled ⟨db, contexts, dirtySessions, .closing current rest⟩ q →
        Settled ⟨db, contexts.setFlag current false, dirtySessions,
          nextSession getContext (contexts.setFlag current false) rest⟩ q :=
      settled_setFlag hflush rfl rfl rfl
    cases htracked q hq with
    | inr hsettled => exact Or.inr (hkeep (Or.inr hsettled))
    | inl hwaits =>
      cases List.mem_cons.mp hwaits with
      | inl hcurrent => exact Or.inr (hkeep (Or.inl hcurrent))
      | inr hlater =>
        refine (unflushed_nextSession hlater dirtySessions).elim (fun hpass => Or.inr ?_) Or.inl
        exact hkeep (Or.inr (hsafe _ hpass).settled)

end Resume

/-! ## The calls beside it -/

section Beside
variable {handler : MessageHandler} {s : State} {current : String} {args : NewMessage}

theorem get_addMessage_self : (addMessage handler s current args).contexts.get current =
    (handler.addMessage (s.contexts.get current) args).2 :=
  s.contexts.get_set_self ((sessionId_addMessage _ args).trans (s.contexts.sessionId_get current))

theorem get_addMessage_of_ne {sessionId : String} (h : sessionId ≠ current) :
    (addMessage handler s current args).contexts.get sessionId = s.contexts.get sessionId := by
  refine s.contexts.get_set_of_ne ?_
  rwa [sessionId_addMessage, s.contexts.sessionId_get]

/-- The call sets both marks of its session. -/
theorem settled_addMessage_self : Settled (addMessage handler s current args) current := by
  refine Or.inr ⟨?_, ?_⟩
  · show current ∈ insert (s.contexts.get current).sessionId s.dirtySessions
    rw [s.contexts.sessionId_get]
    exact Finset.mem_insert_self ..
  · rw [get_addMessage_self]
    exact isDirty_addMessage _ args

theorem unflushed_appended {context : SessionContext} {message : Message} {flush : Flush} {sessionId : String}
    {dirtySessions dirtySessions' : Finset String} (hdirty : dirtySessions ⊆ dirtySessions')
    (h : flush.Unflushed dirtySessions sessionId) :
    (flush.appended handler context message).Unflushed dirtySessions' sessionId := by
  cases flush with
  | idle => exact hdirty h
  | reading current rest loop =>
    unfold Flush.appended
    dsimp only
    split_ifs
    · exact h
    · exact h
  | _ => exact h

/-- The message goes to the list of the loop, and the loop will see it. -/
theorem inv_appended {loop : Reading} {db : Database} {context : SessionContext} {sessionId : String}
    (h : loop.Inv db sessionId context.recentMessages) (hsame : loop.replaced = false) :
    Reading.Inv { loop with
        messages := loop.messages ++ [newRecord context args]
        replaced := decide (handler.maxRecent < (context.recentMessages ++ [newRecord context args]).length) }
      db sessionId (handler.addMessage context args).2.recentMessages := by
  have hmessages := h.same hsame
  refine ⟨h.grows, ?_, fun m hm => ?_, fun hkept => ?_, ?_⟩
  · show Saved loop.db sessionId ((loop.messages ++ [newRecord context args]).take loop.position)
    rw [List.take_append_of_le_length h.position]
    exact h.saved
  · show m ∈ loop.messages ++ [newRecord context args]
    rw [hmessages]
    exact mem_recentMessages_addMessage hm
  · show loop.messages ++ [newRecord context args] = _
    rw [recentMessages_addMessage_short (of_decide_eq_false hkept), hmessages]
  · show loop.position ≤ (loop.messages ++ [newRecord context args]).length
    rw [List.length_append]
    have := h.position
    omega

theorem flush_inv_addMessage (h : s.flush.Inv s.db s.contexts) (hlate : ¬s.flush.Late current) :
    (addMessage handler s current args).flush.Inv s.db (addMessage handler s current args).contexts := by
  have hother : ∀ sessionId, sessionId ≠ current →
      ((addMessage handler s current args).contexts.get sessionId).recentMessages =
        (s.contexts.get sessionId).recentMessages := by
    intro sessionId hne
    rw [get_addMessage_of_ne hne]
  show (s.flush.appended handler (s.contexts.get current) (newRecord (s.contexts.get current) args)).Inv s.db
    (addMessage handler s current args).contexts
  cases hphase : s.flush with
  | committing sessionId rest db =>
    rw [hphase] at h hlate
    refine ⟨h.1, ?_⟩
    rw [hother sessionId (Ne.symm hlate)]
    exact h.2
  | closing sessionId rest =>
    rw [hphase] at h hlate
    show Saved s.db sessionId _
    rw [hother sessionId (Ne.symm hlate)]
    exact h
  | reading sessionId rest loop =>
    rw [hphase] at h hlate
    unfold Flush.appended
    dsimp only
    split_ifs with happend
    · obtain ⟨hcurrent, hsame⟩ := happend
      rw [s.contexts.sessionId_get] at hcurrent
      subst hcurrent
      show Reading.Inv _ s.db sessionId _
      rw [get_addMessage_self]
      exact inv_appended h hsame
    · have hne : sessionId ≠ current := by
        intro heq
        refine happend ⟨heq.trans (s.contexts.sessionId_get current).symm, ?_⟩
        exact Bool.eq_false_iff.mpr fun hreplaced => hlate ⟨heq.symm, hreplaced⟩
      show loop.Inv s.db sessionId _
      rw [hother sessionId hne]
      exact h
  | _ => exact True.intro

theorem addMessage_inv {marked : Set String} (h : Inv marked s) (hlate : ¬s.flush.Late current) :
    Inv (insert current marked) (addMessage handler s current args) := by
  have hflush : (addMessage handler s current args).flush.Inv s.db (addMessage handler s current args).contexts :=
    flush_inv_addMessage h.flush hlate
  refine ⟨hflush, fun q hq => ?_⟩
  by_cases hcurrent : q = current
  · rw [hcurrent]
    exact Or.inr settled_addMessage_self
  · have hdirty : s.dirtySessions ⊆ (addMessage handler s current args).dirtySessions :=
      Finset.subset_insert ..
    have htracked := h.tracked q (Set.mem_of_mem_insert_of_ne hq hcurrent)
    refine htracked.imp (unflushed_appended hdirty) fun hsettled => ?_
    refine hsettled.mono (fun _ => id) ?_ fun hmem hflag => ⟨hdirty hmem, ?_⟩
    · rw [get_addMessage_of_ne hcurrent]
    · rwa [get_addMessage_of_ne hcurrent]

end Beside

theorem summarized_inv {marked : Set String} {s : State} (h : Inv marked s) (current : String) :
    Inv marked { s with contexts := s.contexts.setFlag current true } := by
  constructor
  · obtain ⟨db, contexts, dirtySessions, flush⟩ := s
    have hflush := h.flush
    cases flush with
    | reading q rest loop => simpa only [Flush.Inv, Contexts.recentMessages_setFlag] using hflush
    | committing q rest db' => simpa only [Flush.Inv, Contexts.recentMessages_setFlag] using hflush
    | closing q rest => simpa only [Flush.Inv, Contexts.recentMessages_setFlag] using hflush
    | _ => exact True.intro
  · refine fun q hq => (h.tracked q hq).imp id fun hsettled => ?_
    refine hsettled.mono (fun _ => id) (Contexts.recentMessages_setFlag ..) fun hmem hflag => ⟨hmem, ?_⟩
    show ((s.contexts.setFlag current true).get q).isDirty = true
    by_cases hcurrent : q = current
    · rw [hcurrent, Contexts.get_setFlag_self]
    · rwa [Contexts.get_setFlag_of_ne _ hcurrent]

/-! ## A write that nothing disturbs -/

section Undisturbed
variable {handler : MessageHandler} {getContext : Option (String → Bool)}

theorem exec_reading {s : State} {current : String} {rest : List String} (n : ℕ) (loop : Reading)
    (hlength : loop.messages.length = loop.position + n) {db : Database}
    (hrecords : (loop.messages.drop loop.position).foldlM (persistRecord current loop.tenantId) loop.db = some db) :
    exec (step handler getContext) { s with flush := nextMessage current rest loop } (List.replicate n .resume) =
      some { s with flush := .committing current rest db } := by
  induction n generalizing loop with
  | zero =>
    have hend : ¬loop.position < loop.messages.length := by omega
    have hnone : loop.messages.drop loop.position = [] := List.drop_of_length_le (by omega)
    rw [hnone] at hrecords
    cases hrecords
    rw [nextMessage, if_neg hend]
    rfl
  | succ n ih =>
    have hmore : loop.position < loop.messages.length := by omega
    have hmsg : loop.messages[loop.position]? = some loop.messages[loop.position] := List.getElem?_eq_getElem hmore
    rw [List.drop_eq_getElem_cons hmore] at hrecords
    obtain ⟨db₁, hpersist, hrest⟩ := persistRecords_cons hrecords
    have hquery : queried current rest loop =
        nextMessage current rest { loop with position := loop.position + 1, db := db₁ } := by
      simp only [queried, hmsg, hpersist]
    rw [List.replicate_succ, exec_cons, nextMessage, if_pos hmore]
    show exec (step handler getContext) { s with flush := queried current rest loop } _ = _
    rw [hquery]
    exact ih _ (by show loop.messages.length = loop.position + 1 + n; omega) hrest

/-- The steps of one write are together `persist_to_db`, when that does not raise. -/
theorem exec_persistToDb {s : State} {current : String} {rest : List String} {session : SessionModel}
    (hflush : s.flush = .opening current rest) (hsession : s.db.findSession current = some session)
    {db : Database} (hpersist : persistToDb s.db (s.contexts.get current) = some db) :
    exec (step handler getContext) s (.resume ::
        (List.replicate (s.contexts.get current).recentMessages.length .resume ++ [.resume])) =
      some { s with db := db, flush := .closing current rest } := by
  have hopened : step handler getContext s .resume =
      some { s with flush := nextMessage current rest (beginLoop s current session.tenantId) } := by
    simp only [step, resume, hflush, hsession]
  have hrecords : (s.contexts.get current).recentMessages.foldlM (persistRecord current session.tenantId) s.db =
      some db := by
    rw [persistToDb, s.contexts.sessionId_get, hsession] at hpersist
    exact hpersist
  have hread : exec (step handler getContext)
      { s with flush := nextMessage current rest (beginLoop s current session.tenantId) }
      (List.replicate (s.contexts.get current).recentMessages.length .resume) = _ :=
    exec_reading _ (beginLoop s current session.tenantId) (Nat.zero_add _).symm hrecords
  rw [exec_cons, hopened, Option.bind_some, exec_append, hread]
  rfl

end Undisturbed

/-! ## A whole run -/

section Run
variable {handler : MessageHandler} {getContext : Option (String → Bool)}

theorem start_inv {marked : Set String} {s s' : State} (h : Inv marked s) (sessions : List String)
    (hstep : step handler getContext s (.start sessions) = some s') : Inv marked s' := by
  obtain ⟨db, contexts, dirtySessions, flush⟩ := s
  cases flush with
  | idle =>
    simp only [step] at hstep
    split_ifs at hstep with hnone hlisted
    · cases hstep
      refine ⟨True.intro, fun q hq => (h.tracked q hq).imp (fun hmem => ?_) id⟩
      exact absurd (hnone ▸ hmem : q ∈ (∅ : Finset String)) (Finset.notMem_empty _)
    · cases hstep
      have hmem : ∀ q, q ∈ dirtySessions → q ∈ sessions := by
        intro q hdirty
        rwa [← hlisted.2, List.mem_toFinset] at hdirty
      refine ⟨True.intro, fun q hq => (h.tracked q hq).elim (fun hdirty => Or.inl (hmem q hdirty)) ?_⟩
      intro hsettled
      cases hsettled with
      | inl hwritten => exact Or.inr (Or.inl hwritten)
      | inr hmarked => exact Or.inl (hmem q hmarked.1)
  | _ => cases hstep

theorem raised_eq {s s' : State} (hstep : step handler getContext s .raised = some s') :
    s' = { s with flush := .ended } ∧
      ∀ q, s.flush.Unflushed s.dirtySessions q → q ∈ s.flush.pending := by
  obtain ⟨db, contexts, dirtySessions, flush⟩ := s
  cases flush with
  | idle => cases hstep
  | ended => cases hstep
  | _ => exact ⟨(Option.some.inj hstep).symm, fun _ => id⟩

theorem step_inv {marked : Set String} (s : State) (e : Event) (s' : State) (h : Inv marked s)
    (hsafe : Safe getContext s e) (hstep : step handler getContext s e = some s') : Inv marked s' := by
  cases e with
  | start sessions => exact start_inv h sessions hstep
  | resume => exact resume_inv h hsafe hstep
  | raised =>
    obtain ⟨rfl, hpending⟩ := raised_eq hstep
    refine ⟨True.intro, fun q hq => Or.inr ?_⟩
    exact (h.tracked q hq).elim (fun hunflushed => (hsafe q (hpending q hunflushed)).settled) id
  | addMessage current args =>
    obtain rfl : addMessage handler s current args = s' := Option.some.inj hstep
    have hinv : Inv (insert current marked) (addMessage handler s current args) := addMessage_inv h hsafe
    exact ⟨hinv.flush, fun q hq => hinv.tracked q (Set.mem_insert_of_mem current hq)⟩
  | summarized current =>
    cases hstep
    exact summarized_inv h current

/-- **A session that is marked before the flush ends is written or marked when it has ended, in every run
without a late message, a session that is passed over with unsaved messages, or a failure.** -/
theorem flush_settles (handler : MessageHandler) (getContext : Option (String → Bool)) (s₀ s : State)
    (events : List Event) (hidle : s₀.flush = .idle)
    (hsafe : Guarded (step handler getContext) (Safe getContext) s₀ events)
    (hrun : exec (step handler getContext) s₀ events = some s) (hended : s.flush = .ended)
    (sessionId : String)
    (hmarked : sessionId ∈ s₀.dirtySessions ∨ ∃ args, Event.addMessage sessionId args ∈ events) :
    Settled s sessionId := by
  have hstart : Inv (s₀.dirtySessions : Set String) s₀ := by
    refine ⟨?_, fun q hq => Or.inl ?_⟩
    · rw [hidle]
      exact True.intro
    · rw [hidle]
      exact hq
  have hinv : Inv {sessionId} s := by
    cases hmarked with
    | inl hdirty =>
      have hend := exec_invariant step_inv hstart hsafe hrun
      exact ⟨hend.flush, fun q hq => hend.tracked q (hq ▸ hdirty)⟩
    | inr hadded =>
      -- the call that marks the session comes somewhere in the run
      obtain ⟨args, hmem⟩ := hadded
      obtain ⟨before, after, rfl⟩ := List.append_of_mem hmem
      rw [exec_append, Option.bind_eq_some_iff] at hrun
      obtain ⟨t, hbefore, hrest⟩ := hrun
      obtain ⟨u, hcall, hafter⟩ := (exec_cons_eq_some _).mp hrest
      have hguarded := hsafe.append_right hbefore
      have hcalled := exec_invariant step_inv hstart hsafe.of_append hbefore
      obtain rfl : addMessage handler t sessionId args = u := Option.some.inj hcall
      have hnew : Inv (insert sessionId s₀.dirtySessions) (addMessage handler t sessionId args) :=
        addMessage_inv hcalled hguarded.1
      refine exec_invariant step_inv ⟨hnew.flush, fun q hq => hnew.tracked q ?_⟩ (hguarded.2 _ hcall) hafter
      exact hq ▸ Set.mem_insert ..
  refine (hinv.tracked sessionId rfl).resolve_left fun hpending => ?_
  rw [hended] at hpending
  exact List.not_mem_nil hpending

/-- As the checkpoint loop calls it, the flush empties the set and writes nothing. -/
theorem exec_without_getter {s : State} {sessions : List String} (hidle : s.flush = .idle)
    (hdirty : s.dirtySessions ≠ ∅) (hlisted : sessions.Nodup ∧ sessions.toFinset = s.dirtySessions) :
    exec (step handler none) s [.start sessions, .resume] =
      some { s with dirtySessions := ∅, flush := .ended } := by
  have hstart : step handler none s (.start sessions) =
      some { s with dirtySessions := ∅, flush := .waiting sessions } := by
    simp only [step, hidle, if_neg hdirty, if_pos hlisted]
  have hall : nextSession none s.contexts sessions = .ended := by
    have hskip : ∀ sessionId ∈ sessions, skips none s.contexts sessionId = true := fun _ _ => rfl
    rw [nextSession, List.dropWhile_eq_nil_iff.mpr hskip]
  rw [exec_cons, hstart, Option.bind_some, exec_cons]
  simp only [step, resume, hall, Option.bind_some, exec_nil]

end Run

/-- One session of a stored tenant, with one message to save. -/
def marked : State where
  db := ⟨[⟨"s1", "acme", "developer", [], "normal", []⟩], [], [], [], 0⟩
  contexts :=
    ⟨fun sessionId =>
      { sessionId := sessionId, userId := "u1", recentMessages := [⟨1, "user", "go on", none, none, none⟩],
        lastSequence := 1, totalMessages := 1, isDirty := true }, fun _ => rfl⟩
  dirtySessions := {"s1"}
  flush := .idle

def stop : NewMessage := ⟨"user", "stop", none, none, none⟩

/-- The run of a flush in which a message is added while the query for the first one is in flight. -/
def seenMessage : List Event :=
  [.start ["s1"], .resume, .resume, .addMessage "s1" stop, .resume, .resume, .resume, .resume]

theorem flush_settles_seenMessage : ∃ s,
    exec (step ⟨10, 100⟩ (some fun _ => true)) marked seenMessage = some s ∧ Settled s "s1" := by
  obtain ⟨s, hrun⟩ : ∃ s, exec (step ⟨10, 100⟩ (some fun _ => true)) marked seenMessage = some s :=
    Option.isSome_iff_exists.mp (by decide +kernel)
  have hended : ∀ t ∈ exec (step ⟨10, 100⟩ (some fun _ => true)) marked seenMessage, t.flush = .ended := by
    decide +kernel
  exact ⟨s, hrun, flush_settles ⟨10, 100⟩ (some fun _ => true) marked s seenMessage rfl (by decide +kernel) hrun
    (hended s hrun) "s1" (Or.inl (by decide))⟩

/-- The same message, added while the commit is in flight. -/
def lateMessage : List Event :=
  [.start ["s1"], .resume, .resume, .resume, .addMessage "s1" stop, .resume, .resume]

/-- The late message has no row, and the flag of its session is cleared. -/
theorem late_message_unsettled : ¬ ∀ (s : State) (events : List Event),
    exec (step ⟨10, 100⟩ (some fun _ => true)) marked events = some s → s.flush = .ended →
      ∀ sessionId, (sessionId ∈ marked.dirtySessions ∨ ∃ args, Event.addMessage sessionId args ∈ events) →
        Settled s sessionId := by
  intro h
  obtain ⟨s, hrun⟩ : ∃ s, exec (step ⟨10, 100⟩ (some fun _ => true)) marked lateMessage = some s :=
    Option.isSome_iff_exists.mp (by decide +kernel)
  have hend : ∀ t ∈ exec (step ⟨10, 100⟩ (some fun _ => true)) marked lateMessage,
      t.flush = .ended ∧ ¬Settled t "s1" := by
    decide +kernel
  exact (hend s hrun).2 (h s lateMessage hrun (hend s hrun).1 "s1" (Or.inl (by decide)))

end KernelRuntime.CheckpointManager
