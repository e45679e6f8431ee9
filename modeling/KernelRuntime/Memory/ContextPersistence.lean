import Mathlib.Data.List.Pairwise
import KernelRuntime.Foundations.Execution
import KernelRuntime.Memory.SessionContext

/-! # What a context manager stores

A record is in the recent messages of a cached context until the manager stops and writes it to the
table. It is lost when its context was never cached, leaves the cache or is replaced there, when it
moves to a window, when its number is given to another row, and when two rows of one number make `stop` raise. -/

namespace KernelRuntime.ContextPersistence
set_option autoImplicit false

variable {lib : LruLibrary String SessionContext}

/-! ## What should be stored -/

/-- The row holds the record. -/
structure Holds (sessionId : String) (m : Message) (row : MessageModel) : Prop where
  sessionId : row.sessionId = sessionId
  sequence : row.sequence = m.sequence
  role : row.role = m.role
  content : row.content = m.content
  taskId : row.taskId = m.taskId

instance (sessionId : String) (m : Message) (row : MessageModel) : Decidable (Holds sessionId m row) :=
  decidable_of_iff (row.sessionId = sessionId ∧ row.sequence = m.sequence ∧ row.role = m.role ∧
    row.content = m.content ∧ row.taskId = m.taskId)
    ⟨fun ⟨a, b, c, d, e⟩ => ⟨a, b, c, d, e⟩, fun ⟨a, b, c, d, e⟩ => ⟨a, b, c, d, e⟩⟩

/-- Every record that `add_message` returned has a row of its session to itself. -/
def AllStored (s : State lib) : Prop :=
  ∀ a ∈ s.accepted, (s.db.messages.countP fun row => decide (Holds a.1 a.2 row)) = s.accepted.count a

instance (s : State lib) : Decidable (AllStored s) := inferInstanceAs (Decidable (∀ a ∈ s.accepted, _))

/-! ## Where nothing is lost -/

/-- The context that is cached takes no place of one with unsaved messages, nor puts one out. -/
structure StoreSafe (s : State lib) (context : SessionContext) : Prop where
  replaced : ∀ old, lib.get? s.cache context.sessionId = some old → old.isDirty = false
  evicted : ∀ sessionId old, lib.get? s.cache sessionId = some old →
    lib.get? (lib.set s.cache context.sessionId context) sessionId = none → old.isDirty = false

/-- The session is stored, the number of the new record is free, and what leaves the recent messages
has a row. -/
structure RecordSafe (s : State lib) (sessionId : String) (context : SessionContext) (args : NewMessage) :
    Prop where
  session : s.db.findSession sessionId ≠ none
  number : ∀ row ∈ s.db.visible, row.sessionId = sessionId → row.sequence ≠ context.lastSequence + 1
  window : ∀ m ∈ oldMessages (context.recentMessages ++ [newRecord context args]),
    ∃ row ∈ s.db.messages, row.sessionId = sessionId ∧ row.sequence = m.sequence

/-- The message goes to a cached context, or to none. -/
structure AddSafe (userIds : String → String) (s : State lib) (sessionId : String) (args : NewMessage) :
    Prop where
  cached : ∀ context, lib.get? s.cache sessionId = some context → RecordSafe s sessionId context args
  missing : lib.get? s.cache sessionId = none → ∀ session, s.db.findSession sessionId = some session →
    userIds sessionId = "" ∨
      ∀ row ∈ s.db.messages, row.sessionId = sessionId → row.tenantId ≠ session.tenantId

/-- No number of the recent messages has two rows. -/
def Unambiguous (db : Database) (sessionId : String) (context : SessionContext) : Prop :=
  ∀ m ∈ context.recentMessages, (existing db sessionId (db.tenantOf sessionId) m).length ≤ 1

/-- The event loses no record. -/
def Safe (userIds : String → String) (s : State lib) : Event → Prop
  | .store n => ∀ context, s.loading[n]? = some context → StoreSafe s context
  | .addMessage sessionId args => AddSafe userIds s sessionId args
  | .persist sessionId _ => ∀ a ∈ s.accepted, a.1 = sessionId →
      nextSequence s.db.visible sessionId (s.db.tenantOf sessionId) ≠ a.2.sequence
  | .stop => ∀ sessionId context, lib.get? s.cache sessionId = some context → context.isDirty = true →
      Unambiguous s.db sessionId context
  | _ => True

/-! ## Rows by number -/

def rowsAt (rows : List MessageModel) (sessionId : String) (n : ℤ) : List MessageModel :=
  rows.filter fun r => decide (r.sessionId = sessionId ∧ r.sequence = n)

theorem rowsAt_append (rows rows' : List MessageModel) (sessionId : String) (n : ℤ) :
    rowsAt (rows ++ rows') sessionId n = rowsAt rows sessionId n ++ rowsAt rows' sessionId n :=
  List.filter_append ..

theorem mem_rowsAt {rows : List MessageModel} {sessionId : String} {n : ℤ} {r : MessageModel} :
    r ∈ rowsAt rows sessionId n ↔ r ∈ rows ∧ r.sessionId = sessionId ∧ r.sequence = n := by
  rw [rowsAt, List.mem_filter, decide_eq_true_eq]

theorem rowsAt_eq_nil_iff {rows : List MessageModel} {sessionId : String} {n : ℤ} :
    rowsAt rows sessionId n = [] ↔ ∀ r ∈ rows, r.sessionId = sessionId → r.sequence ≠ n := by
  rw [rowsAt, List.filter_eq_nil_iff]
  simp only [decide_eq_true_eq, not_and, ne_eq]

/-- The number of a session and tenant has a row that is committed. -/
def Known (db : Database) (sessionId : String) (n : ℤ) : Prop :=
  ∃ row ∈ db.messages, row.sessionId = sessionId ∧ row.sequence = n ∧
    row.tenantId = db.tenantOf sessionId

/-- The record has the only row of its number. -/
def Stored (db : Database) (sessionId : String) (m : Message) : Prop :=
  ∃ row ∈ db.messages, rowsAt db.visible sessionId m.sequence = [row] ∧ Holds sessionId m row ∧
    row.tenantId = db.tenantOf sessionId

theorem Stored.known {db : Database} {sessionId : String} {m : Message} (h : Stored db sessionId m) :
    Known db sessionId m.sequence := by
  obtain ⟨row, hmem, -, hholds, htenant⟩ := h
  exact ⟨row, hmem, hholds.sessionId, hholds.sequence, htenant⟩

/-- The only visible row of a number is the only committed one, when it is committed. -/
theorem rowsAt_messages {db : Database} {sessionId : String} {n : ℤ} {row : MessageModel}
    (hmem : row ∈ db.messages) (hrows : rowsAt db.visible sessionId n = [row]) :
    rowsAt db.messages sessionId n = [row] := by
  have hat : row ∈ rowsAt db.visible sessionId n := by
    rw [hrows]
    exact List.mem_singleton_self row
  have hin : row ∈ rowsAt db.messages sessionId n := mem_rowsAt.mpr ⟨hmem, (mem_rowsAt.mp hat).2⟩
  unfold Database.visible at hrows
  rw [rowsAt_append] at hrows
  rcases List.append_eq_singleton_iff.mp hrows with ⟨hnil, -⟩ | ⟨hone, -⟩
  · rw [hnil] at hin
    cases hin
  · exact hone

theorem Stored.countP_eq_one {db : Database} {sessionId : String} {m : Message}
    (h : Stored db sessionId m) :
    (db.messages.countP fun row => decide (Holds sessionId m row)) = 1 := by
  obtain ⟨row, hmem, hrows, hholds, -⟩ := h
  have honly := rowsAt_messages hmem hrows
  have hsplit : (db.messages.filter fun r => decide (Holds sessionId m r)) =
      (rowsAt db.messages sessionId m.sequence).filter fun r => decide (Holds sessionId m r) := by
    unfold rowsAt
    rw [List.filter_filter]
    refine List.filter_congr fun r _ => ?_
    by_cases hr : Holds sessionId m r
    · simp [hr, hr.sessionId, hr.sequence]
    · simp [hr]
  rw [List.countP_eq_length_filter, hsplit, honly]
  simp [hholds]

/-! ## Writing the recent messages -/

section Persist
variable {sessionId tenantId : String} {db db' : Database}

theorem mem_existing {msg : Message} {row : MessageModel} : row ∈ existing db sessionId tenantId msg ↔
    row ∈ db.messages ∧ row.sessionId = sessionId ∧ row.sequence = msg.sequence ∧ row.tenantId = tenantId := by
  rw [existing, List.mem_filter, decide_eq_true_eq]

/-- What the body of the loop does when it does not raise. -/
theorem persistRecord_cases {msg : Message} (h : persistRecord sessionId tenantId db msg = some db') :
    (∃ row, existing db sessionId tenantId msg = [row]) ∧ db' = db ∨
      existing db sessionId tenantId msg = [] ∧
        db' = { db with messages := db.messages ++ [messageRow db.nextId sessionId tenantId msg],
                        nextId := db.nextId + 1 } := by
  unfold persistRecord at h
  cases hrows : existing db sessionId tenantId msg with
  | nil =>
    rw [hrows] at h
    exact Or.inr ⟨rfl, (Option.some.inj h).symm⟩
  | cons row more =>
    rw [hrows] at h
    cases more with
    | nil => exact Or.inl ⟨⟨row, rfl⟩, (Option.some.inj h).symm⟩
    | cons row' more => cases h

theorem persistRecord_isSome {msg : Message} (h : (existing db sessionId tenantId msg).length ≤ 1) :
    ∃ db', persistRecord sessionId tenantId db msg = some db' := by
  unfold persistRecord
  cases hrows : existing db sessionId tenantId msg with
  | nil => exact ⟨_, rfl⟩
  | cons row more =>
    cases more with
    | nil => exact ⟨_, rfl⟩
    | cons row' more =>
      rw [hrows] at h
      simp at h

/-- No number gets a second row. -/
theorem length_existing_persistRecord {msg : Message} (h : persistRecord sessionId tenantId db msg = some db')
    {other : Message} (hother : (existing db sessionId tenantId other).length ≤ 1) :
    (existing db' sessionId tenantId other).length ≤ 1 := by
  rcases persistRecord_cases h with ⟨-, rfl⟩ | ⟨hnone, rfl⟩
  · exact hother
  · unfold existing at hnone hother ⊢
    rw [List.filter_append, List.length_append]
    by_cases hnumber : other.sequence = msg.sequence
    · rw [hnumber, hnone]
      exact (Nat.zero_add _).le.trans (List.length_filter_le ..)
    · have hadded : [messageRow db.nextId sessionId tenantId msg].filter (fun r =>
          decide (r.sessionId = sessionId ∧ r.sequence = other.sequence ∧ r.tenantId = tenantId)) = [] := by
        simp [messageRow, Ne.symm hnumber]
      rw [hadded]
      exact hother

theorem persistRecord_frame {msg : Message} (h : persistRecord sessionId tenantId db msg = some db') :
    db'.sessions = db.sessions ∧ db'.flushed = db.flushed ∧ ∀ row ∈ db.messages, row ∈ db'.messages := by
  rcases persistRecord_cases h with ⟨-, rfl⟩ | ⟨-, rfl⟩
  · exact ⟨rfl, rfl, fun _ hrow => hrow⟩
  · exact ⟨rfl, rfl, fun _ hrow => List.mem_append_left _ hrow⟩

theorem Database.tenantOf_congr (h : db'.sessions = db.sessions) (q : String) : db'.tenantOf q = db.tenantOf q := by
  unfold Database.tenantOf Database.findSession
  rw [h]

theorem Known.mono {n : ℤ} (h : Known db sessionId n) (hsessions : db'.sessions = db.sessions)
    (hmem : ∀ row ∈ db.messages, row ∈ db'.messages) : Known db' sessionId n := by
  obtain ⟨row, hrow, hsession, hnumber, htenant⟩ := h
  exact ⟨row, hmem row hrow, hsession, hnumber, htenant.trans (Database.tenantOf_congr hsessions sessionId).symm⟩

/-- A record changes the rows of its own number alone. -/
theorem rowsAt_persistRecord_ne {msg : Message} (h : persistRecord sessionId tenantId db msg = some db')
    {q : String} {n : ℤ} (hne : ¬ (q = sessionId ∧ n = msg.sequence)) :
    rowsAt db'.messages q n = rowsAt db.messages q n := by
  rcases persistRecord_cases h with ⟨-, rfl⟩ | ⟨-, rfl⟩
  · rfl
  · have hother : rowsAt [messageRow db.nextId sessionId tenantId msg] q n = [] := by
      rw [rowsAt_eq_nil_iff]
      intro r hr hsession hnumber
      rw [List.mem_singleton.mp hr] at hsession hnumber
      exact hne ⟨hsession.symm, hnumber.symm⟩
    rw [rowsAt_append, hother, List.append_nil]

/-- A number that is taken is passed over. -/
theorem eq_of_persistRecord_known {msg : Message} (h : persistRecord sessionId tenantId db msg = some db')
    (htenant : db.tenantOf sessionId = tenantId) (hknown : Known db sessionId msg.sequence) : db' = db := by
  obtain ⟨row, hmem, hsession, hnumber, hrow⟩ := hknown
  have hin : row ∈ existing db sessionId tenantId msg :=
    mem_existing.mpr ⟨hmem, hsession, hnumber, hrow.trans htenant⟩
  rcases persistRecord_cases h with ⟨-, rfl⟩ | ⟨hnone, -⟩
  · rfl
  · rw [hnone] at hin
    cases hin

/-- A free number gets one row. -/
theorem rowsAt_persistRecord_self {msg : Message} (h : persistRecord sessionId tenantId db msg = some db')
    (hfree : rowsAt db.messages sessionId msg.sequence = []) :
    rowsAt db'.messages sessionId msg.sequence = [messageRow db.nextId sessionId tenantId msg] := by
  rcases persistRecord_cases h with ⟨⟨row, hrow⟩, -⟩ | ⟨-, rfl⟩
  · have hin : row ∈ existing db sessionId tenantId msg := by
      rw [hrow]
      exact List.mem_singleton_self row
    obtain ⟨hmem, hsession, hnumber, -⟩ := mem_existing.mp hin
    exact absurd hnumber (rowsAt_eq_nil_iff.mp hfree row hmem hsession)
  · rw [rowsAt_append, hfree]
    simp [rowsAt, messageRow]

/-! ### The loop -/

theorem persistRecords_cons {msg : Message} {msgs : List Message}
    (h : (msg :: msgs).foldlM (persistRecord sessionId tenantId) db = some db') :
    ∃ db₁, persistRecord sessionId tenantId db msg = some db₁ ∧
      msgs.foldlM (persistRecord sessionId tenantId) db₁ = some db' :=
  Option.bind_eq_some_iff.mp h

theorem persistRecords_isSome {msgs : List Message}
    (h : ∀ msg ∈ msgs, (existing db sessionId tenantId msg).length ≤ 1) :
    ∃ db', msgs.foldlM (persistRecord sessionId tenantId) db = some db' := by
  induction msgs generalizing db with
  | nil => exact ⟨db, rfl⟩
  | cons msg rest ih =>
    obtain ⟨db₁, hmsg⟩ := persistRecord_isSome (h msg List.mem_cons_self)
    obtain ⟨db', hrest⟩ := ih fun other hother =>
      length_existing_persistRecord hmsg (h other (List.mem_cons_of_mem _ hother))
    exact ⟨db', Option.bind_eq_some_iff.mpr ⟨db₁, hmsg, hrest⟩⟩

theorem persistRecords_frame {msgs : List Message}
    (h : msgs.foldlM (persistRecord sessionId tenantId) db = some db') :
    db'.sessions = db.sessions ∧ db'.flushed = db.flushed ∧ ∀ row ∈ db.messages, row ∈ db'.messages := by
  induction msgs generalizing db with
  | nil =>
    cases h
    exact ⟨rfl, rfl, fun _ hrow => hrow⟩
  | cons msg rest ih =>
    obtain ⟨db₁, hmsg, hrest⟩ := persistRecords_cons h
    obtain ⟨hsessions, hflushed, hmem⟩ := persistRecord_frame hmsg
    obtain ⟨hsessions', hflushed', hmem'⟩ := ih hrest
    exact ⟨hsessions'.trans hsessions, hflushed'.trans hflushed, fun row hrow => hmem' row (hmem row hrow)⟩

theorem rowsAt_persistRecords_of_ne {q : String} {n : ℤ} {msgs : List Message}
    (h : msgs.foldlM (persistRecord sessionId tenantId) db = some db')
    (hne : ∀ msg ∈ msgs, ¬ (q = sessionId ∧ n = msg.sequence)) :
    rowsAt db'.messages q n = rowsAt db.messages q n := by
  induction msgs generalizing db with
  | nil =>
    cases h
    rfl
  | cons msg rest ih =>
    obtain ⟨db₁, hmsg, hrest⟩ := persistRecords_cons h
    exact (ih hrest fun m hm => hne m (List.mem_cons_of_mem _ hm)).trans
      (rowsAt_persistRecord_ne hmsg (hne msg List.mem_cons_self))

theorem rowsAt_persistRecords_of_known {n : ℤ} {msgs : List Message}
    (h : msgs.foldlM (persistRecord sessionId tenantId) db = some db') (htenant : db.tenantOf sessionId = tenantId)
    (hknown : Known db sessionId n) : rowsAt db'.messages sessionId n = rowsAt db.messages sessionId n := by
  induction msgs generalizing db with
  | nil =>
    cases h
    rfl
  | cons msg rest ih =>
    obtain ⟨db₁, hmsg, hrest⟩ := persistRecords_cons h
    obtain ⟨hsessions, -, hmem⟩ := persistRecord_frame hmsg
    refine (ih hrest ((Database.tenantOf_congr hsessions _).trans htenant) (hknown.mono hsessions hmem)).trans ?_
    by_cases hn : n = msg.sequence
    · rw [hn] at hknown
      rw [eq_of_persistRecord_known hmsg htenant hknown]
    · exact rowsAt_persistRecord_ne hmsg fun hand => hn hand.2

/-- **A record whose number is free, and its own in the list, gets the only row of its number.** -/
theorem rowsAt_persistRecords_of_free {m : Message} {msgs : List Message}
    (h : msgs.foldlM (persistRecord sessionId tenantId) db = some db') (htenant : db.tenantOf sessionId = tenantId)
    (hmem : m ∈ msgs) (hown : ∀ m' ∈ msgs, m'.sequence = m.sequence → m' = m)
    (hfree : rowsAt db.messages sessionId m.sequence = []) :
    ∃ id, rowsAt db'.messages sessionId m.sequence = [messageRow id sessionId tenantId m] := by
  induction msgs generalizing db with
  | nil => cases hmem
  | cons msg rest ih =>
    obtain ⟨db₁, hmsg, hrest⟩ := persistRecords_cons h
    have htenant' := (Database.tenantOf_congr (persistRecord_frame hmsg).1 sessionId).trans htenant
    by_cases hsame : msg.sequence = m.sequence
    · obtain rfl : msg = m := hown msg List.mem_cons_self hsame
      have hrow := rowsAt_persistRecord_self hmsg hfree
      have hin : messageRow db.nextId sessionId tenantId msg ∈ rowsAt db₁.messages sessionId msg.sequence := by
        rw [hrow]
        exact List.mem_singleton_self _
      obtain ⟨hin, hsession, hnumber⟩ := mem_rowsAt.mp hin
      have hknown : Known db₁ sessionId msg.sequence := ⟨_, hin, hsession, hnumber, htenant'.symm⟩
      exact ⟨db.nextId, (rowsAt_persistRecords_of_known hrest htenant' hknown).trans hrow⟩
    · have hlater : m ∈ rest := by
        rcases List.mem_cons.mp hmem with rfl | hmem
        · exact absurd rfl hsame
        · exact hmem
      refine ih hrest htenant' hlater (fun m' hm' => hown m' (List.mem_cons_of_mem _ hm')) ?_
      rw [rowsAt_persistRecord_ne hmsg fun hand => hsame hand.2.symm]
      exact hfree

end Persist

/-! ## The invariant -/

/-- The record is not stored yet: it is in a cached context, and its number is free. -/
structure Pending (s : State lib) (sessionId : String) (m : Message) : Prop where
  cached : ∃ context, lib.get? s.cache sessionId = some context ∧ context.isDirty = true ∧
    m ∈ context.recentMessages
  free : rowsAt s.db.visible sessionId m.sequence = []

/-- The recent messages of a context are records that were returned, or were loaded. -/
structure ContextFits (s : State lib) (sessionId : String) (context : SessionContext) : Prop where
  owner : context.sessionId = sessionId
  numbered : ∀ m ∈ context.recentMessages, m.sequence ≤ context.lastSequence
  recent : ∀ m ∈ context.recentMessages, (sessionId, m) ∈ s.accepted ∨ Known s.db sessionId m.sequence

/-- Two records of one session have different numbers. -/
def Apart (a b : String × Message) : Prop := a.1 = b.1 → a.2.sequence ≠ b.2.sequence

instance : Std.Symm Apart := ⟨fun _ _ hab hba heq => hab hba.symm heq.symm⟩

structure Inv (s : State lib) : Prop where
  kept : ∀ a ∈ s.accepted, Stored s.db a.1 a.2 ∨ Pending s a.1 a.2
  distinct : s.accepted.Pairwise Apart
  session : ∀ a ∈ s.accepted, s.db.findSession a.1 ≠ none
  cached : ∀ sessionId context, lib.get? s.cache sessionId = some context → ContextFits s sessionId context
  loading : ∀ context ∈ s.loading, ContextFits s context.sessionId context

/-- A manager that was just started. -/
structure Started (s : State lib) : Prop where
  cache : s.cache = lib.new cacheSize
  loading : s.loading = []
  accepted : s.accepted = []

theorem Started.inv {s : State lib} (h : Started s) : Inv s where
  kept := by
    rw [h.accepted]
    exact nofun
  distinct := by
    rw [h.accepted]
    exact List.Pairwise.nil
  session := by
    rw [h.accepted]
    exact nofun
  cached := by
    intro sessionId context hget
    rw [h.cache, lib.get?_new] at hget
    cases hget
  loading := by
    rw [h.loading]
    exact nofun

theorem ContextFits.mono {s s' : State lib} {sessionId : String} {context : SessionContext}
    (h : ContextFits s sessionId context) (haccepted : ∀ a ∈ s.accepted, a ∈ s'.accepted)
    (hknown : ∀ n, Known s.db sessionId n → Known s'.db sessionId n) :
    ContextFits s' sessionId context where
  owner := h.owner
  numbered := h.numbered
  recent := fun m hm => (h.recent m hm).imp (haccepted _) (hknown _)

theorem Stored.mono {db db' : Database} {sessionId : String} {m : Message} (h : Stored db sessionId m)
    (hsessions : db'.sessions = db.sessions) (hmem : ∀ row ∈ db.messages, row ∈ db'.messages)
    (hrows : rowsAt db'.visible sessionId m.sequence = rowsAt db.visible sessionId m.sequence) :
    Stored db' sessionId m := by
  obtain ⟨row, hrow, honly, hholds, htenant⟩ := h
  refine ⟨row, hmem row hrow, hrows.trans honly, hholds, ?_⟩
  unfold Database.tenantOf Database.findSession
  rw [hsessions]
  exact htenant

theorem Inv.record_eq {s : State lib} (h : Inv s) {sessionId : String} {m m' : Message}
    (hm : (sessionId, m) ∈ s.accepted) (hm' : (sessionId, m') ∈ s.accepted)
    (hnumber : m'.sequence = m.sequence) : m' = m := by
  by_contra hne
  have hpair : (sessionId, m) ≠ (sessionId, m') := fun heq => hne (Prod.mk.inj heq).2.symm
  exact h.distinct.forall hm hm' hpair rfl hnumber.symm

/-! ## Steps that change the database alone -/

/-- The rows at the numbers of the returned records stay. -/
theorem Inv.of_db {s : State lib} (h : Inv s) {db : Database} (hsessions : db.sessions = s.db.sessions)
    (hmem : ∀ row ∈ s.db.messages, row ∈ db.messages)
    (hrows : ∀ a ∈ s.accepted, rowsAt db.visible a.1 a.2.sequence = rowsAt s.db.visible a.1 a.2.sequence) :
    Inv { s with db := db } where
  kept := by
    intro a ha
    refine (h.kept a ha).imp (fun hstored => hstored.mono hsessions hmem (hrows a ha)) fun hpending => ?_
    exact ⟨hpending.cached, (hrows a ha).trans hpending.free⟩
  distinct := h.distinct
  session := by
    intro a ha
    unfold Database.findSession
    rw [hsessions]
    exact h.session a ha
  cached := fun sessionId context hget =>
    (h.cached sessionId context hget).mono (fun _ ha => ha) fun _ hknown => hknown.mono hsessions hmem
  loading := fun context hcontext =>
    (h.loading context hcontext).mono (fun _ ha => ha) fun _ hknown => hknown.mono hsessions hmem

theorem Inv.persist {s : State lib} (h : Inv s) {sessionId : String} (turn : Turn)
    (hsafe : ∀ a ∈ s.accepted, a.1 = sessionId →
      nextSequence s.db.visible sessionId (s.db.tenantOf sessionId) ≠ a.2.sequence) :
    Inv { s with db := (s.db.persistMessage nextSequence sessionId turn).2 } := by
  refine h.of_db rfl (fun _ hrow => hrow) fun a ha => ?_
  have hother : rowsAt [(s.db.persistMessage nextSequence sessionId turn).1] a.1 a.2.sequence = [] := by
    rw [rowsAt_eq_nil_iff]
    intro row hrow hsession hnumber
    rw [List.mem_singleton.mp hrow] at hsession hnumber
    exact hsafe a ha hsession.symm hnumber
  rw [Database.visible_persistMessage, rowsAt_append, hother, List.append_nil]

theorem Inv.commit {s : State lib} (h : Inv s) : Inv { s with db := s.db.commit } := by
  refine h.of_db rfl (fun _ hrow => List.mem_append_left _ hrow) fun a _ => ?_
  rw [Database.visible_commit]

theorem Inv.rollback {s : State lib} (h : Inv s) : Inv { s with db := s.db.rollback } := by
  refine h.of_db rfl (fun _ hrow => hrow) fun a ha => ?_
  have hvisible : s.db.rollback.visible = s.db.messages := List.append_nil _
  rw [hvisible]
  rcases h.kept a ha with ⟨row, hrow, honly, -, -⟩ | hpending
  · rw [honly]
    exact rowsAt_messages hrow honly
  · have hfree := hpending.free
    rw [hfree]
    unfold Database.visible at hfree
    rw [rowsAt_append] at hfree
    exact (List.append_eq_nil_iff.mp hfree).1

/-! ## Loading and caching -/

theorem le_foldl_max (l : List ℤ) (a : ℤ) : a ≤ l.foldl max a ∧ ∀ x ∈ l, x ≤ l.foldl max a := by
  induction l generalizing a with
  | nil => exact ⟨le_refl a, nofun⟩
  | cons y rest ih =>
    obtain ⟨hinit, hrest⟩ := ih (max a y)
    refine ⟨(le_max_left a y).trans hinit, fun x hx => ?_⟩
    rcases List.mem_cons.mp hx with rfl | hx
    · exact (le_max_right a x).trans hinit
    · exact hrest x hx

theorem mem_recentRows {rows : List MessageModel} {sessionId tenantId : String} {row : MessageModel}
    (h : row ∈ recentRows rows sessionId tenantId) :
    row ∈ rows ∧ row.sessionId = sessionId ∧ row.tenantId = tenantId := by
  unfold recentRows at h
  have hsorted := List.mem_of_mem_take (List.mem_reverse.mp h)
  rw [List.mem_insertionSort, List.mem_filter, decide_eq_true_eq] at hsorted
  exact hsorted

/-- A loaded context holds messages that have rows. -/
theorem loadFromDb_fits {s : State lib} {sessionId userId : String} {context : SessionContext}
    (h : loadFromDb s.db sessionId userId = some context) :
    context.sessionId = sessionId ∧ ContextFits s sessionId context := by
  unfold loadFromDb at h
  cases hsession : s.db.findSession sessionId with
  | none =>
    rw [hsession] at h
    cases h
  | some session =>
    rw [hsession] at h
    simp only at h
    cases hrows : recentRows s.db.messages sessionId session.tenantId with
    | nil =>
      rw [hrows] at h
      cases h
    | cons row rows =>
      rw [hrows] at h
      cases h
      refine ⟨rfl, rfl, fun m hm => ?_, fun m hm => Or.inr ?_⟩
      · obtain ⟨r, hr, rfl⟩ := List.mem_map.mp hm
        exact (le_foldl_max _ 0).2 _ (List.mem_map_of_mem hr)
      · obtain ⟨r, hr, rfl⟩ := List.mem_map.mp hm
        rw [← hrows] at hr
        obtain ⟨hmem, hown, htenant⟩ := mem_recentRows hr
        refine ⟨r, hmem, hown, rfl, ?_⟩
        unfold Database.tenantOf
        rw [hsession]
        exact htenant

/-- The states agree on what the invariant is about, apart from the contexts that are loading. -/
theorem Inv.congr {s s' : State lib} (h : Inv s) (hdb : s'.db = s.db) (haccepted : s'.accepted = s.accepted)
    (hcache : ∀ sessionId, lib.get? s'.cache sessionId = lib.get? s.cache sessionId)
    (hloading : ∀ context ∈ s'.loading, ContextFits s context.sessionId context) : Inv s' where
  kept := by
    rw [haccepted, hdb]
    refine fun a ha => (h.kept a ha).imp_right fun hpending => ⟨?_, hdb ▸ hpending.free⟩
    rw [hcache]
    exact hpending.cached
  distinct := haccepted ▸ h.distinct
  session := by
    rw [haccepted, hdb]
    exact h.session
  cached := by
    intro sessionId context hget
    rw [hcache] at hget
    exact (h.cached sessionId context hget).mono (fun _ ha => haccepted ▸ ha) fun _ hknown => hdb ▸ hknown
  loading := fun context hmem =>
    (hloading context hmem).mono (fun _ ha => haccepted ▸ ha) fun _ hknown => hdb ▸ hknown

theorem Inv.lookUp {s : State lib} (h : Inv s) (sessionId userId : String) :
    Inv (lookUpContext s sessionId userId) := by
  unfold lookUpContext
  cases lib.get? s.cache sessionId with
  | some context => exact h.congr rfl rfl (fun _ => lib.get?_touch _ _ _) h.loading
  | none =>
    refine h.congr rfl rfl (fun _ => rfl) fun context hmem => ?_
    rcases List.mem_append.mp hmem with hmem | hmem
    · exact h.loading context hmem
    · rw [List.mem_singleton.mp hmem]
      cases hload : loadFromDb s.db sessionId userId with
      | none => exact ⟨rfl, nofun, nofun⟩
      | some loaded =>
        obtain ⟨howner, hfits⟩ := loadFromDb_fits hload
        rw [Option.getD_some, howner]
        exact hfits

/-- **Caching a context keeps the records, when no unsaved one is replaced or put out.** -/
theorem Inv.store {s s' : State lib} (h : Inv s) {n : ℕ} (hstep : storeContext s n = some s')
    (hsafe : ∀ context, s.loading[n]? = some context → StoreSafe s context) : Inv s' := by
  unfold storeContext at hstep
  obtain ⟨context, hcontext, rfl⟩ := Option.map_eq_some_iff.mp hstep
  obtain ⟨hreplaced, hevicted⟩ := hsafe context hcontext
  refine ⟨fun a ha => (h.kept a ha).imp_right fun hpending => ⟨?_, hpending.free⟩, h.distinct, h.session,
    fun sessionId old hget => ?_, fun other hmem => ?_⟩
  · obtain ⟨old, hold, hdirty, hm⟩ := hpending.cached
    refine ⟨old, ?_, hdirty, hm⟩
    cases hget : lib.get? (lib.set s.cache context.sessionId context) a.1 with
    | none =>
      rw [hevicted a.1 old hold hget] at hdirty
      cases hdirty
    | some other =>
      rcases lib.get?_of_set hget with ⟨hkey, -⟩ | ⟨-, hsame⟩
      · rw [hkey] at hold
        rw [hreplaced old hold] at hdirty
        cases hdirty
      · exact hsame.symm.trans hold
  · rcases lib.get?_of_set hget with ⟨rfl, rfl⟩ | ⟨-, hsame⟩
    · exact (h.loading _ (List.mem_of_getElem? hcontext)).mono (fun _ ha => ha) fun _ hknown => hknown
    · exact (h.cached sessionId old hsame).mono (fun _ ha => ha) fun _ hknown => hknown
  · exact (h.loading other (List.mem_of_mem_eraseIdx hmem)).mono (fun _ ha => ha) fun _ hknown => hknown

/-! ## Adding a message -/

theorem mem_handled_recent {context : SessionContext} {args : NewMessage} {m : Message}
    (h : m ∈ (handleMessage context args).2.recentMessages) :
    m ∈ context.recentMessages ∨ m = newRecord context args := by
  rcases List.mem_append.mp (List.mem_of_mem_drop h) with hold | hnew
  · exact Or.inl hold
  · exact Or.inr (List.mem_singleton.mp hnew)

theorem newRecord_mem_recent (context : SessionContext) (args : NewMessage) :
    newRecord context args ∈ (handleMessage context args).2.recentMessages := by
  have hlong : (context.recentMessages ++ [newRecord context args]).length - maxRecent ≤
      context.recentMessages.length := by
    rw [List.length_append, List.length_singleton]
    unfold maxRecent
    omega
  show _ ∈ List.drop ((context.recentMessages ++ [newRecord context args]).length - maxRecent)
    (context.recentMessages ++ [newRecord context args])
  rw [List.drop_append_of_le_length hlong]
  exact List.mem_append_right _ (List.mem_singleton_self _)

theorem mem_recent_or_old {context : SessionContext} (args : NewMessage) {m : Message}
    (h : m ∈ context.recentMessages) : m ∈ oldMessages (context.recentMessages ++ [newRecord context args]) ∨
      m ∈ (handleMessage context args).2.recentMessages := by
  have hboth : m ∈ context.recentMessages ++ [newRecord context args] := List.mem_append_left _ h
  rw [← List.take_append_drop ((context.recentMessages ++ [newRecord context args]).length - maxRecent)
    (context.recentMessages ++ [newRecord context args])] at hboth
  exact List.mem_append.mp hboth

/-- The recent messages fit with the new record among them. -/
theorem ContextFits.handled {s s' : State lib} {sessionId : String} {context : SessionContext}
    (h : ContextFits s sessionId context) (args : NewMessage)
    (hrecord : (sessionId, newRecord context args) ∈ s'.accepted) (haccepted : ∀ a ∈ s.accepted, a ∈ s'.accepted)
    (hdb : s'.db = s.db) : ContextFits s' sessionId (handleMessage context args).2 := by
  refine ⟨h.owner, fun m hm => ?_, fun m hm => ?_⟩
  · show m.sequence ≤ context.lastSequence + 1
    rcases mem_handled_recent hm with hold | rfl
    · have hle := h.numbered m hold
      omega
    · exact le_refl _
  · rw [hdb]
    rcases mem_handled_recent hm with hold | rfl
    · exact (h.recent m hold).imp_left (haccepted _)
    · exact Or.inl hrecord

/-- What waits in the recent messages of the context still does. -/
theorem Pending.handled {s : State lib} {sessionId : String} {context : SessionContext} {args : NewMessage} {m : Message}
    (h : Pending s sessionId m) (hget : lib.get? s.cache sessionId = some context)
    (hsafe : RecordSafe s sessionId context args) : m ∈ (handleMessage context args).2.recentMessages := by
  obtain ⟨old, hold, -, hm⟩ := h.cached
  rw [hget] at hold
  cases hold
  refine (mem_recent_or_old args hm).resolve_left fun hwin => ?_
  -- what moves to a window has a row, and what waits has none
  obtain ⟨row, hrow, hrowSession, hrowNumber⟩ := hsafe.window m hwin
  exact rowsAt_eq_nil_iff.mp h.free row (List.mem_append_left _ hrow) hrowSession hrowNumber

/-- The new record has a number of its own. -/
theorem Inv.apart_newRecord {s : State lib} (h : Inv s) {sessionId : String} {args : NewMessage}
    {context : SessionContext} (hget : lib.get? s.cache sessionId = some context)
    (hnumber : ∀ row ∈ s.db.visible, row.sessionId = sessionId → row.sequence ≠ context.lastSequence + 1) :
    ∀ a ∈ s.accepted, Apart a (sessionId, newRecord context args) := by
  intro a ha hown hsame
  rcases h.kept a ha with hstored | hpending
  · obtain ⟨row, hrow, hrowSession, hrowNumber, -⟩ := hstored.known
    exact hnumber row (List.mem_append_left _ hrow) (hrowSession.trans hown) (hrowNumber.trans hsame)
  · obtain ⟨old, hold, -, hm⟩ := hpending.cached
    rw [hown, hget] at hold
    cases hold
    have hle := (h.cached sessionId context hget).numbered a.2 hm
    have heq : a.2.sequence = context.lastSequence + 1 := hsame
    omega

/-- **A message that is added to a cached context is kept, and none of the others is lost.** -/
theorem Inv.addCached {s : State lib} (h : Inv s) {sessionId : String} {args : NewMessage}
    {context : SessionContext} (hget : lib.get? s.cache sessionId = some context)
    (hsafe : RecordSafe s sessionId context args) (dirtySessions : List String) :
    Inv { s with cache := lib.modify (lib.touch s.cache sessionId) sessionId (handleMessage context args).2,
                 dirtySessions := dirtySessions,
                 accepted := s.accepted ++ [(sessionId, newRecord context args)] } := by
  have hcache : ∀ q, lib.get? (lib.modify (lib.touch s.cache sessionId) sessionId (handleMessage context args).2) q =
      if q = sessionId then some (handleMessage context args).2 else lib.get? s.cache q := by
    intro q
    rw [lib.get?_modify, lib.get?_touch, lib.get?_touch, hget]
    rfl
  have hgrow : ∀ a ∈ s.accepted, a ∈ s.accepted ++ [(sessionId, newRecord context args)] :=
    fun a ha => List.mem_append_left _ ha
  refine ⟨fun a ha => ?_, ?_, fun a ha => ?_, fun q other hother => ?_, fun other hother => ?_⟩
  · rcases List.mem_append.mp ha with ha | ha
    · refine (h.kept a ha).imp_right fun hpending => ⟨?_, hpending.free⟩
      show ∃ c, lib.get? (lib.modify (lib.touch s.cache sessionId) sessionId (handleMessage context args).2) a.1 =
        some c ∧ _
      rw [hcache]
      by_cases hown : a.1 = sessionId
      · rw [if_pos hown]
        rw [hown] at hpending
        exact ⟨_, rfl, rfl, hpending.handled hget hsafe⟩
      · rw [if_neg hown]
        exact hpending.cached
    · rw [List.mem_singleton.mp ha]
      refine Or.inr ⟨⟨_, ?_, rfl, newRecord_mem_recent context args⟩, rowsAt_eq_nil_iff.mpr hsafe.number⟩
      show lib.get? (lib.modify (lib.touch s.cache sessionId) sessionId (handleMessage context args).2) sessionId = _
      rw [hcache, if_pos rfl]
  · refine List.pairwise_append.mpr ⟨h.distinct, List.pairwise_singleton _ _, fun a ha b hb => ?_⟩
    rw [List.mem_singleton.mp hb]
    exact h.apart_newRecord hget hsafe.number a ha
  · rcases List.mem_append.mp ha with ha | ha
    · exact h.session a ha
    · rw [List.mem_singleton.mp ha]
      exact hsafe.session
  · change lib.get? (lib.modify (lib.touch s.cache sessionId) sessionId (handleMessage context args).2) q =
      some other at hother
    rw [hcache] at hother
    split_ifs at hother with hq
    · cases hother
      rw [hq]
      exact (h.cached sessionId context hget).handled args (List.mem_append_right _ (List.mem_singleton_self _)) hgrow
        rfl
    · exact (h.cached q other hother).mono hgrow fun _ hknown => hknown
  · exact (h.loading other hother).mono hgrow fun _ hknown => hknown

theorem loadFromDb_eq_none {db : Database} {sessionId userId : String} {session : SessionModel}
    (hsession : db.findSession sessionId = some session)
    (h : ∀ row ∈ db.messages, row.sessionId = sessionId → row.tenantId ≠ session.tenantId) :
    loadFromDb db sessionId userId = none := by
  have hrows : recentRows db.messages sessionId session.tenantId = [] := by
    rw [List.eq_nil_iff_forall_not_mem]
    intro row hrow
    obtain ⟨hmem, hown, htenant⟩ := mem_recentRows hrow
    exact h row hmem hown htenant
  unfold loadFromDb
  simp only [hsession, hrows]

/-- A message for a context that is not cached is refused, when nothing can be loaded. -/
theorem addMessage_refused {userIds : String → String} {s : State lib} {sessionId : String} {args : NewMessage}
    (hget : lib.get? s.cache sessionId = none) (hsafe : AddSafe userIds s sessionId args) :
    addMessage userIds s sessionId args = (none, s) := by
  unfold addMessage
  rw [hget]
  simp only
  split_ifs with hknown
  · obtain ⟨session, hsession⟩ := Option.isSome_iff_exists.mp hknown.1
    rcases hsafe.missing hget session hsession with hempty | hrows
    · exact absurd hempty hknown.2
    · rw [loadFromDb_eq_none hsession hrows]
  · rfl

theorem Inv.addMessage {userIds : String → String} {s s' : State lib} (h : Inv s) {sessionId : String}
    {args : NewMessage} (hstep : step userIds s (.addMessage sessionId args) = some s')
    (hsafe : AddSafe userIds s sessionId args) : Inv s' := by
  cases hstep
  cases hget : lib.get? s.cache sessionId with
  | none =>
    rw [addMessage_refused hget hsafe]
    exact h.congr rfl (List.append_nil _) (fun _ => rfl) h.loading
  | some context =>
    have hadd : ContextPersistence.addMessage userIds s sessionId args =
        (some (newRecord context args),
          { s with cache := lib.modify (lib.touch s.cache sessionId) sessionId (handleMessage context args).2,
                   dirtySessions := s.dirtySessions ++ [context.sessionId] }) := by
      unfold ContextPersistence.addMessage
      rw [hget]
      rfl
    rw [hadd]
    exact h.addCached hget (hsafe.cached context hget) _

/-! ## Stopping -/

theorem rowsAt_visible {db db' : Database} (hflushed : db'.flushed = db.flushed) {q : String} {n : ℤ}
    (hrows : rowsAt db'.messages q n = rowsAt db.messages q n) :
    rowsAt db'.visible q n = rowsAt db.visible q n := by
  unfold Database.visible
  rw [rowsAt_append, rowsAt_append, hrows, hflushed]

theorem persistToDb_frame {db db' : Database} {context : SessionContext} (h : persistToDb db context = some db') :
    db'.sessions = db.sessions ∧ db'.flushed = db.flushed ∧ ∀ row ∈ db.messages, row ∈ db'.messages := by
  unfold persistToDb at h
  cases hsession : db.findSession context.sessionId with
  | none =>
    rw [hsession] at h
    cases h
    exact ⟨rfl, rfl, fun _ h => h⟩
  | some session =>
    rw [hsession] at h
    exact persistRecords_frame h

theorem tenantOf_of_findSession {db : Database} {sessionId : String} {session : SessionModel}
    (h : db.findSession sessionId = some session) : db.tenantOf sessionId = session.tenantId := by
  unfold Database.tenantOf
  rw [h]

theorem persistToDb_isSome {db : Database} {context : SessionContext}
    (h : Unambiguous db context.sessionId context) : ∃ db', persistToDb db context = some db' := by
  unfold persistToDb
  cases hsession : db.findSession context.sessionId with
  | none => exact ⟨db, rfl⟩
  | some session =>
    unfold Unambiguous at h
    rw [tenantOf_of_findSession hsession] at h
    exact persistRecords_isSome h

/-- The rows of other sessions, and those at numbers that are taken, stay. -/
theorem rowsAt_persistToDb {db db' : Database} {context : SessionContext} (hpersist : persistToDb db context = some db')
    {q : String} {n : ℤ} (h : q ≠ context.sessionId ∨ Known db q n) :
    rowsAt db'.messages q n = rowsAt db.messages q n := by
  unfold persistToDb at hpersist
  cases hsession : db.findSession context.sessionId with
  | none =>
    rw [hsession] at hpersist
    cases hpersist
    rfl
  | some session =>
    rw [hsession] at hpersist
    by_cases hq : q = context.sessionId
    · subst hq
      exact rowsAt_persistRecords_of_known hpersist (tenantOf_of_findSession hsession)
        (h.resolve_left fun hne => hne rfl)
    · exact rowsAt_persistRecords_of_ne hpersist fun _ _ hboth => hq hboth.1

theorem existing_eq_filter (db : Database) (sessionId tenantId : String) (m : Message) :
    existing db sessionId tenantId m =
      (rowsAt db.messages sessionId m.sequence).filter fun r => decide (r.tenantId = tenantId) := by
  unfold existing rowsAt
  rw [List.filter_filter]
  refine List.filter_congr fun r _ => ?_
  simp only [← and_assoc, Bool.decide_and, Bool.and_comm]

/-- Writing the context of one session makes no number of another ambiguous. -/
theorem Unambiguous.persistToDb {db db' : Database} {context other : SessionContext} {q : String}
    (h : Unambiguous db q other) (hpersist : ContextPersistence.persistToDb db context = some db')
    (hq : q ≠ context.sessionId) : Unambiguous db' q other := by
  intro m hm
  rw [Database.tenantOf_congr (persistToDb_frame hpersist).1, existing_eq_filter,
    rowsAt_persistToDb hpersist (Or.inl hq), ← existing_eq_filter]
  exact h m hm

/-- An unsaved record of the context is stored. -/
theorem Inv.stored_persistToDb {s : State lib} (h : Inv s) {sessionId : String} {context : SessionContext}
    (hget : lib.get? s.cache sessionId = some context) {db : Database} (hpersist : persistToDb s.db context = some db)
    {m : Message} (haccepted : (sessionId, m) ∈ s.accepted) (hm : m ∈ context.recentMessages)
    (hfree : rowsAt s.db.visible sessionId m.sequence = []) : Stored db sessionId m := by
  obtain ⟨howner, -, hrecent⟩ := h.cached sessionId context hget
  obtain ⟨session, hsession⟩ := Option.ne_none_iff_exists'.mp (h.session _ haccepted)
  have htenant := tenantOf_of_findSession hsession
  have hfreeRows := hfree
  unfold Database.visible at hfreeRows
  rw [rowsAt_append, List.append_eq_nil_iff] at hfreeRows
  have hown : ∀ m' ∈ context.recentMessages, m'.sequence = m.sequence → m' = m := by
    intro m' hm' hnumber
    rcases hrecent m' hm' with haccepted' | ⟨row, hrow, hrowSession, hrowNumber, -⟩
    · exact h.record_eq haccepted haccepted' hnumber
    · exact absurd (hrowNumber.trans hnumber) (rowsAt_eq_nil_iff.mp hfreeRows.1 row hrow hrowSession)
  obtain ⟨hsessions, hflushed, -⟩ := persistToDb_frame hpersist
  have hrecords : context.recentMessages.foldlM (persistRecord sessionId session.tenantId) s.db = some db := by
    unfold persistToDb at hpersist
    rw [howner, hsession] at hpersist
    exact hpersist
  obtain ⟨id, hrows⟩ := rowsAt_persistRecords_of_free hrecords htenant hm hown hfreeRows.1
  have hin : messageRow id sessionId session.tenantId m ∈ rowsAt db.messages sessionId m.sequence := by
    rw [hrows]
    exact List.mem_singleton_self _
  refine ⟨_, (mem_rowsAt.mp hin).1, ?_, ⟨rfl, rfl, rfl, rfl, rfl⟩, ?_⟩
  · unfold Database.visible
    rw [rowsAt_append, hrows, hflushed, hfreeRows.2, List.append_nil]
  · exact (htenant.symm.trans (Database.tenantOf_congr hsessions sessionId).symm)

/-- The flag of a context is cleared. -/
def cleaned (s : State lib) (sessionId : String) (context : SessionContext) (db : Database) : State lib :=
  { s with db := db, cache := lib.modify s.cache sessionId { context with isDirty := false } }

theorem get?_cleaned {s : State lib} {sessionId : String} {context : SessionContext} (db : Database)
    (hget : lib.get? s.cache sessionId = some context) (q : String) :
    lib.get? (cleaned s sessionId context db).cache q =
      if q = sessionId then some { context with isDirty := false } else lib.get? s.cache q := by
  unfold cleaned
  rw [lib.get?_modify, hget]
  rfl

/-- **Flushing a cached context stores its unsaved records.** -/
theorem Inv.flush {s : State lib} (h : Inv s) {sessionId : String} {context : SessionContext}
    (hget : lib.get? s.cache sessionId = some context) {db : Database}
    (hpersist : persistToDb s.db context = some db) : Inv (cleaned s sessionId context db) := by
  obtain ⟨hsessions, hflushed, hmem⟩ := persistToDb_frame hpersist
  obtain ⟨howner, hnumbered, hrecent⟩ := h.cached sessionId context hget
  have hcache := get?_cleaned db hget
  have hfits : ∀ {q c}, ContextFits s q c → ContextFits (cleaned s sessionId context db) q c :=
    fun hc => hc.mono (fun _ ha => ha) fun _ hknown => hknown.mono hsessions hmem
  have hrows : ∀ {q n}, q ≠ context.sessionId ∨ Known s.db q n → rowsAt db.visible q n = rowsAt s.db.visible q n :=
    fun hq => rowsAt_visible hflushed (rowsAt_persistToDb hpersist hq)
  refine ⟨fun a ha => ?_, h.distinct, fun a ha => ?_, fun q c hc => ?_, fun c hc => hfits (h.loading c hc)⟩
  · rcases h.kept a ha with hstored | hpending
    · exact Or.inl (hstored.mono hsessions hmem (hrows (Or.inr hstored.known)))
    · obtain ⟨old, hold, holdDirty, hm⟩ := hpending.cached
      by_cases hown : a.1 = sessionId
      · rw [hown, hget] at hold
        cases hold
        have hfree := hpending.free
        rw [hown] at hfree
        left
        rw [hown]
        exact h.stored_persistToDb hget hpersist (hown ▸ ha) hm hfree
      · refine Or.inr ⟨⟨old, ?_, holdDirty, hm⟩, ?_⟩
        · rw [hcache, if_neg hown]
          exact hold
        · refine (hrows (Or.inl ?_)).trans hpending.free
          rw [howner]
          exact hown
  · unfold Database.findSession
    show db.sessions.find? _ ≠ none
    rw [hsessions]
    exact h.session a ha
  · rw [hcache] at hc
    split_ifs at hc with hq
    · cases hc
      rw [hq]
      exact hfits ⟨howner, hnumbered, hrecent⟩
    · exact hfits (h.cached q c hc)

/-- The loop of `_flush_all` over entries of the cache, none of them ambiguous. -/
theorem Inv.flushEntries {entries : List (String × SessionContext)} (hnodup : (entries.map Prod.fst).Nodup)
    {s : State lib} (h : Inv s) (hentries : ∀ e ∈ entries, lib.get? s.cache e.1 = some e.2)
    (hsafe : ∀ e ∈ entries, e.2.isDirty = true → Unambiguous s.db e.1 e.2) :
    Inv (ContextPersistence.flushEntries s entries) ∧ ∀ q context,
      lib.get? (ContextPersistence.flushEntries s entries).cache q = some context →
        context.isDirty = false ∨ (q ∉ entries.map Prod.fst ∧ lib.get? s.cache q = some context) := by
  induction entries generalizing s with
  | nil => exact ⟨h, fun q context hget => Or.inr ⟨List.not_mem_nil, hget⟩⟩
  | cons e rest ih =>
    obtain ⟨sessionId, context⟩ := e
    obtain ⟨hnot, hrest⟩ := List.nodup_cons.mp hnodup
    have hget : lib.get? s.cache sessionId = some context := hentries _ List.mem_cons_self
    have hlater : ∀ f ∈ rest, f.1 ≠ sessionId := fun f hf heq => hnot (List.mem_map.mpr ⟨f, hf, heq⟩)
    unfold ContextPersistence.flushEntries
    by_cases hdirty : context.isDirty = true
    · have howner : context.sessionId = sessionId := (h.cached sessionId context hget).owner
      obtain ⟨db, hpersist⟩ := persistToDb_isSome (howner ▸ hsafe _ List.mem_cons_self hdirty :
        Unambiguous s.db context.sessionId context)
      rw [if_pos hdirty, hpersist]
      have hcache := get?_cleaned db hget
      have hstill : ∀ f ∈ rest, lib.get? (cleaned s sessionId context db).cache f.1 = some f.2 := by
        intro f hf
        rw [hcache, if_neg (hlater f hf)]
        exact hentries f (List.mem_cons_of_mem _ hf)
      have hclear : ∀ f ∈ rest, f.2.isDirty = true → Unambiguous (cleaned s sessionId context db).db f.1 f.2 :=
        fun f hf hfDirty => (hsafe f (List.mem_cons_of_mem _ hf) hfDirty).persistToDb hpersist
          (howner.symm ▸ hlater f hf)
      obtain ⟨hfinal, hafter⟩ := ih hrest (h.flush hget hpersist) hstill hclear
      refine ⟨hfinal, fun q c hc => (hafter q c hc).elim Or.inl fun ⟨hq, hbefore⟩ => ?_⟩
      rw [hcache] at hbefore
      split_ifs at hbefore with hown
      · cases hbefore
        exact Or.inl rfl
      · exact Or.inr ⟨List.not_mem_cons_of_ne_of_not_mem hown hq, hbefore⟩
    · rw [if_neg hdirty]
      obtain ⟨hfinal, hafter⟩ := ih hrest h (fun f hf => hentries f (List.mem_cons_of_mem _ hf))
        fun f hf => hsafe f (List.mem_cons_of_mem _ hf)
      refine ⟨hfinal, fun q c hc => (hafter q c hc).elim Or.inl fun ⟨hq, hbefore⟩ => ?_⟩
      by_cases hown : q = sessionId
      · rw [hown, hget] at hbefore
        cases hbefore
        exact Or.inl (Bool.eq_false_iff.mpr hdirty)
      · exact Or.inr ⟨List.not_mem_cons_of_ne_of_not_mem hown hq, hbefore⟩

/-- **After `stop` every record is stored.** -/
theorem Inv.stop {s : State lib} (h : Inv s) (hsafe : ∀ sessionId context,
    lib.get? s.cache sessionId = some context → context.isDirty = true → Unambiguous s.db sessionId context) :
    Inv (flushAll s) ∧ ∀ a ∈ (flushAll s).accepted, Stored (flushAll s).db a.1 a.2 := by
  have hentries : ∀ e ∈ lib.items s.cache, lib.get? s.cache e.1 = some e.2 :=
    fun e he => (lib.mem_items_iff _ _ _).mp he
  obtain ⟨hinv, hcache⟩ := h.flushEntries (lib.nodup_items s.cache) hentries
    fun e he hdirty => hsafe e.1 e.2 (hentries e he) hdirty
  refine ⟨hinv, fun a ha => (hinv.kept a ha).resolve_right fun hpending => ?_⟩
  obtain ⟨context, hget, hdirty, -⟩ := hpending.cached
  have hclean : context.isDirty = false := by
    refine (hcache a.1 context hget).elim id fun ⟨hnot, hbefore⟩ => ?_
    exact absurd (List.mem_map.mpr ⟨(a.1, context), (lib.mem_items_iff _ _ _).mpr hbefore, rfl⟩) hnot
  rw [hclean] at hdirty
  cases hdirty

/-! ## Runs -/

theorem inv_step {userIds : String → String} {s s' : State lib} {event : Event} (h : Inv s)
    (hsafe : Safe userIds s event) (hstep : step userIds s event = some s') : Inv s' := by
  cases event with
  | lookUp sessionId userId =>
    cases hstep
    exact h.lookUp sessionId userId
  | store n => exact h.store hstep hsafe
  | addMessage sessionId args => exact h.addMessage hstep hsafe
  | checkpoint =>
    cases hstep
    exact h.congr rfl rfl (fun _ => rfl) h.loading
  | persist sessionId turn =>
    cases hstep
    exact h.persist turn hsafe
  | commit =>
    cases hstep
    exact h.commit
  | rollback =>
    cases hstep
    exact h.rollback
  | stop =>
    cases hstep
    exact (h.stop hsafe).1

/-- **In every run of safe events that ends with `stop`, every record that was returned is stored
once.** -/
theorem all_stored_after_stop (userIds : String → String) {s : State lib} (hstart : Started s)
    {events : List Event} {t : State lib} (hrun : exec (step userIds) s (events ++ [.stop]) = some t)
    (hsafe : Guarded (step userIds) (Safe userIds) s (events ++ [.stop])) : AllStored t := by
  obtain ⟨u, hbefore, hstop⟩ := (exec_concat_eq_some _).mp hrun
  have hinv : Inv u := exec_invariant (fun _ _ _ h hok hstep => inv_step h hok hstep) hstart.inv
    hsafe.of_append hbefore
  cases hstop
  obtain ⟨hfinal, hstored⟩ := hinv.stop (hsafe.last hbefore)
  intro a ha
  have hnodup : (flushAll u).accepted.Nodup := hfinal.distinct.imp fun {a b} hab heq =>
    hab (congrArg Prod.fst heq) (congrArg (fun x => x.2.sequence) heq)
  rw [(hstored a ha).countP_eq_one, List.count_eq_one_of_mem hnodup ha]

/-! ## Two short runs -/

def chatSession : SessionModel := ⟨"s1", "acme", "developer", [], "standard", []⟩

/-- A message that the agent loop stored earlier. -/
def storedTurn : MessageModel := ⟨0, "acme", "s1", none, "user", "Hi", none, [], none, 0⟩

def startedWith (messages : List MessageModel) : State (LruCache.library String SessionContext) where
  cache := (LruCache.library String SessionContext).new cacheSize
  dirtySessions := []
  db := { sessions := [chatSession], tasks := [], messages := messages, flushed := [], nextId := 1 }
  loading := []
  accepted := []

theorem startedWith_started (messages : List MessageModel) : Started (startedWith messages) :=
  ⟨rfl, rfl, rfl⟩

def hello : NewMessage := { role := "user", content := "hello" }

/-- The session is opened and a message is added. -/
def openedRun : List Event := [.lookUp "s1" "u1", .store 0, .addMessage "s1" hello]

def userOne (_ : String) : String := "u1"

theorem opened_message_is_stored : ∃ t, exec (step userOne) (startedWith []) (openedRun ++ [.stop]) = some t ∧
    AllStored t := by
  have hrun : exec (step userOne) (startedWith []) (openedRun ++ [.stop]) =
      some ((exec (step userOne) (startedWith []) (openedRun ++ [.stop])).getD (startedWith [])) := rfl
  have hsafe : Guarded (step userOne) (Safe userOne) (startedWith []) (openedRun ++ [.stop]) := by
    refine ⟨True.intro, fun s₁ h₁ => ?_⟩
    cases h₁
    refine ⟨fun _ _ => ⟨nofun, nofun⟩, fun s₂ h₂ => ?_⟩
    cases h₂
    refine ⟨⟨?_, nofun⟩, fun s₃ h₃ => ⟨?_, fun _ _ => True.intro⟩⟩
    · intro context hget
      cases hget
      exact ⟨by decide, nofun, by decide⟩
    · cases h₃
      exact fun _ _ _ _ _ _ => Nat.zero_le 1
  exact ⟨_, hrun, all_stored_after_stop userOne (startedWith_started []) hrun hsafe⟩

/-- A message is added to a session that is not cached: it is returned and never stored. -/
theorem uncached_message_is_lost : ¬ ∀ (userIds : String → String) (s : State (LruCache.library String SessionContext)) (events : List Event) (t : State (LruCache.library String SessionContext)),
    Started s → exec (step userIds) s (events ++ [.stop]) = some t → AllStored t := by
  intro h
  have hstored := h userOne (startedWith [storedTurn]) [.addMessage "s1" hello] _
    (startedWith_started _) rfl
  revert hstored
  decide +kernel

end KernelRuntime.ContextPersistence
