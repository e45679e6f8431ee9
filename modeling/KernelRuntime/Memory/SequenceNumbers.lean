import KernelRuntime.Memory.MessageStore

/-! # Sequence numbers of a session's messages

Every reader of a conversation sorts by `sequence`, so `persist_message` has to number each row
above the rows already stored. It reads the largest stored number as `result.scalar() or -1`, and
`0` is falsy: once the largest number is `0` the next row gets `0` again. `SequenceContract` is
what the readers rely on, `KeepsIncreasing` says for which tables and run lengths it holds. -/

namespace KernelRuntime.SequenceNumbers
set_option autoImplicit false

/-- The message table as `persist_message` calls on one session extend it. -/
def messageStore (next : Sequencer) (sessionId : String) :
    AppendStore Database MessageModel Turn where
  rows := Database.visible
  append db turn := db.persistMessage next sessionId turn
  rows_append db turn := db.visible_persistMessage next sessionId turn

/-- No message of the session is stored yet. -/
def NewSession (db : Database) (sessionId : String) : Prop :=
  ∀ r ∈ db.visible, r.sessionId ≠ sessionId

/-- What a run of `persist_message` calls on one session promises. -/
structure SequenceContract (next : Sequencer) (db : Database) (sessionId : String)
    (turns : List Turn) : Prop where
  /-- Every call numbers its row above all rows stored for the session and its tenant. -/
  increasing : (messageStore next sessionId).Dominates MessageModel.sequence
    (MessageModel.StoredFor sessionId (db.tenantOf sessionId)) db turns
  /-- The messages of a new session are numbered from zero. -/
  numbered : NewSession db sessionId →
    ((messageStore next sessionId).appended db turns).map MessageModel.sequence =
      (List.range turns.length).map fun n => (n : ℤ)
  /-- Reading the messages of a new session by number gives the order they were persisted in. -/
  ordered : NewSession db sessionId → ∀ read : List MessageModel,
    read.Perm (((messageStore next sessionId).run db turns).visible.filter
      fun r => decide (r.sessionId = sessionId)) →
    read.Pairwise (fun a b => a.sequence ≤ b.sequence) →
    read = (messageStore next sessionId).appended db turns

/-! ## The largest stored number -/

theorem max?_append_singleton {l : List ℤ} {x : ℤ} (h : ∀ a ∈ l, a ≤ x) :
    (l ++ [x]).max? = some x := by
  rw [List.max?_eq_some_iff]
  refine ⟨List.mem_append_right _ (List.mem_singleton_self x), ?_⟩
  intro b hb
  rcases List.mem_append.mp hb with hb | hb
  · exact h b hb
  · exact le_of_eq (List.mem_singleton.mp hb)

theorem le_maxSequence {rows : List MessageModel} {sessionId tenantId : String} {r : MessageModel}
    (hr : r ∈ sequenceScope rows sessionId tenantId) :
    r.sequence ≤ maxSequence rows sessionId tenantId := by
  have hmem := List.mem_map_of_mem (f := MessageModel.sequence) hr
  unfold maxSequence
  cases hmax : ((sequenceScope rows sessionId tenantId).map MessageModel.sequence).max? with
  | none =>
    rw [List.max?_eq_none_iff] at hmax
    rw [hmax] at hmem
    exact absurd hmem List.not_mem_nil
  | some m => exact (List.max?_eq_some_iff.mp hmax).2 _ hmem

theorem le_nextSequence {rows : List MessageModel} {sessionId tenantId : String} {r : MessageModel}
    (hr : r ∈ sequenceScope rows sessionId tenantId) :
    r.sequence ≤ nextSequence rows sessionId tenantId := by
  have h := le_maxSequence hr
  unfold nextSequence
  split_ifs <;> omega

theorem storedFor_mem_scope {rows : List MessageModel} {sessionId tenantId : String}
    {r : MessageModel} (hr : r ∈ rows) (hs : r.StoredFor sessionId tenantId) :
    r ∈ sequenceScope rows sessionId tenantId :=
  mem_sequenceScope.mpr ⟨hr, hs.1, fun _ => hs.2⟩

theorem maxSequence_persistMessage (db : Database) (sessionId : String) (turn : Turn) :
    maxSequence (db.persistMessage nextSequence sessionId turn).2.visible sessionId
        (db.tenantOf sessionId) =
      nextSequence db.visible sessionId (db.tenantOf sessionId) := by
  have hscope : sequenceScope (db.persistMessage nextSequence sessionId turn).2.visible sessionId
      (db.tenantOf sessionId) =
        sequenceScope db.visible sessionId (db.tenantOf sessionId) ++
          [db.newMessage nextSequence sessionId turn] := by
    rw [Database.visible_persistMessage, sequenceScope, List.filter_append]
    congr 1
    simp [Database.persistMessage, Database.newMessage]
  rw [maxSequence, hscope, List.map_append, List.map_cons, List.map_nil,
    max?_append_singleton (fun a ha => ?_)]
  · rfl
  · obtain ⟨r, hr, rfl⟩ := List.mem_map.mp ha
    exact le_nextSequence hr

/-! ## When a call numbers its row above the stored ones -/

/-- A row of the session and tenant already has the number zero. -/
def ZeroStored (db : Database) (sessionId : String) : Prop :=
  ∃ r ∈ db.visible, r.StoredFor sessionId (db.tenantOf sessionId) ∧ r.sequence = 0

theorem call_increasing_iff (db : Database) (sessionId : String) :
    (∀ r ∈ db.visible, r.StoredFor sessionId (db.tenantOf sessionId) →
      r.sequence < nextSequence db.visible sessionId (db.tenantOf sessionId)) ↔
    ¬ (maxSequence db.visible sessionId (db.tenantOf sessionId) = 0 ∧ ZeroStored db sessionId) := by
  constructor
  · rintro h ⟨hmax, r, hr, hs, hzero⟩
    have hlt := h r hr hs
    rw [nextSequence, if_pos hmax, hzero] at hlt
    omega
  · intro h r hr hs
    have hle := le_maxSequence (storedFor_mem_scope hr hs)
    unfold nextSequence
    split_ifs with hmax
    · have hne : r.sequence ≠ 0 := fun hz => h ⟨hmax, r, hr, hs, hz⟩
      omega
    · omega

theorem zeroStored_persistMessage_iff (db : Database) (sessionId : String) (turn : Turn) :
    ZeroStored (db.persistMessage nextSequence sessionId turn).2 sessionId ↔
      ZeroStored db sessionId ∨ nextSequence db.visible sessionId (db.tenantOf sessionId) = 0 := by
  unfold ZeroStored
  rw [Database.visible_persistMessage, Database.tenantOf_persistMessage]
  constructor
  · rintro ⟨r, hr, hs, hz⟩
    rcases List.mem_append.mp hr with hr | hr
    · exact Or.inl ⟨r, hr, hs, hz⟩
    · rw [List.mem_singleton.mp hr] at hz
      exact Or.inr hz
  · rintro (⟨r, hr, hs, hz⟩ | hz)
    · exact ⟨r, List.mem_append_left _ hr, hs, hz⟩
    · exact ⟨_, List.mem_append_right _ (List.mem_singleton_self _), ⟨rfl, rfl⟩, hz⟩

/-! ## Runs -/

/-- The tables and run lengths for which numbering keeps increasing. With `m` the largest number
read, `-1` when there is none: `m` is positive, or the run is too short to number a row after a
`0`. The last case can only occur for an empty tenant id, where `m` is read over all tenants. -/
def KeepsIncreasing (db : Database) (sessionId : String) (n : ℕ) : Prop :=
  0 < maxSequence db.visible sessionId (db.tenantOf sessionId) ∨
  (n : ℤ) ≤ -maxSequence db.visible sessionId (db.tenantOf sessionId) ∨
  (maxSequence db.visible sessionId (db.tenantOf sessionId) = 0 ∧ n ≤ 1 ∧ ¬ ZeroStored db sessionId)

theorem dominates_iff (db : Database) (sessionId : String) (turns : List Turn) :
    (messageStore nextSequence sessionId).Dominates MessageModel.sequence
      (MessageModel.StoredFor sessionId (db.tenantOf sessionId)) db turns ↔
      KeepsIncreasing db sessionId turns.length := by
  induction turns generalizing db with
  | nil =>
    refine ⟨fun _ => ?_, fun _ => True.intro⟩
    unfold KeepsIncreasing
    simp only [List.length_nil]
    omega
  | cons turn turns ih =>
    -- The first call is judged by the table, the others by the table it leaves behind.
    have hrest := ih (db.persistMessage nextSequence sessionId turn).2
    rw [Database.tenantOf_persistMessage] at hrest
    have hfirst := call_increasing_iff db sessionId
    have hstep : (messageStore nextSequence sessionId).Dominates MessageModel.sequence
        (MessageModel.StoredFor sessionId (db.tenantOf sessionId)) db (turn :: turns) ↔
        (¬ (maxSequence db.visible sessionId (db.tenantOf sessionId) = 0 ∧ ZeroStored db sessionId) ∧
          KeepsIncreasing (db.persistMessage nextSequence sessionId turn).2 sessionId
            turns.length) := and_congr hfirst hrest
    rw [hstep]
    unfold KeepsIncreasing
    rw [Database.tenantOf_persistMessage, maxSequence_persistMessage,
      zeroStored_persistMessage_iff, List.length_cons, Int.natCast_add, Int.natCast_one, nextSequence]
    by_cases hz : ZeroStored db sessionId
    · simp only [hz, and_true, true_or, not_true_eq_false, and_false, or_false]
      split_ifs <;> omega
    · simp only [hz, and_false, not_false_eq_true, true_and, false_or, and_true]
      split_ifs <;> omega

theorem maxSequence_newSession {db : Database} {sessionId : String} (tenantId : String)
    (h : NewSession db sessionId) : maxSequence db.visible sessionId tenantId = -1 := by
  have hnil : sequenceScope db.visible sessionId tenantId = [] := by
    rw [List.eq_nil_iff_forall_not_mem]
    intro r hr
    obtain ⟨hr', hs, _⟩ := mem_sequenceScope.mp hr
    exact h r hr' hs
  rw [maxSequence, hnil]
  rfl

theorem appended_storedFor (next : Sequencer) (db : Database) (sessionId : String)
    (turns : List Turn) : ∀ r ∈ (messageStore next sessionId).appended db turns,
      r.StoredFor sessionId (db.tenantOf sessionId) := by
  induction turns generalizing db with
  | nil => simp [AppendStore.appended]
  | cons turn turns ih =>
    intro r hr
    rcases List.mem_cons.mp hr with rfl | hr
    · exact ⟨rfl, rfl⟩
    · exact ih (db.persistMessage next sessionId turn).2 r hr

/-- The session's rows after a run that started with none are the rows of the run. -/
theorem sessionRows_run {db : Database} {sessionId : String} (next : Sequencer)
    (h : NewSession db sessionId) (turns : List Turn) :
    (((messageStore next sessionId).run db turns).visible.filter
      fun r => decide (r.sessionId = sessionId)) = (messageStore next sessionId).appended db turns := by
  have hrun := (messageStore next sessionId).rows_run db turns
  change ((messageStore next sessionId).run db turns).visible = db.visible ++ _ at hrun
  rw [hrun, List.filter_append]
  have hold : db.visible.filter (fun r => decide (r.sessionId = sessionId)) = [] := by
    rw [List.filter_eq_nil_iff]
    intro r hr
    simpa using h r hr
  have hnew := List.filter_eq_self.mpr fun r hr =>
    decide_eq_true (appended_storedFor next db sessionId turns r hr).1
  rw [hold, hnew, List.nil_append]

/-- Rows numbered above all rows before them come out of any sorted read in persist order. -/
theorem ordered_of_dominates {db : Database} {sessionId : String} {next : Sequencer}
    {turns : List Turn} (hd : (messageStore next sessionId).Dominates MessageModel.sequence
      (MessageModel.StoredFor sessionId (db.tenantOf sessionId)) db turns)
    (h : NewSession db sessionId) (read : List MessageModel)
    (hperm : read.Perm (((messageStore next sessionId).run db turns).visible.filter
      fun r => decide (r.sessionId = sessionId)))
    (hsorted : read.Pairwise fun a b => a.sequence ≤ b.sequence) :
    read = (messageStore next sessionId).appended db turns := by
  rw [sessionRows_run next h] at hperm
  exact eq_of_perm_of_sorted MessageModel.sequence
    (hd.pairwise (appended_storedFor next db sessionId turns)) hperm hsorted

/-- **The numbering contract holds exactly for the runs of `KeepsIncreasing`.** -/
theorem sequenceContract_iff (db : Database) (sessionId : String) (turns : List Turn) :
    SequenceContract nextSequence db sessionId turns ↔
      KeepsIncreasing db sessionId turns.length := by
  constructor
  · intro h
    exact (dominates_iff db sessionId turns).mp h.increasing
  · intro h
    have hd := (dominates_iff db sessionId turns).mpr h
    refine ⟨hd, ?_, fun hnew => ordered_of_dominates hd hnew⟩
    intro hnew
    have hmax := maxSequence_newSession (db.tenantOf sessionId) hnew
    unfold KeepsIncreasing at h
    rw [hmax] at h
    match turns with
    | [] => rfl
    | [turn] =>
      have hseq : nextSequence db.visible sessionId (db.tenantOf sessionId) = 0 := by
        rw [nextSequence, hmax]
        rfl
      simp [AppendStore.appended, messageStore, Database.persistMessage, Database.newMessage, hseq]
    | _ :: _ :: _ =>
      simp only [List.length_cons] at h
      omega

/-- A new session breaks the contract at its second message, which gets number zero again. -/
theorem second_message_repeats_zero :
    ¬ SequenceContract nextSequence
      ⟨[⟨"s1", "acme", "developer", [], "auto", []⟩], [], [], [], 0⟩ "s1"
      [⟨"user", "hello", none, none, [], none⟩, ⟨"assistant", "hi", none, none, [], none⟩] := by
  intro h
  have hnumbers := h.numbered fun _ hr => absurd hr List.not_mem_nil
  exact absurd hnumbers (by decide)

end KernelRuntime.SequenceNumbers
