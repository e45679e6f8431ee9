import KernelRuntime.Queue.Events
import KernelRuntime.Foundations.Execution

/-! # The approval endpoint

`approve_tool_call` reads the pending row, commits a decision and publishes the call, in three
steps and without a lock. The system below lets any number of requests on one row take these steps
in any order; `Safe` is what a decision on a tool call has to guarantee, and `StepOk` says which
commits keep it. -/

namespace KernelRuntime.Approval
set_option autoImplicit false

/-- A request: the path, the body, and the tenant of the token. -/
structure ApprovalRequest where
  sessionId : String
  messageId : ℕ
  decision : String
  tenantId : String
deriving DecidableEq

/-- The row that the request's query selects, when it waits for approval. -/
def ApprovalRequest.pending (req : ApprovalRequest) (message : MessageModel) :
    Option ApprovalMetadata :=
  if message.id = req.messageId ∧ message.sessionId = req.sessionId ∧
      message.tenantId = req.tenantId then
    message.extraMetadata.filter fun m => decide (m.status = .needsApproval)
  else none

/-- `v[key] = x`. -/
def setItem (v : Json) (key : String) (x : Json) : Except PyError Json :=
  match v with
  | .obj fields => .ok (.obj (assocSet key x fields))
  | .arr _ => .error ⟨.typeError, "list indices must be integers or slices, not str"⟩
  | _ => .error ⟨.typeError, "'" ++ v.typeName ++ "' object does not support item assignment"⟩

/-- What a request commits, and the event it has to publish after that. -/
structure Outcome where
  metadata : ApprovalMetadata
  event : Option ToolEvent
deriving DecidableEq

/-- The decision on a row that was read with metadata `m`. Every decision other than `denied`
approves; the flag for the policy engine is written into the arguments of the row. -/
def decideCall (req : ApprovalRequest) (message : MessageModel) (m : ApprovalMetadata) :
    Except PyError Outcome :=
  if req.decision = "denied" then .ok ⟨{ m with status := .denied }, none⟩
  else do
    let args ← setItem m.args "__approved__" (.bool true)
    return ⟨{ m with status := .approved, args := args },
      some ⟨.executeTool, message.taskId, req.sessionId, [⟨message.toolCallId, m.toolName, args⟩],
        some req.tenantId⟩⟩

/-! ## Requests in any order -/

inductive Response where
  | notFound
  | denied
  | dispatched
  | serverError (error : PyError)
deriving DecidableEq

inductive Phase where
  | waiting
  | loaded (req : ApprovalRequest) (message : MessageModel) (metadata : ApprovalMetadata)
  | committed (req : ApprovalRequest) (event : ToolEvent)
  | finished (response : Response)
deriving DecidableEq

inductive Happening where
  | denied (request : ℕ)
  | approved (request : ℕ)
  | published (request : ℕ) (decision : String) (event : ToolEvent)
deriving DecidableEq

/-- The row, the requests on it, and what was committed and published so far. -/
structure State where
  message : MessageModel
  phase : ℕ → Phase
  history : List Happening

inductive Step where
  | read (request : ℕ) (req : ApprovalRequest)
  | commit (request : ℕ)
  | publish (request : ℕ)
deriving DecidableEq

def State.setPhase (s : State) (request : ℕ) (p : Phase) : State :=
  { s with phase := fun j => if j = request then p else s.phase j }

/-- The commit of a request: its snapshot of the metadata goes back into the row as a whole. -/
def State.write (s : State) (request : ℕ) (req : ApprovalRequest) (outcome : Outcome) : State :=
  let s' := { s with message := { s.message with extraMetadata := some outcome.metadata } }
  match outcome.event with
  | none => { s' with history := s.history ++ [Happening.denied request] }.setPhase request (.finished .denied)
  | some event =>
    { s' with history := s.history ++ [Happening.approved request] }.setPhase request (.committed req event)

/-- The publication of an approved call. -/
def State.publish (s : State) (request : ℕ) (req : ApprovalRequest) (event : ToolEvent) : State :=
  { s with history := s.history ++ [Happening.published request req.decision event] }.setPhase request
    (.finished .dispatched)

/-- One request goes one step further. -/
def step (s : State) : Step → Option State
  | .read request req =>
    if s.phase request = .waiting then
      match req.pending s.message with
      | some m => some (s.setPhase request (.loaded req s.message m))
      | none => some (s.setPhase request (.finished .notFound))
    else none
  | .commit request =>
    match s.phase request with
    | .loaded req message m =>
      match decideCall req message m with
      | .ok outcome => some (s.write request req outcome)
      | .error e => some (s.setPhase request (.finished (.serverError e)))
    | _ => none
  | .publish request =>
    match s.phase request with
    | .committed req event => some (s.publish request req event)
    | _ => none

/-- A row before any request. -/
def State.init (message : MessageModel) : State := ⟨message, fun _ => .waiting, []⟩

/-! ## What has to hold -/

def Happening.isPublished : Happening → Bool
  | .published .. => true
  | _ => false

def Happening.isDenied : Happening → Bool
  | .denied _ => true
  | _ => false

structure Safe (history : List Happening) : Prop where
  /-- The call is published at most once. -/
  once : (history.filter Happening.isPublished).length ≤ 1
  /-- Only a request whose decision is `approved` publishes it. -/
  approved : ∀ request decision event,
    Happening.published request decision event ∈ history → decision = "approved"
  /-- It is not published once a denial is committed. -/
  beforeDenial : history.Pairwise fun a b => a.isDenied = true → b.isPublished = false

/-- The request has committed and still has to publish. -/
def State.Publishing (s : State) (request : ℕ) : Prop :=
  ∃ req event, s.phase request = .committed req event

/-- A commit that approves is by a request whose decision is `approved`, on a row that still waits;
a commit that denies comes while no approved call waits to be published. -/
def StepOk (s : State) : Step → Prop
  | .commit request => ∀ req message m, s.phase request = .loaded req message m →
      (req.decision = "denied" → ∀ other, ¬ s.Publishing other) ∧
      (req.decision ≠ "denied" → m.args.isObject = true →
        req.decision = "approved" ∧
          ∃ now, s.message.extraMetadata = some now ∧ now.status = .needsApproval)
  | _ => True

/-! ## What one step does -/

@[simp] theorem setPhase_history (s : State) (r : ℕ) (p : Phase) :
    (s.setPhase r p).history = s.history := rfl

@[simp] theorem setPhase_message (s : State) (r : ℕ) (p : Phase) :
    (s.setPhase r p).message = s.message := rfl

theorem setPhase_phase (s : State) (r j : ℕ) (p : Phase) :
    (s.setPhase r p).phase j = if j = r then p else s.phase j := rfl

/-- The four things a step can do to the row, the requests and the history. -/
inductive Effect (s : State) : Step → State → Prop
  | quiet {i : Step} (r : ℕ) (p : Phase) (hfrom : ¬ s.Publishing r)
      (hto : ∀ req event, p ≠ .committed req event) (hok : StepOk s i) :
      Effect s i (s.setPhase r p)
  | deny (r : ℕ) (req : ApprovalRequest) (message : MessageModel) (m : ApprovalMetadata)
      (hphase : s.phase r = .loaded req message m) (hdecision : req.decision = "denied") :
      Effect s (.commit r) (s.write r req ⟨{ m with status := .denied }, none⟩)
  | approve (r : ℕ) (req : ApprovalRequest) (message : MessageModel) (m : ApprovalMetadata)
      (args : Json) (event : ToolEvent) (hphase : s.phase r = .loaded req message m)
      (hdecision : req.decision ≠ "denied") (hargs : m.args.isObject = true) :
      Effect s (.commit r) (s.write r req ⟨{ m with status := .approved, args := args }, some event⟩)
  | publish (r : ℕ) (req : ApprovalRequest) (event : ToolEvent)
      (hphase : s.phase r = .committed req event) :
      Effect s (.publish r) (s.publish r req event)

theorem not_publishing {s : State} {r : ℕ} {p : Phase} (h : s.phase r = p)
    (hp : ∀ req event, p ≠ .committed req event) : ¬ s.Publishing r := by
  rintro ⟨req, event, hcommitted⟩
  exact hp req event (h.symm.trans hcommitted)

theorem commit_effect {s s' : State} {r : ℕ} (h : step s (.commit r) = some s') :
    Effect s (.commit r) s' := by
  unfold step at h
  cases hphase : s.phase r with
  | waiting => simp [hphase] at h
  | committed req event => simp [hphase] at h
  | finished response => simp [hphase] at h
  | loaded req message m =>
    simp only [hphase, decideCall] at h
    by_cases hdecision : req.decision = "denied"
    · simp only [hdecision, if_true, Option.some.injEq] at h
      rw [← h]
      exact .deny r req message m hphase hdecision
    · rw [if_neg hdecision] at h
      cases hargs : m.args with
      | obj fields =>
        simp only [hargs, setItem, bind, Except.bind, pure, Except.pure, Option.some.injEq] at h
        rw [← h]
        exact .approve r req message m _ _ hphase hdecision (by rw [hargs]; rfl)
      | _ =>
        -- the arguments are not a dictionary: the request fails before its commit
        simp only [hargs, setItem, bind, Except.bind, Option.some.injEq] at h
        rw [← h]
        refine .quiet r _ (not_publishing hphase fun _ _ h => by cases h) (fun _ _ h => by cases h) ?_
        intro req' message' m' hphase'
        rw [hphase, Phase.loaded.injEq] at hphase'
        obtain ⟨rfl, rfl, rfl⟩ := hphase'
        exact ⟨fun h => absurd h hdecision, fun _ h => by simp [hargs, Json.isObject] at h⟩

theorem step_effect {s s' : State} {i : Step} (h : step s i = some s') : Effect s i s' := by
  cases i with
  | commit r => exact commit_effect h
  | read r req =>
    unfold step at h
    simp only at h
    split_ifs at h with hphase
    have hfrom := not_publishing hphase fun _ _ h => by cases h
    cases hpending : req.pending s.message with
    | some m =>
      rw [hpending, Option.some.injEq] at h
      rw [← h]
      exact .quiet r _ hfrom (fun _ _ h => by cases h) True.intro
    | none =>
      rw [hpending, Option.some.injEq] at h
      rw [← h]
      exact .quiet r _ hfrom (fun _ _ h => by cases h) True.intro
  | publish r =>
    unfold step at h
    cases hphase : s.phase r with
    | committed req event =>
      simp only [hphase, Option.some.injEq] at h
      rw [← h]
      exact .publish r req event hphase
    | _ => simp [hphase] at h

/-! ## Histories -/

theorem Safe.nil : Safe [] :=
  ⟨Nat.zero_le 1, fun _ _ _ h => absurd h List.not_mem_nil, List.Pairwise.nil⟩

theorem Safe.of_append {h t : List Happening} (hsafe : Safe (h ++ t)) : Safe h := by
  obtain ⟨honce, happroved, hbefore⟩ := hsafe
  refine ⟨?_, fun r d e hmem => happroved r d e (List.mem_append_left t hmem), ?_⟩
  · rw [List.filter_append, List.length_append] at honce
    omega
  · exact (List.pairwise_append.mp hbefore).1

theorem Safe.append_commit {h : List Happening} {a : Happening} (hsafe : Safe h)
    (ha : a.isPublished = false) : Safe (h ++ [a]) := by
  obtain ⟨honce, happroved, hbefore⟩ := hsafe
  refine ⟨?_, ?_, ?_⟩
  · rw [List.filter_append, List.length_append]
    simpa [ha] using honce
  · intro r d e hmem
    rcases List.mem_append.mp hmem with hmem | hmem
    · exact happroved r d e hmem
    · rw [← List.mem_singleton.mp hmem] at ha
      cases ha
  · rw [List.pairwise_append]
    refine ⟨hbefore, List.pairwise_singleton _ _, ?_⟩
    intro b _ c hc _
    rw [List.mem_singleton.mp hc, ha]

theorem Safe.append_published {h : List Happening} {r : ℕ} {e : ToolEvent} (hsafe : Safe h)
    (hnone : ∀ a ∈ h, a.isPublished = false ∧ a.isDenied = false) :
    Safe (h ++ [Happening.published r "approved" e]) := by
  obtain ⟨-, happroved, hbefore⟩ := hsafe
  have hfilter : h.filter Happening.isPublished = [] := by
    rw [List.filter_eq_nil_iff]
    intro a ha
    simp [(hnone a ha).1]
  refine ⟨?_, ?_, ?_⟩
  · rw [List.filter_append, hfilter]
    exact Nat.le_refl 1
  · intro r' d e' hmem
    rcases List.mem_append.mp hmem with hmem | hmem
    · exact happroved r' d e' hmem
    · exact (Happening.published.inj (List.mem_singleton.mp hmem)).2.1
  · rw [List.pairwise_append]
    refine ⟨hbefore, List.pairwise_singleton _ _, ?_⟩
    intro b hb c _ hdenied
    rw [(hnone b hb).2] at hdenied
    cases hdenied

/-- A publication that was not approved, or that follows a publication or a denial, is not safe. -/
theorem not_safe_published {h : List Happening} {r : ℕ} {d : String} {e : ToolEvent}
    (hbad : d ≠ "approved" ∨ ∃ a ∈ h, a.isPublished = true ∨ a.isDenied = true) :
    ¬ Safe (h ++ [Happening.published r d e]) := by
  rintro ⟨honce, happroved, hbefore⟩
  rcases hbad with hd | ⟨a, ha, hpublished | hdenied⟩
  · exact hd (happroved r d e (List.mem_append_right h (List.mem_singleton_self _)))
  · have hpos : 0 < (h.filter Happening.isPublished).length :=
      List.length_pos_of_mem (List.mem_filter.mpr ⟨ha, hpublished⟩)
    have hone : ([Happening.published r d e].filter Happening.isPublished).length = 1 := rfl
    rw [List.filter_append, List.length_append, hone] at honce
    omega
  · have := (List.pairwise_append.mp hbefore).2.2 a ha _ (List.mem_singleton_self _) hdenied
    cases this

/-! ## Runs that keep the condition -/

/-- The row still waits for a decision. -/
def State.Open (s : State) : Prop :=
  ∃ m, s.message.extraMetadata = some m ∧ m.status = .needsApproval

/-- What holds in every state of a run whose steps all meet `StepOk`. -/
structure Inv (s : State) : Prop where
  fresh : s.Open → s.history = [] ∧ ∀ j, ¬ s.Publishing j
  /-- A request that has to publish is the only one, approves, and nothing forbids it. -/
  sole : ∀ j req event, s.phase j = .committed req event → req.decision = "approved" ∧
    (∀ a ∈ s.history, a.isPublished = false ∧ a.isDenied = false) ∧ ∀ k, s.Publishing k → k = j
  safe : Safe s.history

theorem Inv.init (message : MessageModel) : Inv (State.init message) := by
  refine ⟨fun _ => ⟨rfl, ?_⟩, ?_, Safe.nil⟩
  · rintro j ⟨req, event, h⟩
    cases h
  · intro j req event h
    cases h

theorem publishing_setPhase {s : State} {r j : ℕ} {p : Phase}
    (hto : ∀ req event, p ≠ .committed req event) :
    (s.setPhase r p).Publishing j ↔ j ≠ r ∧ s.Publishing j := by
  constructor
  · rintro ⟨req, event, h⟩
    rw [setPhase_phase] at h
    split_ifs at h with hj
    · exact absurd h (hto req event)
    · exact ⟨hj, req, event, h⟩
  · rintro ⟨hj, req, event, h⟩
    exact ⟨req, event, by rw [setPhase_phase, if_neg hj, h]⟩

theorem not_open_write (s : State) (r : ℕ) (req : ApprovalRequest) (outcome : Outcome)
    (h : outcome.metadata.status ≠ .needsApproval) : ¬ (s.write r req outcome).Open := by
  rintro ⟨m, hm, hstatus⟩
  cases hevent : outcome.event with
  | none =>
    simp only [State.write, hevent, setPhase_message, Option.some.injEq] at hm
    exact h (hm ▸ hstatus)
  | some event =>
    simp only [State.write, hevent, setPhase_message, Option.some.injEq] at hm
    exact h (hm ▸ hstatus)

/-- **One step that meets `StepOk` keeps the invariant.** -/
theorem Inv.step {s s' : State} {i : Step} (hinv : Inv s) (hok : StepOk s i)
    (hstep : step s i = some s') : Inv s' := by
  cases step_effect hstep with
  | quiet r p hfrom hto =>
    refine ⟨?_, ?_, hinv.safe⟩
    · intro hopen
      obtain ⟨hnil, hnone⟩ := hinv.fresh hopen
      exact ⟨hnil, fun j hj => hnone j ((publishing_setPhase hto).mp hj).2⟩
    · intro j req event hphase
      rw [setPhase_phase] at hphase
      split_ifs at hphase with hj
      · exact absurd hphase (hto req event)
      · obtain ⟨happroved, hnone, hsole⟩ := hinv.sole j req event hphase
        exact ⟨happroved, hnone, fun k hk => hsole k ((publishing_setPhase hto).mp hk).2⟩
  | deny r req message m hphase hdecision =>
    have hnone := (hok req message m hphase).1 hdecision
    refine ⟨fun hopen => absurd hopen (not_open_write s r req _ fun h => by cases h), ?_,
      hinv.safe.append_commit rfl⟩
    intro j req' event' hphase'
    have hpub : (s.write r req ⟨{ m with status := .denied }, none⟩).Publishing j := ⟨_, _, hphase'⟩
    exact absurd ((publishing_setPhase (fun _ _ h => by cases h)).mp hpub).2 (hnone j)
  | approve r req message m args event hphase hdecision hargs =>
    obtain ⟨happroved, hopen⟩ := (hok req message m hphase).2 hdecision hargs
    obtain ⟨hnil, hnone⟩ := hinv.fresh hopen
    have hother : ∀ j req' event', j ≠ r →
        (s.write r req ⟨{ m with status := .approved, args := args }, some event⟩).phase j ≠
          .committed req' event' := by
      intro j req' event' hj h
      rw [State.write, setPhase_phase, if_neg hj] at h
      exact hnone j ⟨req', event', h⟩
    refine ⟨fun hopen => absurd hopen (not_open_write s r req _ fun h => by cases h), ?_,
      hinv.safe.append_commit rfl⟩
    intro j req' event' hphase'
    have hj : j = r := by
      by_contra hj
      exact hother j req' event' hj hphase'
    subst hj
    rw [State.write, setPhase_phase, if_pos rfl] at hphase'
    obtain ⟨rfl, rfl⟩ := Phase.committed.inj hphase'
    refine ⟨happroved, ?_, ?_⟩
    · simp [State.write, hnil, Happening.isPublished, Happening.isDenied]
    · rintro k ⟨req', event', hk⟩
      by_contra hkj
      exact hother k req' event' hkj hk
  | publish r req event hphase =>
    obtain ⟨happroved, hnone, hsole⟩ := hinv.sole r req event hphase
    have hgone : ∀ j, ¬ (s.publish r req event).Publishing j := by
      intro j hj
      obtain ⟨hjr, hj⟩ := (publishing_setPhase (fun _ _ h => by cases h)).mp hj
      exact hjr (hsole j hj)
    refine ⟨?_, fun j req' event' hphase' => absurd ⟨req', event', hphase'⟩ (hgone j), ?_⟩
    · intro hopen
      exact absurd ⟨req, event, hphase⟩ ((hinv.fresh hopen).2 r)
    · rw [State.publish, setPhase_history, happroved]
      exact hinv.safe.append_published hnone

/-! ## Runs that break it -/

/-- A violation that no further step repairs: it is in the history, or it will be once the request
publishes. -/
def Doomed (s : State) : Prop :=
  ¬ Safe s.history ∨ ∃ j req event, s.phase j = .committed req event ∧
    (req.decision ≠ "approved" ∨ (∃ a ∈ s.history, a.isPublished = true ∨ a.isDenied = true) ∨
      ∃ k, k ≠ j ∧ s.Publishing k)

/-- Only a decision ends the wait of the row. -/
def Decided (s : State) : Prop :=
  s.Open ∨ (∃ a ∈ s.history, a.isPublished = true ∨ a.isDenied = true) ∨ ∃ j, s.Publishing j

theorem history_grows {s s' : State} {i : Step} (hstep : step s i = some s') :
    ∃ t, s'.history = s.history ++ t := by
  cases step_effect hstep with
  | quiet r p => exact ⟨[], (List.append_nil _).symm⟩
  | deny r req message m => exact ⟨[.denied r], rfl⟩
  | approve r req message m args event => exact ⟨[.approved r], rfl⟩
  | publish r req event => exact ⟨[.published r req.decision event], rfl⟩

theorem doomed_step {s s' : State} {i : Step} (hdoomed : Doomed s) (hstep : step s i = some s') :
    Doomed s' := by
  obtain ⟨t, ht⟩ := history_grows hstep
  rcases hdoomed with hunsafe | ⟨j, req, event, hj, hbad⟩
  · left
    rw [ht]
    exact fun hsafe => hunsafe hsafe.of_append
  · -- the request still has to publish, unless this is its publication
    have hkept : (∀ k req' event', s.phase k = .committed req' event' →
        s'.phase k = .committed req' event') → Doomed s' := by
      intro hkeep
      refine Or.inr ⟨j, req, event, hkeep j req event hj, ?_⟩
      rcases hbad with happroved | ⟨a, ha, hbad⟩ | ⟨k, hkj, req', event', hk⟩
      · exact Or.inl happroved
      · exact Or.inr (Or.inl ⟨a, by rw [ht]; exact List.mem_append_left t ha, hbad⟩)
      · exact Or.inr (Or.inr ⟨k, hkj, req', event', hkeep k req' event' hk⟩)
    have hset : ∀ (s₀ : State) r p, s₀.phase = s.phase → ¬ s.Publishing r →
        ∀ k req' event', s.phase k = .committed req' event' →
          (s₀.setPhase r p).phase k = .committed req' event' := by
      intro s₀ r p hs₀ hr k req' event' hk
      have hkr : k ≠ r := fun h => hr ⟨req', event', h ▸ hk⟩
      rw [setPhase_phase, if_neg hkr, hs₀, hk]
    cases step_effect hstep with
    | quiet r p hfrom hto => exact hkept (hset s r p rfl hfrom)
    | deny r req' message m hphase =>
      exact hkept (hset _ r _ rfl (not_publishing hphase fun _ _ h => by cases h))
    | approve r req' message m args event' hphase =>
      exact hkept (hset _ r _ rfl (not_publishing hphase fun _ _ h => by cases h))
    | publish r req' event' hphase =>
      by_cases hrj : j = r
      · subst hrj
        obtain ⟨rfl, rfl⟩ := Phase.committed.inj (hj.symm.trans hphase)
        rcases hbad with happroved | hbad | ⟨k, hkj, reqk, eventk, hk⟩
        · exact Or.inl (not_safe_published (Or.inl happroved))
        · exact Or.inl (not_safe_published (Or.inr hbad))
        · refine Or.inr ⟨k, reqk, eventk, ?_,
            Or.inr (Or.inl ⟨.published j req.decision event, ?_, Or.inl rfl⟩)⟩
          · rw [State.publish, setPhase_phase, if_neg hkj]
            exact hk
          · exact List.mem_append_right _ (List.mem_singleton_self _)
      · refine Or.inr ⟨j, req, event, ?_,
          Or.inr (Or.inl ⟨.published r req'.decision event', ?_, Or.inl rfl⟩)⟩
        · rw [State.publish, setPhase_phase, if_neg hrj]
          exact hj
        · exact List.mem_append_right _ (List.mem_singleton_self _)

theorem Decided.step {s s' : State} {i : Step} (hdecided : Decided s)
    (hstep : step s i = some s') : Decided s' := by
  obtain ⟨t, ht⟩ := history_grows hstep
  have hlast : ∀ a ∈ t, a.isPublished = true ∨ a.isDenied = true → Decided s' := by
    intro a ha hbad
    exact Or.inr (Or.inl ⟨a, by rw [ht]; exact List.mem_append_right _ ha, hbad⟩)
  cases step_effect hstep with
  | quiet r p hfrom hto =>
    rcases hdecided with hopen | hbad | ⟨j, hj⟩
    · exact Or.inl hopen
    · exact Or.inr (Or.inl hbad)
    · have hjr : j ≠ r := fun h => hfrom (h ▸ hj)
      exact Or.inr (Or.inr ⟨j, (publishing_setPhase hto).mpr ⟨hjr, hj⟩⟩)
  | deny r req message m =>
    exact Or.inr (Or.inl ⟨.denied r, List.mem_append_right _ (List.mem_singleton_self _), Or.inr rfl⟩)
  | approve r req message m args event =>
    exact Or.inr (Or.inr ⟨r, req, event, by rw [State.write, setPhase_phase, if_pos rfl]⟩)
  | publish r req event =>
    exact Or.inr (Or.inl ⟨.published r req.decision event,
      List.mem_append_right _ (List.mem_singleton_self _), Or.inl rfl⟩)

/-- A step outside `StepOk` dooms the run. -/
theorem doomed_of_violation {s s' : State} {i : Step} (hdecided : Decided s) (hbad : ¬ StepOk s i)
    (hstep : step s i = some s') : Doomed s' := by
  cases step_effect hstep with
  | quiet r p hfrom hto hok => exact absurd hok hbad
  | publish r req event => exact absurd True.intro hbad
  | deny r req message m hphase hdecision =>
    have hsome : ∃ j, s.Publishing j := by
      by_contra hnone
      refine hbad ?_
      intro req' message' m' hphase'
      obtain ⟨rfl, rfl, rfl⟩ := Phase.loaded.inj (hphase.symm.trans hphase')
      exact ⟨fun _ j hj => hnone ⟨j, hj⟩, fun h => absurd hdecision h⟩
    obtain ⟨j, req', event', hj⟩ := hsome
    have hjr : j ≠ r := by
      intro h
      rw [h, hphase] at hj
      cases hj
    refine Or.inr ⟨j, req', event', ?_, Or.inr (Or.inl ⟨.denied r, ?_, Or.inr rfl⟩)⟩
    · rw [State.write, setPhase_phase, if_neg hjr]
      exact hj
    · exact List.mem_append_right _ (List.mem_singleton_self _)
  | approve r req message m args event hphase hdecision hargs =>
    refine Or.inr ⟨r, req, event, by rw [State.write, setPhase_phase, if_pos rfl], ?_⟩
    by_cases happroved : req.decision = "approved"
    · right
      rcases hdecided with hopen | ⟨a, ha, hdone⟩ | ⟨j, req', event', hj⟩
      · refine absurd ?_ hbad
        intro req' message' m' hphase'
        obtain ⟨rfl, rfl, rfl⟩ := Phase.loaded.inj (hphase.symm.trans hphase')
        exact ⟨fun h => absurd h hdecision, fun _ _ => ⟨happroved, hopen⟩⟩
      · exact Or.inl ⟨a, List.mem_append_left _ ha, hdone⟩
      · have hjr : j ≠ r := by
          intro h
          rw [h, hphase] at hj
          cases hj
        refine Or.inr ⟨j, hjr, req', event', ?_⟩
        rw [State.write, setPhase_phase, if_neg hjr]
        exact hj
    · exact Or.inl happroved

/-- The requests that still have to publish do so. -/
def Finishing (is : List Step) : Prop := ∀ i ∈ is, ∃ r, i = .publish r

theorem publish_step {s : State} {r : ℕ} {req : ApprovalRequest} {event : ToolEvent}
    (h : s.phase r = .committed req event) : step s (.publish r) = some (s.publish r req event) := by
  simp only [step, h]

theorem unsafe_of_doomed {s : State} (hdoomed : Doomed s) :
    ∃ is t, Finishing is ∧ exec step s is = some t ∧ ¬ Safe t.history := by
  rcases hdoomed with hunsafe | ⟨j, req, event, hj, hbad⟩
  · exact ⟨[], s, fun i hi => absurd hi List.not_mem_nil, rfl, hunsafe⟩
  · have hone : exec step s [.publish j] = some (s.publish j req event) := by
      rw [exec_cons, publish_step hj]
      rfl
    have hfinishing : Finishing [.publish j] := by simp [Finishing]
    rcases hbad with happroved | hbad | ⟨k, hkj, req', event', hk⟩
    · exact ⟨_, _, hfinishing, hone, not_safe_published (Or.inl happroved)⟩
    · exact ⟨_, _, hfinishing, hone, not_safe_published (Or.inr hbad)⟩
    · -- two requests have to publish: the second publication is one too many
      have hk' : (s.publish j req event).phase k = .committed req' event' := by
        rw [State.publish, setPhase_phase, if_neg hkj]
        exact hk
      have htwo : exec step s [.publish j, .publish k] =
          some ((s.publish j req event).publish k req' event') := by
        rw [exec_cons, publish_step hj, Option.bind_some, exec_cons, publish_step hk']
        rfl
      have hfirst : Happening.published j req.decision event ∈ (s.publish j req event).history :=
        List.mem_append_right _ (List.mem_singleton_self _)
      exact ⟨_, _, by simp [Finishing], htwo,
        not_safe_published (Or.inr ⟨_, hfirst, Or.inl rfl⟩)⟩

theorem guarded_of_not_doomed {s t : State} {is : List Step} (hdecided : Decided s)
    (hrun : exec step s is = some t) (hnot : ¬ Doomed t) : Guarded step StepOk s is := by
  induction is generalizing s with
  | nil => exact True.intro
  | cons i is ih =>
    obtain ⟨s', hstep, hrest⟩ := (exec_cons_eq_some step).mp hrun
    refine ⟨?_, ?_⟩
    · by_contra hbad
      have hdoomed := doomed_of_violation hdecided hbad hstep
      exact hnot (exec_invariant_all (fun _ _ _ h hs => doomed_step h hs) hdoomed hrest)
    · intro s'' hstep'
      have hsame : s' = s'' := Option.some.inj (hstep.symm.trans hstep')
      subst hsame
      exact ih (hdecided.step hstep) hrest

theorem guarded_finishing {is : List Step} (h : Finishing is) (s : State) :
    Guarded step StepOk s is := by
  induction is generalizing s with
  | nil => exact True.intro
  | cons i is ih =>
    obtain ⟨r, rfl⟩ := h i List.mem_cons_self
    exact ⟨True.intro, fun s' _ => ih (fun j hj => h j (List.mem_cons_of_mem _ hj)) s'⟩

/-- **The decisions on a waiting row are safe, whatever is still to be published, exactly in the
runs whose commits all meet `StepOk`.** -/
theorem safe_iff_guarded (message : MessageModel) (is : List Step) (t : State)
    (hopen : (State.init message).Open) (hrun : exec step (State.init message) is = some t) :
    (∀ js u, Finishing js → exec step t js = some u → Safe u.history) ↔
      Guarded step StepOk (State.init message) is := by
  constructor
  · intro hsafe
    refine guarded_of_not_doomed (Or.inl hopen) hrun ?_
    intro hdoomed
    obtain ⟨js, u, hfinishing, hrun', hunsafe⟩ := unsafe_of_doomed hdoomed
    exact hunsafe (hsafe js u hfinishing hrun')
  · intro hguarded js u hfinishing hrun'
    have hinv : Inv t := exec_invariant (fun _ _ _ h hok hs => h.step hok hs) (Inv.init message)
      hguarded hrun
    have hinv' : Inv u := exec_invariant (fun _ _ _ h hok hs => h.step hok hs) hinv
      (guarded_finishing hfinishing t) hrun'
    exact hinv'.safe

/-- A `bash_execute` call of session `s1` that waits for approval. -/
def waitingCall : MessageModel where
  id := 7
  tenantId := "acme"
  sessionId := "s1"
  taskId := some "t1"
  role := "tool"
  content := "APPROVAL REQUIRED: Action 'bash_execute' requires your approval."
  toolCallId := some "call_1"
  toolCalls := []
  extraMetadata := some ⟨.needsApproval, "bash_execute", .obj [("command", .str "ls")]⟩
  sequence := 2

/-- One approval, read and committed: whatever is published after it is safe. -/
theorem safe_single_approval :
    ∃ t, exec step (State.init waitingCall) [.read 0 ⟨"s1", 7, "approved", "acme"⟩, .commit 0] = some t ∧
      ∀ js u, Finishing js → exec step t js = some u → Safe u.history := by
  refine ⟨_, rfl, (safe_iff_guarded waitingCall
    [.read 0 ⟨"s1", 7, "approved", "acme"⟩, .commit 0] _ ⟨_, rfl, rfl⟩ rfl).mpr ?_⟩
  refine ⟨True.intro, fun s' hs' => ⟨?_, fun s'' _ => True.intro⟩⟩
  rw [← Option.some.inj hs']
  intro req message m hphase
  obtain ⟨rfl, rfl, rfl⟩ := Phase.loaded.inj hphase
  exact ⟨fun h => absurd h (by decide), fun _ _ => ⟨rfl, _, rfl, rfl⟩⟩

/-- A decision that is neither `approved` nor `denied` publishes the call. -/
theorem rejected_call_published :
    ¬ ∀ is t, exec step (State.init waitingCall) is = some t → Safe t.history := by
  intro h
  have hsafe := h [.read 0 ⟨"s1", 7, "rejected", "acme"⟩, .commit 0, .publish 0] _ rfl
  have hdecision := hsafe.approved 0 "rejected" _ (List.mem_cons_of_mem _ List.mem_cons_self)
  exact absurd hdecision (by decide)

end KernelRuntime.Approval
