import KernelRuntime.Mcp.Interference

/-! # Unregistering a server that is in use

`unregister_server`, the calls of `execute_tool` and the health check work on the same object of a server and
take no lock. A run interleaves them at their `await`s, from the end of the server's registration on.
`server.process` is never set, so the only process that `unregister_server` closes is the protocol's. -/

namespace KernelRuntime.McpShutdown
open Mcp
set_option autoImplicit false

inductive Status where
  | running
  | stopping
  | error
  | restarting
deriving DecidableEq

/-- The `await` at which `_restart_server` is, with the process that it waits for. -/
inductive Phase where
  | closing (p : ℕ)
  | spawning
  | initializing (p : ℕ)
  /-- `initialize` has failed, and the new process is closed. -/
  | abandoning (p : ℕ)
  | listing (p : ℕ)
deriving DecidableEq

/-- Where `_restart_server` was called from. -/
inductive Caller where
  | recovery
  | retry
  | healthCheck
deriving DecidableEq

/-- A call of `execute_tool`, or the health check, at one of its `await`s. -/
inductive Task where
  | calling (p : ℕ) (again : Bool)
  | restarting (phase : Phase) (caller : Caller)
deriving DecidableEq

/-- The process that the task is going to close or to make the server's own. -/
def Task.process : Task → Option ℕ
  | .restarting (.closing p) _ => some p
  | .restarting (.initializing p) _ => some p
  | .restarting (.abandoning p) _ => some p
  | _ => none

inductive Unregistration where
  | notBegun
  | closing (p : ℕ)
  | returned
deriving DecidableEq

/-- The tables of the manager and the object of the server. `alive` are the processes started for it that run,
`protocol` is the process of `server.protocol`. The health check has `swept` the server up when it is still to
look at it. -/
structure State where
  mcp : Mcp.State
  status : Status
  tools : List ToolManifest
  restartCount : ℕ
  protocol : ℕ
  alive : List ℕ
  spawned : ℕ
  tasks : List (ℕ × Task)
  swept : Bool
  unregistration : Unregistration

def maxRestartAttempts : ℕ := 5

def State.put (s : State) (id : ℕ) (task : Task) : State := { s with tasks := assocSet id task s.tasks }

def State.finish (s : State) (id : ℕ) : State := { s with tasks := assocErase id s.tasks }

section Server
variable (tenantId name : String)

/-- The server after a registration in these tables. -/
def registered (m : Mcp.State) (tools : List ToolManifest) : State :=
  ⟨(registerMcpTools m tenantId name tools).1, .running, tools, 0, 0, [0], 1, [], false, .notBegun⟩

/-! ## Restarting -/

/-- `_restart_server` from the end of the old process to the start of the new one. -/
def teardown (s : State) (id : ℕ) (caller : Caller) : State :=
  { s with mcp := unregisterMcpTools s.mcp tenantId name s.tools }.put id (.restarting .spawning caller)

/-- `_restart_server` up to its first `await`. -/
def restart (s : State) (id : ℕ) (caller : Caller) : State :=
  let s' := { s with status := .restarting, restartCount := s.restartCount + 1 }
  if s.protocol ∈ s.alive then s'.put id (.restarting (.closing s.protocol) caller)
  else teardown tenantId name s' id caller

/-- What the caller does when `_restart_server` has returned. -/
def resume (s : State) (id : ℕ) : Caller → State
  | .recovery => if s.status = .running then s.put id (.calling s.protocol false) else s.finish id
  | .retry => s.put id (.calling s.protocol true)
  | .healthCheck => s.finish id

/-- `_restart_server` catches the error and returns. -/
def restartFails (s : State) (id : ℕ) (caller : Caller) : State := resume { s with status := .error } id caller

/-- `_start_server` with the tools that the new process lists. -/
def toolsListed (s : State) (id : ℕ) (caller : Caller) (tools : List ToolManifest) : State :=
  let (m, completed) := registerMcpTools s.mcp tenantId name tools
  let s' := { s with mcp := m, tools := tools }
  if completed then resume s' id caller else restartFails s' id caller

/-! ## The operations -/

/-- `execute_tool` up to its first `await`. -/
def executeTool (s : State) (id : ℕ) : State :=
  if s.unregistration = .returned then s
  else
    match s.status with
    | .error => restart tenantId name s id .recovery
    | .running => s.put id (.calling s.protocol false)
    | _ => s

inductive Answer where
  | result
  | protocolError
  | otherError

/-- Only the first call is repeated, and only after a protocol error. -/
def answered (s : State) (id : ℕ) (again : Bool) : Answer → State
  | .protocolError => if again then s.finish id else restart tenantId name s id .retry
  | _ => s.finish id

/-- `_check_all_servers`, for this server. -/
def checkServer (s : State) (id : ℕ) : State :=
  if s.status = .running ∨ s.status = .error then
    if s.protocol ∈ s.alive then s
    else if s.restartCount < maxRestartAttempts then restart tenantId name { s with status := .error } id .healthCheck
    else { s with status := .error }
  else s

/-- `unregister_server` from the end of the process on; the server leaves the table. -/
def unregisterEnd (s : State) : State :=
  { s with mcp := unregisterMcpTools s.mcp tenantId name s.tools, unregistration := .returned }

/-- `unregister_server` up to its first `await`. -/
def unregisterBegin (s : State) : State :=
  let s' := { s with status := .stopping }
  if s.protocol ∈ s.alive then { s' with unregistration := .closing s.protocol } else unregisterEnd tenantId name s'

/-! ## Runs -/

inductive Label where
  | executeTool (id : ℕ)
  | answered (id : ℕ) (answer : Answer)
  /-- The task's process has ended, and `close` returns. -/
  | closed (id : ℕ)
  | spawned (id : ℕ)
  | spawnFails (id : ℕ)
  | initialized (id : ℕ)
  | initializeFails (id : ℕ)
  | toolsListed (id : ℕ) (tools : List ToolManifest)
  | listFails (id : ℕ)
  /-- A start of a process that is cancelled kills it; the other `await`s leave theirs alone. -/
  | cancel (id : ℕ)
  /-- The health check begins a round. -/
  | sweep
  | check (id : ℕ)
  /-- A process ends, by itself or after a signal. -/
  | exits (p : ℕ)
  | unregister
  | unregisterClosed

def step (s : State) : Label → Option State
  | .executeTool id => if (s.tasks.lookup id).isNone then some (executeTool tenantId name s id) else none
  | .answered id answer =>
    match s.tasks.lookup id with
    | some (.calling _ again) => some (answered tenantId name s id again answer)
    | _ => none
  | .closed id =>
    match s.tasks.lookup id with
    | some (.restarting (.closing p) caller) =>
      if p ∈ s.alive then none else some (teardown tenantId name s id caller)
    | some (.restarting (.abandoning p) caller) => if p ∈ s.alive then none else some (restartFails s id caller)
    | _ => none
  | .spawned id =>
    match s.tasks.lookup id with
    | some (.restarting .spawning caller) =>
      some ({ s with alive := s.spawned :: s.alive, spawned := s.spawned + 1 }.put id
        (.restarting (.initializing s.spawned) caller))
    | _ => none
  | .spawnFails id =>
    match s.tasks.lookup id with
    | some (.restarting .spawning caller) => some (restartFails s id caller)
    | _ => none
  | .initialized id =>
    match s.tasks.lookup id with
    | some (.restarting (.initializing p) caller) =>
      some ({ s with protocol := p, status := .running }.put id (.restarting (.listing p) caller))
    | _ => none
  | .initializeFails id =>
    match s.tasks.lookup id with
    | some (.restarting (.initializing p) caller) =>
      some (if p ∈ s.alive then s.put id (.restarting (.abandoning p) caller) else restartFails s id caller)
    | _ => none
  | .toolsListed id tools =>
    match s.tasks.lookup id with
    | some (.restarting (.listing _) caller) => some (toolsListed tenantId name s id caller tools)
    | _ => none
  | .listFails id =>
    match s.tasks.lookup id with
    | some (.restarting (.listing _) caller) => some (restartFails s id caller)
    | _ => none
  | .cancel id => (s.tasks.lookup id).map fun _ => s.finish id
  | .sweep =>
    if s.unregistration ≠ .returned ∧ s.tasks.all (fun t => match t.2 with
        | .restarting _ .healthCheck => false
        | _ => true) then some { s with swept := true }
    else none
  | .check id =>
    if s.swept ∧ (s.tasks.lookup id).isNone then some (checkServer tenantId name { s with swept := false } id)
    else none
  | .exits p => if p ∈ s.alive then some { s with alive := s.alive.filter (· ≠ p) } else none
  | .unregister =>
    match s.unregistration with
    | .notBegun => some (unregisterBegin tenantId name s)
    | _ => none
  | .unregisterClosed =>
    match s.unregistration with
    | .closing p => if p ∈ s.alive then none else some (unregisterEnd tenantId name s)
    | _ => none

/-! ## What may be left -/

def Owned (tool : ToolInstance) : Prop := serverOf tool.provider = some (tenantId, name)

structure NoTools (m : Mcp.State) : Prop where
  registry : ∀ k tool, m.registry.toolInstances.get? k = some tool → ¬ Owned tenantId name tool
  adapters : ∀ k tool, m.adapters.get? k = some tool → ¬ Owned tenantId name tool

structure NothingLeft (s : State) : Prop where
  tools : NoTools tenantId name s.mcp
  processes : s.alive = []

/-- `unregister_server` or a task other than `id` is going to close the process. -/
def ClosedBeside (s : State) (id : ℕ) (p : ℕ) : Prop :=
  s.unregistration = .closing p ∨ ∃ t ∈ s.tasks, t.1 ≠ id ∧ t.2.process = some p

/-- The process is the server's own, and `unregister_server` is still to come. -/
def Own (s : State) (p : ℕ) : Prop := s.unregistration = .notBegun ∧ s.protocol = p

/-- A new process becomes the server's own before `unregister_server` begins, and replaces one that has ended
or is being closed. No task is cancelled while it alone refers to a process that runs. Tools are registered
before `unregister_server` ends, and in place of the former ones. -/
def StepOk (s : State) : Label → Prop
  | .initialized id => ∀ task ∈ s.tasks.lookup id, ∀ p ∈ task.process,
      (p ∈ s.alive → s.unregistration = .notBegun) ∧ (s.protocol ∈ s.alive → ClosedBeside s id s.protocol)
  | .cancel id => ∀ task ∈ s.tasks.lookup id, ∀ p ∈ task.process, p ∈ s.alive → ClosedBeside s id p ∨ Own s p
  | .toolsListed _ tools => (s.unregistration = .returned → tools = []) ∧
      ∀ e ∈ s.mcp.registry.toolInstances.entries, Owned tenantId name e.2 →
        e.1 ∈ tools.map fun tool => adapterName name tool.name
  | _ => True

instance (tool : ToolInstance) : Decidable (Owned tenantId name tool) := inferInstanceAs (Decidable (_ = _))

instance (s : State) (id p : ℕ) : Decidable (ClosedBeside s id p) :=
  inferInstanceAs (Decidable (_ = _ ∨ ∃ t ∈ s.tasks, _))

instance (s : State) (p : ℕ) : Decidable (Own s p) := inferInstanceAs (Decidable (_ ∧ _))

instance (s : State) : (i : Label) → Decidable (StepOk tenantId name s i)
  | .initialized id => inferInstanceAs (Decidable (∀ task ∈ s.tasks.lookup id, ∀ p ∈ task.process, _ ∧ _))
  | .cancel id => inferInstanceAs (Decidable (∀ task ∈ s.tasks.lookup id, ∀ p ∈ task.process, _ → _))
  | .toolsListed _ _ => inferInstanceAs (Decidable (_ ∧ ∀ e ∈ s.mcp.registry.toolInstances.entries, _ → _))
  | .executeTool _ => isTrue trivial
  | .answered _ _ => isTrue trivial
  | .closed _ => isTrue trivial
  | .spawned _ => isTrue trivial
  | .spawnFails _ => isTrue trivial
  | .initializeFails _ => isTrue trivial
  | .listFails _ => isTrue trivial
  | .sweep => isTrue trivial
  | .check _ => isTrue trivial
  | .exits _ => isTrue trivial
  | .unregister => isTrue trivial
  | .unregisterClosed => isTrue trivial

/-! ## The tables -/

/-- Every entry of the server is found again by the name of one of these tools, or by its prefix. -/
structure Entries (m : Mcp.State) (tools : List ToolManifest) : Prop where
  registry : ∀ k tool, m.registry.toolInstances.get? k = some tool → Owned tenantId name tool →
    k ∈ tools.map fun tool => adapterName name tool.name
  adapters : ∀ k tool, m.adapters.get? k = some tool → Owned tenantId name tool →
    ∃ toolName, k = (tenantId, adapterName name toolName)

variable {tenantId name} {m : Mcp.State} {tools : List ToolManifest}

theorem NoTools.entries (h : NoTools tenantId name m) (tools : List ToolManifest) :
    Entries tenantId name m tools where
  registry k tool hk howned := absurd howned (h.registry k tool hk)
  adapters k tool hk howned := absurd howned (h.adapters k tool hk)

theorem Entries.unregister (h : Entries tenantId name m tools) :
    NoTools tenantId name (unregisterMcpTools m tenantId name tools) where
  registry k tool hk howned := by
    have hk' : (List.foldl (fun d (tool : ToolManifest) => d.erase (adapterName name tool.name))
        m.registry.toolInstances tools).get? k = some tool := hk
    rw [← List.foldl_map (f := fun tool : ToolManifest => adapterName name tool.name),
      OrderedDict.get?_foldl_erase] at hk'
    split_ifs at hk' with hname
    exact hname (h.registry k tool hk' howned)
  adapters k tool hk howned := by
    have hk' : (List.foldl OrderedDict.erase m.adapters _).get? k = some tool := hk
    rw [OrderedDict.get?_foldl_erase] at hk'
    split_ifs at hk' with hprefix
    obtain ⟨toolName, rfl⟩ := h.adapters k tool hk' howned
    rw [get?_adapters_unregister] at hk
    cases hk

/-- What `_register_mcp_tools` adds carries the name of one of its tools. -/
theorem Entries.register (h : Entries tenantId name m tools) :
    Entries tenantId name (registerMcpTools m tenantId name tools).1 tools := by
  have hadapters : ∀ k tool, (registerAdapters tenantId name m.adapters tools).adapters.get? k = some tool →
      Owned tenantId name tool → ∃ toolName, k = (tenantId, adapterName name toolName) := by
    intro k tool hk howned
    obtain hold | ⟨t, _, hkey, _⟩ := registerAdapters_cases tools m.adapters hk
    · exact h.adapters k tool hold howned
    · exact ⟨t.name, hkey⟩
  unfold registerMcpTools
  simp only
  split_ifs with hcompleted
  · refine ⟨fun k tool hk howned => ?_, fun k tool hk howned => ?_⟩
    · have hk' : (mirror m.registry.toolInstances (registerAdapters tenantId name m.adapters tools).created).get? k =
          some tool := hk
      rw [get?_mirror] at hk'
      cases hold : m.registry.toolInstances.get? k with
      | some old =>
        rw [hold, Option.some_or] at hk'
        exact h.registry k tool (hold.trans hk') howned
      | none =>
        rw [hold, Option.none_or] at hk'
        have hname : tool.name = k := by simpa using List.find?_some hk'
        obtain ⟨t, ht, rfl⟩ := exists_of_mem_created tools m.adapters (List.mem_of_find?_eq_some hk')
        rw [← hname]
        exact List.mem_map_of_mem ht
    · exact hadapters k tool hk howned
  · exact ⟨h.registry, hadapters⟩

theorem NoTools.register_nil (h : NoTools tenantId name m) :
    NoTools tenantId name (registerMcpTools m tenantId name []).1 := ⟨h.registry, h.adapters⟩

/-! ## Between the `await`s -/

/-- Somebody refers to the process, and will close it or leave it to `unregister_server`. -/
def Cared (s : State) (p : ℕ) : Prop :=
  Own s p ∨ s.unregistration = .closing p ∨ ∃ t ∈ s.tasks, t.2.process = some p

variable (tenantId name)

structure Inv (s : State) : Prop where
  ids : (s.tasks.map Prod.fst).Nodup
  cared : ∀ p ∈ s.alive, Cared s p
  tools : Entries tenantId name s.mcp s.tools
  returned : s.unregistration = .returned → NoTools tenantId name s.mcp

/-- A task has gone on. The processes are the same, and the tools of the server may have been removed. -/
structure Moved (s : State) (id : ℕ) (s' : State) : Prop where
  alive : s'.alive = s.alive
  protocol : s'.protocol = s.protocol
  unregistration : s'.unregistration = s.unregistration
  tasks : ∀ t ∈ s.tasks, t.1 ≠ id → t ∈ s'.tasks
  ids : (s.tasks.map Prod.fst).Nodup → (s'.tasks.map Prod.fst).Nodup
  tools : s'.tools = s.tools
  mcp : s'.mcp = s.mcp ∨ s'.mcp = unregisterMcpTools s.mcp tenantId name s.tools

variable {tenantId name} {s s' : State} {id : ℕ}

theorem Inv.registered (hnew : NoTools tenantId name m) (tools : List ToolManifest) :
    Inv tenantId name (registered tenantId name m tools) where
  ids := List.nodup_nil
  cared _ hp := Or.inl ⟨rfl, (List.mem_singleton.mp hp).symm⟩
  tools := (hnew.entries tools).register
  returned h := nomatch h

theorem Inv.nothingLeft (h : Inv tenantId name s) (hreturned : s.unregistration = .returned)
    (hended : s.tasks = []) : NothingLeft tenantId name s where
  tools := h.returned hreturned
  processes := by
    refine List.eq_nil_iff_forall_not_mem.mpr fun p hp => ?_
    rcases h.cared p hp with ⟨hnotBegun, _⟩ | hclosing | ⟨t, ht, _⟩
    · rw [hreturned] at hnotBegun
      cases hnotBegun
    · rw [hreturned] at hclosing
      cases hclosing
    · rw [hended] at ht
      cases ht

theorem ClosedBeside.cared {p : ℕ} (h : ClosedBeside s id p) (hsame : s'.unregistration = s.unregistration)
    (htasks : ∀ t ∈ s.tasks, t.1 ≠ id → t ∈ s'.tasks) : Cared s' p := by
  rcases h with hclosing | ⟨t, ht, hne, hprocess⟩
  · exact Or.inr (Or.inl (hsame.trans hclosing))
  · exact Or.inr (Or.inr ⟨t, htasks t ht hne, hprocess⟩)

/-- A process that a task does not refer to is cared for by the rest. -/
theorem Inv.closedBeside (h : Inv tenantId name s) {p : ℕ} (hp : p ∈ s.alive)
    (hne : ∀ task ∈ s.tasks.lookup id, task.process ≠ some p) : ClosedBeside s id p ∨ Own s p := by
  rcases h.cared p hp with hown | hclosing | ⟨t, ht, hprocess⟩
  · exact Or.inr hown
  · exact Or.inl (Or.inl hclosing)
  · refine Or.inl (Or.inr ⟨t, ht, fun hid => ?_, hprocess⟩)
    subst hid
    exact hne t.2 ((lookup_eq_some_iff h.ids _ _).mpr ht) hprocess

theorem forall_lookup {task : Task} {P : Task → Prop} (hlookup : s.tasks.lookup id = some task) (h : P task) :
    ∀ task' ∈ s.tasks.lookup id, P task' := by
  intro task' htask'
  obtain rfl := Option.some.inj (hlookup.symm.trans htask')
  exact h

theorem forall_lookup_isNone {P : Task → Prop} (hidle : (s.tasks.lookup id).isNone = true) :
    ∀ task ∈ s.tasks.lookup id, P task := by
  rw [Option.isNone_iff_eq_none.mp hidle]
  exact nofun

/-! ## One task goes on -/

theorem Moved.put (s : State) (id : ℕ) (task : Task) : Moved tenantId name s id (s.put id task) :=
  ⟨rfl, rfl, rfl, fun _ ht hne => mem_assocSet_of_ne ht hne, nodup_assocSet _ _, rfl, Or.inl rfl⟩

theorem Moved.finish (s : State) (id : ℕ) : Moved tenantId name s id (s.finish id) :=
  ⟨rfl, rfl, rfl, fun _ ht hne => mem_assocErase.mpr ⟨ht, hne⟩, nodup_assocErase _, rfl, Or.inl rfl⟩

/-- The status and the counter do not matter. -/
theorem Moved.of_object {status : Status} {restartCount : ℕ} {swept : Bool}
    (h : Moved tenantId name { s with status := status, restartCount := restartCount, swept := swept } id s') :
    Moved tenantId name s id s' :=
  ⟨h.alive, h.protocol, h.unregistration, h.tasks, h.ids, h.tools, h.mcp⟩

theorem moved_teardown (s : State) (id : ℕ) (caller : Caller) :
    Moved tenantId name s id (teardown tenantId name s id caller) :=
  ⟨rfl, rfl, rfl, fun _ ht hne => mem_assocSet_of_ne ht hne, nodup_assocSet _ _, rfl, Or.inr rfl⟩

theorem moved_restart (s : State) (id : ℕ) (caller : Caller) :
    Moved tenantId name s id (restart tenantId name s id caller) := by
  unfold restart
  simp only
  split_ifs
  · exact (Moved.put _ id _).of_object
  · exact (moved_teardown _ id caller).of_object

theorem moved_resume (s : State) (id : ℕ) (caller : Caller) : Moved tenantId name s id (resume s id caller) := by
  cases caller with
  | recovery =>
    unfold resume
    split_ifs
    · exact Moved.put s id _
    · exact Moved.finish s id
  | retry => exact Moved.put s id _
  | healthCheck => exact Moved.finish s id

theorem moved_restartFails (s : State) (id : ℕ) (caller : Caller) :
    Moved tenantId name s id (restartFails s id caller) :=
  (moved_resume _ id caller).of_object

/-- The task's own process has ended, or others refer to it. -/
theorem Inv.moved (h : Inv tenantId name s) (hmoved : Moved tenantId name s id s')
    (hprocess : ∀ task ∈ s.tasks.lookup id, ∀ p ∈ task.process, p ∈ s.alive → ClosedBeside s id p ∨ Own s p) :
    Inv tenantId name s' := by
  refine ⟨hmoved.ids h.ids, fun p hp => ?_, ?_, fun hreturned => ?_⟩
  · rw [hmoved.alive] at hp
    have hbeside : ClosedBeside s id p ∨ Own s p := by
      by_cases hown : ∃ task ∈ s.tasks.lookup id, task.process = some p
      · obtain ⟨task, htask, hp'⟩ := hown
        exact hprocess task htask p hp' hp
      · exact h.closedBeside hp fun task htask hp' => hown ⟨task, htask, hp'⟩
    rcases hbeside with hclosed | ⟨hnotBegun, hprotocol⟩
    · exact hclosed.cared hmoved.unregistration hmoved.tasks
    · exact Or.inl ⟨hmoved.unregistration.trans hnotBegun, hmoved.protocol.trans hprotocol⟩
  · rw [hmoved.tools]
    rcases hmoved.mcp with hmcp | hmcp
    · rw [hmcp]
      exact h.tools
    · rw [hmcp]
      exact h.tools.unregister.entries _
  · rcases hmoved.mcp with hmcp | hmcp
    · rw [hmcp]
      exact h.returned (hmoved.unregistration ▸ hreturned)
    · rw [hmcp]
      exact h.tools.unregister

theorem Inv.moved_free (h : Inv tenantId name s) (hmoved : Moved tenantId name s id s')
    (hfree : ∀ task ∈ s.tasks.lookup id, task.process = none) : Inv tenantId name s' :=
  h.moved hmoved fun task htask p hp => by rw [hfree task htask] at hp; cases hp

theorem Inv.moved_dead (h : Inv tenantId name s) (hmoved : Moved tenantId name s id s') {task : Task} {p : ℕ}
    (hlookup : s.tasks.lookup id = some task) (htask : task.process = some p) (hdead : p ∉ s.alive) :
    Inv tenantId name s' := by
  refine h.moved hmoved (forall_lookup hlookup fun q hq halive => ?_)
  obtain rfl := Option.some.inj (htask.symm.trans hq)
  exact absurd halive hdead

/-! ## The steps that change more -/

theorem Inv.spawned (h : Inv tenantId name s) {caller : Caller}
    (hlookup : s.tasks.lookup id = some (.restarting .spawning caller)) :
    Inv tenantId name ({ s with alive := s.spawned :: s.alive, spawned := s.spawned + 1 }.put id
      (.restarting (.initializing s.spawned) caller)) := by
  refine ⟨nodup_assocSet _ _ h.ids, fun p hp => ?_, h.tools, h.returned⟩
  rcases List.mem_cons.mp hp with rfl | hold
  · exact Or.inr (Or.inr ⟨_, mem_assocSet_self _ _ _, rfl⟩)
  · rcases h.closedBeside hold (forall_lookup hlookup nofun) with hclosed | hown
    · exact hclosed.cared rfl fun _ ht hne => mem_assocSet_of_ne ht hne
    · exact Or.inl hown

theorem Inv.initialized (h : Inv tenantId name s) {p : ℕ} {caller : Caller}
    (hlookup : s.tasks.lookup id = some (.restarting (.initializing p) caller))
    (hbegun : p ∈ s.alive → s.unregistration = .notBegun)
    (hreplaced : s.protocol ∈ s.alive → ClosedBeside s id s.protocol) :
    Inv tenantId name ({ s with protocol := p, status := .running }.put id (.restarting (.listing p) caller)) := by
  refine ⟨nodup_assocSet _ _ h.ids, fun q hq => ?_, h.tools, h.returned⟩
  by_cases hsame : q = p
  · subst hsame
    exact Or.inl ⟨hbegun hq, rfl⟩
  · have hne : ∀ task ∈ s.tasks.lookup id, task.process ≠ some q :=
      forall_lookup hlookup fun hprocess => hsame (Option.some.inj hprocess).symm
    have hclosed : ClosedBeside s id q := by
      rcases h.closedBeside hq hne with hclosed | ⟨_, rfl⟩
      · exact hclosed
      · exact hreplaced hq
    exact hclosed.cared rfl fun _ ht hne => mem_assocSet_of_ne ht hne

theorem Inv.abandoning (h : Inv tenantId name s) {p : ℕ} {caller : Caller}
    (hlookup : s.tasks.lookup id = some (.restarting (.initializing p) caller)) :
    Inv tenantId name (s.put id (.restarting (.abandoning p) caller)) := by
  refine ⟨nodup_assocSet _ _ h.ids, fun q hq => ?_, h.tools, h.returned⟩
  by_cases hsame : q = p
  · exact Or.inr (Or.inr ⟨_, mem_assocSet_self _ _ _, by rw [hsame]; rfl⟩)
  · have hne : ∀ task ∈ s.tasks.lookup id, task.process ≠ some q :=
      forall_lookup hlookup fun hprocess => hsame (Option.some.inj hprocess).symm
    rcases h.closedBeside hq hne with hclosed | hown
    · exact hclosed.cared rfl fun _ ht hne => mem_assocSet_of_ne ht hne
    · exact Or.inl hown

theorem Inv.toolsListed (h : Inv tenantId name s) {p : ℕ} {caller : Caller}
    (hlookup : s.tasks.lookup id = some (.restarting (.listing p) caller))
    (hreturned : s.unregistration = .returned → tools = [])
    (hnames : ∀ e ∈ s.mcp.registry.toolInstances.entries, Owned tenantId name e.2 →
      e.1 ∈ tools.map fun tool => adapterName name tool.name) :
    Inv tenantId name (toolsListed tenantId name s id caller tools) := by
  have hentries : Entries tenantId name s.mcp tools :=
    ⟨fun k tool hk => hnames (k, tool) ((lookup_eq_some_iff s.mcp.registry.toolInstances.nodup _ _).mp hk),
      h.tools.adapters⟩
  have hs : Inv tenantId name { s with mcp := (registerMcpTools s.mcp tenantId name tools).1, tools := tools } := by
    refine ⟨h.ids, h.cared, hentries.register, fun hended => ?_⟩
    obtain rfl := hreturned hended
    exact (h.returned hended).register_nil
  have hfree : ∀ task ∈ s.tasks.lookup id, task.process = none := forall_lookup hlookup rfl
  unfold McpShutdown.toolsListed
  simp only
  split_ifs
  · exact hs.moved_free (moved_resume _ id caller) hfree
  · exact hs.moved_free (moved_restartFails _ id caller) hfree

theorem Inv.exits (h : Inv tenantId name s) (p : ℕ) :
    Inv tenantId name { s with alive := s.alive.filter (· ≠ p) } :=
  ⟨h.ids, fun q hq => h.cared q (List.mem_of_mem_filter hq), h.tools, h.returned⟩

/-- `unregister_server` returns when the tasks refer to every process that is left. -/
theorem Inv.unregisterEnd (h : Inv tenantId name s)
    (htasks : ∀ p ∈ s.alive, ∃ t ∈ s.tasks, t.2.process = some p) :
    Inv tenantId name (unregisterEnd tenantId name s) :=
  ⟨h.ids, fun p hp => Or.inr (Or.inr (htasks p hp)), h.tools.unregister.entries _, fun _ => h.tools.unregister⟩

theorem Inv.unregisterBegin (h : Inv tenantId name s) (hnotBegun : s.unregistration = .notBegun) :
    Inv tenantId name (unregisterBegin tenantId name s) := by
  have hclosing : ∀ {p q : ℕ}, s.unregistration = .closing p → s.protocol = q := by
    intro p q hclosing
    rw [hnotBegun] at hclosing
    cases hclosing
  unfold McpShutdown.unregisterBegin
  simp only
  split_ifs with halive
  · refine ⟨h.ids, fun p hp => ?_, h.tools, nofun⟩
    rcases h.cared p hp with ⟨_, hown⟩ | hp' | htask
    · exact Or.inr (Or.inl (congrArg Unregistration.closing hown))
    · exact Or.inr (Or.inl (congrArg Unregistration.closing (hclosing hp')))
    · exact Or.inr (Or.inr htask)
  · have hs : Inv tenantId name { s with status := .stopping } := ⟨h.ids, h.cared, h.tools, h.returned⟩
    refine hs.unregisterEnd fun p hp => ?_
    rcases h.cared p hp with ⟨_, hown⟩ | hp' | htask
    · exact absurd (hown ▸ hp) halive
    · exact absurd (hclosing hp' ▸ hp) halive
    · exact htask

theorem Inv.unregisterClosed (h : Inv tenantId name s) {p : ℕ} (hclosing : s.unregistration = .closing p)
    (hdead : p ∉ s.alive) : Inv tenantId name (McpShutdown.unregisterEnd tenantId name s) := by
  refine h.unregisterEnd fun q hq => ?_
  rcases h.cared q hq with ⟨hnotBegun, _⟩ | hq' | htask
  · rw [hclosing] at hnotBegun
    cases hnotBegun
  · obtain rfl := Unregistration.closing.inj (hclosing.symm.trans hq')
    exact absurd hq hdead
  · exact htask

theorem Inv.executeTool (h : Inv tenantId name s) (hidle : (s.tasks.lookup id).isNone = true) :
    Inv tenantId name (executeTool tenantId name s id) := by
  have hfree : ∀ task ∈ s.tasks.lookup id, task.process = none := forall_lookup_isNone hidle
  unfold McpShutdown.executeTool
  split_ifs
  · exact h
  · split
    next => exact h.moved_free (moved_restart s id _) hfree
    next => exact h.moved_free (Moved.put s id _) hfree
    next => exact h

theorem Inv.checkServer (h : Inv tenantId name s) (hidle : (s.tasks.lookup id).isNone = true) :
    Inv tenantId name (checkServer tenantId name s id) := by
  have hfree : ∀ task ∈ s.tasks.lookup id, task.process = none := forall_lookup_isNone hidle
  unfold McpShutdown.checkServer
  split_ifs
  · exact h
  · exact h.moved_free (moved_restart _ id _).of_object hfree
  · exact ⟨h.ids, h.cared, h.tools, h.returned⟩
  · exact h

theorem Inv.answered (h : Inv tenantId name s) {p : ℕ} {again : Bool}
    (hlookup : s.tasks.lookup id = some (.calling p again)) (answer : Answer) :
    Inv tenantId name (answered tenantId name s id again answer) := by
  have hfree : ∀ task ∈ s.tasks.lookup id, task.process = none := forall_lookup hlookup rfl
  cases answer with
  | protocolError =>
    simp only [McpShutdown.answered]
    split_ifs
    · exact h.moved_free (Moved.finish s id) hfree
    · exact h.moved_free (moved_restart s id _) hfree
  | result => exact h.moved_free (Moved.finish s id) hfree
  | otherError => exact h.moved_free (Moved.finish s id) hfree

/-! ## What a step can do -/

variable (tenantId name) in
/-- `fails` are all the ways in which `_restart_server` fails without a process left to close. -/
inductive Moves (s : State) : Label → State → Prop
  | executeTool {id : ℕ} (hidle : (s.tasks.lookup id).isNone = true) :
      Moves s (.executeTool id) (executeTool tenantId name s id)
  | answered {id p : ℕ} {again : Bool} (answer : Answer) (hlookup : s.tasks.lookup id = some (.calling p again)) :
      Moves s (.answered id answer) (answered tenantId name s id again answer)
  | teardown {id p : ℕ} {caller : Caller} (hlookup : s.tasks.lookup id = some (.restarting (.closing p) caller))
      (hdead : p ∉ s.alive) : Moves s (.closed id) (teardown tenantId name s id caller)
  | spawned {id : ℕ} {caller : Caller} (hlookup : s.tasks.lookup id = some (.restarting .spawning caller)) :
      Moves s (.spawned id) ({ s with alive := s.spawned :: s.alive, spawned := s.spawned + 1 }.put id
        (.restarting (.initializing s.spawned) caller))
  | initialized {id p : ℕ} {caller : Caller}
      (hlookup : s.tasks.lookup id = some (.restarting (.initializing p) caller)) :
      Moves s (.initialized id) ({ s with protocol := p, status := .running }.put id (.restarting (.listing p) caller))
  | abandoning {id p : ℕ} {caller : Caller}
      (hlookup : s.tasks.lookup id = some (.restarting (.initializing p) caller)) :
      Moves s (.initializeFails id) (s.put id (.restarting (.abandoning p) caller))
  | toolsListed {id p : ℕ} {caller : Caller} (tools : List ToolManifest)
      (hlookup : s.tasks.lookup id = some (.restarting (.listing p) caller)) :
      Moves s (.toolsListed id tools) (toolsListed tenantId name s id caller tools)
  | fails {i : Label} {id : ℕ} {phase : Phase} {caller : Caller}
      (hlookup : s.tasks.lookup id = some (.restarting phase caller))
      (hdead : ∀ p, (Task.restarting phase caller).process = some p → p ∉ s.alive) :
      Moves s i (restartFails s id caller)
  | cancel (id : ℕ) : Moves s (.cancel id) (s.finish id)
  | sweep : Moves s .sweep { s with swept := true }
  | check {id : ℕ} (hidle : (s.tasks.lookup id).isNone = true) :
      Moves s (.check id) (checkServer tenantId name { s with swept := false } id)
  | exits (p : ℕ) : Moves s (.exits p) { s with alive := s.alive.filter (· ≠ p) }
  | unregister (hnotBegun : s.unregistration = .notBegun) :
      Moves s .unregister (unregisterBegin tenantId name s)
  | unregisterClosed {p : ℕ} (hclosing : s.unregistration = .closing p) (hdead : p ∉ s.alive) :
      Moves s .unregisterClosed (unregisterEnd tenantId name s)

theorem step_cases {i : Label} (h : McpShutdown.step tenantId name s i = some s') : Moves tenantId name s i s' := by
  cases i with
  | executeTool id =>
    simp only [McpShutdown.step] at h
    split_ifs at h with hidle
    exact Option.some.inj h ▸ .executeTool hidle
  | answered id answer =>
    simp only [McpShutdown.step] at h
    split at h
    next hlookup => exact Option.some.inj h ▸ .answered answer hlookup
    next => cases h
  | closed id =>
    simp only [McpShutdown.step] at h
    split at h
    next hlookup =>
      split_ifs at h with hdead
      exact Option.some.inj h ▸ .teardown hlookup hdead
    next hlookup =>
      split_ifs at h with hdead
      exact Option.some.inj h ▸ .fails hlookup fun q hq => Option.some.inj hq ▸ hdead
    next => cases h
  | spawned id =>
    simp only [McpShutdown.step] at h
    split at h
    next hlookup => exact Option.some.inj h ▸ .spawned hlookup
    next => cases h
  | spawnFails id =>
    simp only [McpShutdown.step] at h
    split at h
    next hlookup => exact Option.some.inj h ▸ .fails hlookup nofun
    next => cases h
  | initialized id =>
    simp only [McpShutdown.step] at h
    split at h
    next hlookup => exact Option.some.inj h ▸ .initialized hlookup
    next => cases h
  | initializeFails id =>
    simp only [McpShutdown.step] at h
    split at h
    next hlookup =>
      split_ifs at h with hdead
      · exact Option.some.inj h ▸ .abandoning hlookup
      · exact Option.some.inj h ▸ .fails hlookup fun q hq => Option.some.inj hq ▸ hdead
    next => cases h
  | toolsListed id tools =>
    simp only [McpShutdown.step] at h
    split at h
    next hlookup => exact Option.some.inj h ▸ .toolsListed tools hlookup
    next => cases h
  | listFails id =>
    simp only [McpShutdown.step] at h
    split at h
    next hlookup => exact Option.some.inj h ▸ .fails hlookup nofun
    next => cases h
  | cancel id =>
    obtain ⟨_, _, rfl⟩ := Option.map_eq_some_iff.mp h
    exact .cancel id
  | sweep =>
    simp only [McpShutdown.step] at h
    split_ifs at h
    exact Option.some.inj h ▸ .sweep
  | check id =>
    simp only [McpShutdown.step] at h
    split_ifs at h with henabled
    exact Option.some.inj h ▸ .check henabled.2
  | exits p =>
    simp only [McpShutdown.step] at h
    split_ifs at h
    exact Option.some.inj h ▸ .exits p
  | unregister =>
    simp only [McpShutdown.step] at h
    split at h
    next hnotBegun => exact Option.some.inj h ▸ .unregister hnotBegun
    next => cases h
  | unregisterClosed =>
    simp only [McpShutdown.step] at h
    split at h
    next hclosing =>
      split_ifs at h with hdead
      exact Option.some.inj h ▸ .unregisterClosed hclosing hdead
    next => cases h

/-- **One step keeps every running process cared for.** -/
theorem Inv.step {i : Label} (h : Inv tenantId name s) (hok : StepOk tenantId name s i)
    (hstep : McpShutdown.step tenantId name s i = some s') : Inv tenantId name s' := by
  cases step_cases hstep with
  | executeTool hidle => exact h.executeTool hidle
  | answered answer hlookup => exact h.answered hlookup answer
  | teardown hlookup hdead => exact h.moved_dead (moved_teardown s _ _) hlookup rfl hdead
  | spawned hlookup => exact h.spawned hlookup
  | @initialized id p caller hlookup =>
    obtain ⟨hbegun, hreplaced⟩ := hok _ hlookup p rfl
    exact h.initialized hlookup hbegun hreplaced
  | abandoning hlookup => exact h.abandoning hlookup
  | toolsListed tools hlookup => exact h.toolsListed hlookup hok.1 hok.2
  | @fails _ id phase caller hlookup hdead =>
    cases hprocess : (Task.restarting phase caller).process with
    | none => exact h.moved_free (moved_restartFails s id caller) (forall_lookup hlookup hprocess)
    | some p => exact h.moved_dead (moved_restartFails s id caller) hlookup hprocess (hdead p hprocess)
  | cancel id => exact h.moved (Moved.finish s id) hok
  | sweep => exact ⟨h.ids, h.cared, h.tools, h.returned⟩
  | check hidle =>
    have hs : Inv tenantId name { s with swept := false } := ⟨h.ids, h.cared, h.tools, h.returned⟩
    exact hs.checkServer hidle
  | exits p => exact h.exits p
  | unregister hnotBegun => exact h.unregisterBegin hnotBegun
  | unregisterClosed hclosing hdead => exact h.unregisterClosed hclosing hdead

end Server

/-- **Once `unregister_server` has returned and the tasks have ended, nothing is left of the server, in every run
in which no restart outlives the unregistration, replaces a running process or is cancelled beside its own.** -/
theorem nothing_left_of_guarded {tenantId name : String} {m : Mcp.State} {tools : List ToolManifest}
    {is : List Label} {s : State} (hnew : NoTools tenantId name m)
    (hok : Guarded (step tenantId name) (StepOk tenantId name) (registered tenantId name m tools) is)
    (hrun : exec (step tenantId name) (registered tenantId name m tools) is = some s)
    (hreturned : s.unregistration = .returned) (hended : s.tasks = []) : NothingLeft tenantId name s :=
  (exec_invariant (fun _ _ _ h hok hstep => Inv.step h hok hstep) (Inv.registered hnew tools) hok hrun).nothingLeft
    hreturned hended

/-! ## A call that finds its process gone -/

theorem noTools_init (tenantId name : String) : NoTools tenantId name Mcp.State.init where
  registry _ _ h := nomatch h
  adapters _ _ h := nomatch h

def readTool : ToolManifest := ⟨"read", true⟩

/-- The process of a call dies, and the call restarts the server; then the server is unregistered. -/
def restartedBefore : List Label :=
  [.executeTool 1, .exits 0, .answered 1 .protocolError, .spawned 1, .initialized 1, .toolsListed 1 [readTool],
   .answered 1 .result, .unregister, .exits 1, .unregisterClosed]

/-- The server is unregistered during a call, and the call restarts it. -/
def restartedDuring : List Label :=
  [.executeTool 1, .unregister, .exits 0, .answered 1 .protocolError, .unregisterClosed, .spawned 1, .initialized 1,
   .toolsListed 1 [readTool], .answered 1 .result]

/-- The server `files` of the tenant `local`, and where a run of it ends. -/
def endOf (is : List Label) : Option State :=
  exec (step "local" "files") (registered "local" "files" Mcp.State.init [readTool]) is

theorem endOf_restartedBefore : (endOf restartedBefore).isSome = true := by decide +kernel

theorem endOf_restartedDuring : (endOf restartedDuring).isSome = true := by decide +kernel

theorem nothing_left_restartedBefore :
    NothingLeft "local" "files" ((endOf restartedBefore).get endOf_restartedBefore) :=
  nothing_left_of_guarded (noTools_init _ _) (by decide +kernel) (Option.some_get endOf_restartedBefore).symm
    (by decide +kernel) (by decide +kernel)

theorem process_outlives_server : ¬ ∀ (tenantId name : String) (m : Mcp.State) (tools : List ToolManifest)
    (is : List Label) (s : State), NoTools tenantId name m →
      exec (step tenantId name) (registered tenantId name m tools) is = some s → s.unregistration = .returned →
        s.tasks = [] → NothingLeft tenantId name s := by
  intro h
  have hleft := h "local" "files" Mcp.State.init [readTool] restartedDuring _ (noTools_init _ _)
    (Option.some_get endOf_restartedDuring).symm (by decide +kernel) (by decide +kernel)
  exact absurd hleft.processes (by decide +kernel)

end KernelRuntime.McpShutdown
