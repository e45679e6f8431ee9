import KernelRuntime.Mcp.Manager
import KernelRuntime.Mcp.StdioAdapter

/-! # Starting a stdio server

`register_server` with its stages: the subprocess, the exchange of `initialize`, the listing of the tools, and
their registration. An `except Exception` does not see a cancellation, and the clean-up of `_start_server` looks
for the process in `server.process`, which nothing sets. -/

namespace KernelRuntime.StartUp
set_option autoImplicit false

open McpHub (Library)
open StdioAdapter (newAdapter textOf)
open Mcp (StdioServer StartResult adapterName registerAdapters registerMcpTools)

/-- How a step ends that does not return: in an `Exception`, or in a `CancelledError`. -/
inductive Raised where
  | exception
  | cancelled
deriving DecidableEq

/-- A subprocess: whether it was told to terminate, and whether it ends by itself before anything looks at it
again. -/
structure Process where
  told : Bool
  exited : Bool
deriving DecidableEq

/-- What a call finds at each `await`, and at the end when the servers are saved. `closed` is the wait for the
end of the process in `close`. -/
structure Answers where
  spawned : Except Raised Unit
  initialized : Except Raised Json
  notified : Except Raised Unit
  listed : Except Raised Json
  closed : Except Raised Unit
  exited : Bool
  saved : Bool

/-- The tables, the subprocess of the call, and `server.process`. -/
structure World where
  tables : Mcp.State
  process : Option Process
  serverProcess : Option Process

def World.start (tables : Mcp.State) : World := ⟨tables, none, none⟩

def World.putServer (w : World) (tenantId name : String) (server : StdioServer) : World :=
  { w with tables := { w.tables with servers := w.tables.servers.set (tenantId, name) server } }

/-- `server.status = ServerStatus.ERROR`. -/
def World.failServer (w : World) (tenantId name : String) : World :=
  match w.tables.servers.get? (tenantId, name) with
  | some server => w.putServer tenantId name { server with status := .error }
  | none => w

def World.dropServer (w : World) (tenantId name : String) : World :=
  { w with tables := { w.tables with servers := w.tables.servers.erase (tenantId, name) } }

/-- An error of the interpreter. -/
def orRaise {α : Type} : Except PyError α → Except Raised α
  | .ok a => .ok a
  | .error _ => .error .exception

/-! ## The protocol -/

/-- `MCPStdioProtocol.initialize`. -/
def protocolInitialize (a : Answers) : Except Raised Json := do
  let result ← a.initialized
  let _ ← orRaise (result.getD "capabilities" (.obj []))
  a.notified
  return result

/-- What `initialize_server` does with the process that it spawned. -/
def exchange (a : Answers) : Except Raised Json := do
  let result ← protocolInitialize a
  orRaise (result.getD "serverInfo" (.obj []))

/-- `MCPStdioProtocol.list_tools`. -/
def listTools (a : Answers) : Except Raised (List StdioAdapter.ToolManifest) := do
  let result ← a.listed
  let tools ← orRaise (result.getD "tools" (.arr []))
  let items ← orRaise (McpHub.elements tools)
  orRaise (items.mapM StdioAdapter.ToolManifest.fromDict)

/-- `MCPStdioProtocol.close`. A process that has ended is left alone, and one that does not end is killed. -/
def close (a : Answers) (w : World) : Except Raised Unit × World :=
  match w.process with
  | some p => if p.exited then (.ok (), w) else (a.closed, { w with process := some { p with told := true } })
  | none => (.ok (), w)

/-! ## The stages -/

/-- `initialize_server`. -/
def initializeServer (a : Answers) (w : World) : Except Raised Unit × World :=
  match a.spawned with
  | .error e => (.error e, w)
  | .ok () =>
    let w := { w with process := some ⟨false, a.exited⟩ }
    match exchange a with
    | .ok _ => (.ok (), w)
    | .error .cancelled => (.error .cancelled, w)
    | .error .exception =>
      let (closed, w) := close a w
      match closed with
      | .error e => (.error e, w)
      | .ok () => (.error .exception, w)

section Stages
variable (lib : Library)

/-- A tool as the tables know it: its schema converts when its adapter can be made. -/
def manifestOf (tenantId serverName : String) (tool : StdioAdapter.ToolManifest) : Mcp.ToolManifest where
  name := textOf lib tool.name
  schemaOk := (newAdapter lib serverName tenantId tool).toOption.isSome

/-- The body of `_start_server`. -/
def startBody (a : Answers) (tenantId name : String) (w : World) : Except Raised Unit × World :=
  match initializeServer a w with
  | (.error e, w) => (.error e, w)
  | (.ok (), w) =>
    match listTools a with
    | .error e => (.error e, w)
    | .ok listed =>
      let tools := listed.map (manifestOf lib tenantId name)
      let (tables, completed) := registerMcpTools w.tables tenantId name tools
      (if completed then .ok () else .error .exception,
        { w with tables := tables }.putServer tenantId name ⟨tools, .running⟩)

/-- The clean-up of `_start_server`. -/
def terminateServer (w : World) : World :=
  match w.serverProcess with
  | some p => if p.exited then w else { w with serverProcess := some { p with told := true } }
  | none => w

def startServer (a : Answers) (tenantId name : String) (w : World) : Except Raised Unit × World :=
  match startBody lib a tenantId name w with
  | (.error .exception, w) => (.error .exception, terminateServer (w.failServer tenantId name))
  | r => r

/-- `register_server`. The directory of the tenant may not be there for the servers to be saved in. -/
def registerServer (a : Answers) (tenantId name : String) (w : World) : Except Raised Unit × World :=
  if w.tables.servers.contains (tenantId, name) then (.error .exception, w)
  else
    match startServer lib a tenantId name (w.putServer tenantId name ⟨[], .running⟩) with
    | (.error .exception, w) => (.error .exception, w.dropServer tenantId name)
    | (.error .cancelled, w) => (.error .cancelled, w)
    | (.ok (), w) => if a.saved then (.ok (), w) else (.error .exception, w)

/-! ## What is left of a failed call -/

/-- The tables are as before, and the subprocess was told to terminate or has ended by itself. -/
structure Undone (s : Mcp.State) (w : World) : Prop where
  stopped : ∀ p, w.process = some p → p.told = true ∨ p.exited = true
  tables : w.tables = s

def Atomic (a : Answers) (s : Mcp.State) (tenantId name : String) : Prop :=
  ∀ e w, registerServer lib a tenantId name (World.start s) = (.error e, w) → Undone s w

/-- The adapter of the tool is in the table already. -/
abbrev Known (adapters : OrderedDict (String × String) ToolInstance) (tenantId name : String)
    (tool : Mcp.ToolManifest) : Prop :=
  adapters.contains (tenantId, adapterName name tool.name) = true

/-- Every tool converts, unless its name is taken, by an adapter or by a tool before it. -/
def Converts (adapters : OrderedDict (String × String) ToolInstance) (tenantId name : String)
    (tools : List Mcp.ToolManifest) : Prop :=
  ∀ before tool after, tools = before ++ tool :: after →
    tool.schemaOk = true ∨ Known adapters tenantId name tool ∨ ∃ t ∈ before, t.name = tool.name

/-- A tool does not convert, and nothing is registered before it. -/
def FailsFirst (adapters : OrderedDict (String × String) ToolInstance) (tenantId name : String)
    (tools : List Mcp.ToolManifest) : Prop :=
  ∃ before tool after, tools = before ++ tool :: after ∧ (∀ t ∈ before, Known adapters tenantId name t) ∧
    ¬ Known adapters tenantId name tool ∧ tool.schemaOk = false

/-- The ends of a call that leave nothing behind. -/
inductive Undoes (a : Answers) (s : Mcp.State) (tenantId name : String) : Prop
  /-- It returns. -/
  | returns (listed : List StdioAdapter.ToolManifest) (info : Json) (hspawned : a.spawned = .ok ())
      (hexchange : exchange a = .ok info) (hlisted : listTools a = .ok listed)
      (hconverts : Converts s.adapters tenantId name (listed.map (manifestOf lib tenantId name)))
      (hsaved : a.saved = true)
  /-- There is no process. -/
  | unspawned (hspawned : a.spawned = .error .exception)
  /-- The exchange fails, and closing is not cancelled. -/
  | uninitialized (hspawned : a.spawned = .ok ()) (hexchange : exchange a = .error .exception)
      (hclosed : a.exited = true ∨ a.closed ≠ .error .cancelled)
  /-- The tools are not listed, by a process that ended. -/
  | unlisted (info : Json) (hspawned : a.spawned = .ok ()) (hexchange : exchange a = .ok info)
      (hlisted : listTools a = .error .exception) (hexited : a.exited = true)
  /-- The first tool that needs an adapter does not convert, and the process ended. -/
  | unconverted (listed : List StdioAdapter.ToolManifest) (info : Json) (hspawned : a.spawned = .ok ())
      (hexchange : exchange a = .ok info) (hlisted : listTools a = .ok listed)
      (hfails : FailsFirst s.adapters tenantId name (listed.map (manifestOf lib tenantId name)))
      (hexited : a.exited = true)

/-! ## Registering the adapters -/

section Adapters
variable {tenantId name : String} {adapters : OrderedDict (String × String) ToolInstance}
variable {tool : Mcp.ToolManifest} {tools : List Mcp.ToolManifest}

theorem forall_split_cons {α : Type} {P : List α → α → Prop} {a : α} {l : List α} :
    (∀ before x after, a :: l = before ++ x :: after → P before x) ↔
      P [] a ∧ ∀ before x after, l = before ++ x :: after → P (a :: before) x := by
  constructor
  · intro h
    exact ⟨h [] a l rfl, fun before x after hl => h (a :: before) x after (by rw [hl]; rfl)⟩
  · rintro ⟨hfirst, hrest⟩ before x after hl
    cases before with
    | nil =>
      obtain ⟨rfl, rfl⟩ := List.cons.inj hl
      exact hfirst
    | cons b before =>
      obtain ⟨rfl, htail⟩ := List.cons.inj hl
      exact hrest before x after htail

theorem registerAdapters_known (h : Known adapters tenantId name tool) :
    registerAdapters tenantId name adapters (tool :: tools) = registerAdapters tenantId name adapters tools := by
  rw [registerAdapters, if_pos h]

theorem registerAdapters_unconverted (h : ¬ Known adapters tenantId name tool) (hschema : tool.schemaOk = false) :
    registerAdapters tenantId name adapters (tool :: tools) = ⟨adapters, [], false⟩ := by
  rw [registerAdapters, if_neg h, if_neg (by simp [hschema])]

theorem registerAdapters_new (h : ¬ Known adapters tenantId name tool) (hschema : tool.schemaOk = true) :
    registerAdapters tenantId name adapters (tool :: tools) =
      { registerAdapters tenantId name (adapters.set (tenantId, adapterName name tool.name)
          (Mcp.adapterFor tenantId name tool)) tools with
        created := Mcp.adapterFor tenantId name tool :: (registerAdapters tenantId name
          (adapters.set (tenantId, adapterName name tool.name) (Mcp.adapterFor tenantId name tool)) tools).created } := by
  rw [registerAdapters, if_neg h, if_pos hschema]
  rfl

theorem adapterName_inj {toolName toolName' : String} :
    adapterName name toolName = adapterName name toolName' ↔ toolName = toolName' := by
  unfold adapterName
  rw [← String.toList_inj, ← String.toList_inj]
  simp

theorem known_set_iff {t : Mcp.ToolManifest} (instance' : ToolInstance) :
    Known (adapters.set (tenantId, adapterName name tool.name) instance') tenantId name t ↔
      Known adapters tenantId name t ∨ tool.name = t.name := by
  unfold Known OrderedDict.contains
  rw [OrderedDict.get?_set]
  by_cases hname : t.name = tool.name
  · simp [hname]
  · rw [if_neg fun h => hname (adapterName_inj.mp (Prod.mk.inj h).2), or_iff_left fun h => hname h.symm]

/-- All adapters are registered exactly when every tool converts. -/
theorem completed_iff : (registerAdapters tenantId name adapters tools).completed = true ↔
    Converts adapters tenantId name tools := by
  unfold Converts
  induction tools generalizing adapters with
  | nil => simp [registerAdapters]
  | cons tool tools ih =>
    rw [forall_split_cons]
    by_cases hknown : Known adapters tenantId name tool
    · rw [registerAdapters_known hknown, ih, and_iff_right (Or.inr (Or.inl hknown))]
      refine forall₄_congr fun before t after _ => or_congr_right ?_
      have hsame : tool.name = t.name → Known adapters tenantId name t := fun heq => by
        unfold Known at hknown ⊢
        rwa [← heq]
      simp only [List.exists_mem_cons_iff]
      tauto
    · cases hschema : tool.schemaOk with
      | false => simp [registerAdapters_unconverted hknown hschema, hknown]
      | true =>
        rw [registerAdapters_new hknown hschema, and_iff_right (Or.inl rfl)]
        simp only [ih]
        refine forall₄_congr fun before t after _ => or_congr_right ?_
        simp only [known_set_iff, List.exists_mem_cons_iff]
        tauto

/-- A registration that fails has changed nothing exactly when it fails first. -/
theorem failsFirst_iff : FailsFirst adapters tenantId name tools ↔
    (registerAdapters tenantId name adapters tools).completed = false ∧
      (registerAdapters tenantId name adapters tools).created = [] := by
  induction tools generalizing adapters with
  | nil => simp [registerAdapters, FailsFirst]
  | cons tool tools ih =>
    by_cases hknown : Known adapters tenantId name tool
    · rw [registerAdapters_known hknown, ← ih]
      constructor
      · rintro ⟨before, t, after, hsplit, hbefore, hunknown, hschema⟩
        cases before with
        | nil =>
          obtain ⟨rfl, _⟩ := List.cons.inj hsplit
          exact absurd hknown hunknown
        | cons b before =>
          obtain ⟨rfl, htail⟩ := List.cons.inj hsplit
          exact ⟨before, t, after, htail, fun t ht => hbefore t (List.mem_cons_of_mem _ ht), hunknown, hschema⟩
      · rintro ⟨before, t, after, rfl, hbefore, hunknown, hschema⟩
        exact ⟨tool :: before, t, after, rfl, List.forall_mem_cons.mpr ⟨hknown, hbefore⟩, hunknown, hschema⟩
    · cases hschema : tool.schemaOk with
      | false =>
        rw [registerAdapters_unconverted hknown hschema]
        exact iff_of_true ⟨[], tool, tools, rfl, by simp, hknown, hschema⟩ ⟨rfl, rfl⟩
      | true =>
        rw [registerAdapters_new hknown hschema]
        refine iff_of_false ?_ fun h => List.cons_ne_nil _ _ h.2
        rintro ⟨before, t, after, hsplit, hbefore, _, hbad⟩
        cases before with
        | nil =>
          obtain ⟨rfl, _⟩ := List.cons.inj hsplit
          rw [hschema] at hbad
          cases hbad
        | cons b before =>
          obtain ⟨rfl, _⟩ := List.cons.inj hsplit
          exact hknown (hbefore _ List.mem_cons_self)

theorem length_registerAdapters : (registerAdapters tenantId name adapters tools).adapters.entries.length =
    adapters.entries.length + (registerAdapters tenantId name adapters tools).created.length := by
  induction tools generalizing adapters with
  | nil => rfl
  | cons tool tools ih =>
    by_cases hknown : Known adapters tenantId name tool
    · rw [registerAdapters_known hknown, ih]
    · cases hschema : tool.schemaOk with
      | false =>
        rw [registerAdapters_unconverted hknown hschema]
        rfl
      | true =>
        rw [registerAdapters_new hknown hschema]
        simp only [ih, List.length_cons]
        rw [OrderedDict.length_set_of_not_contains _ (Bool.eq_false_iff.mpr hknown)]
        omega

theorem adapters_of_created_eq_nil (h : (registerAdapters tenantId name adapters tools).created = []) :
    (registerAdapters tenantId name adapters tools).adapters = adapters := by
  induction tools generalizing adapters with
  | nil => rfl
  | cons tool tools ih =>
    by_cases hknown : Known adapters tenantId name tool
    · rw [registerAdapters_known hknown] at h ⊢
      exact ih h
    · cases hschema : tool.schemaOk with
      | false => rw [registerAdapters_unconverted hknown hschema]
      | true =>
        rw [registerAdapters_new hknown hschema] at h
        exact absurd h (List.cons_ne_nil _ _)

theorem created_eq_nil_of_adapters
    (h : (registerAdapters tenantId name adapters tools).adapters = adapters) :
    (registerAdapters tenantId name adapters tools).created = [] := by
  have hlength : (registerAdapters tenantId name adapters tools).adapters.entries.length = adapters.entries.length +
      (registerAdapters tenantId name adapters tools).created.length := length_registerAdapters
  rw [h] at hlength
  exact List.length_eq_zero_iff.mp (by omega)

end Adapters

/-! ## The ends of a call -/

section Ends
variable {lib} {a : Answers} {s : Mcp.State} {tenantId name : String} {w : World}

theorem failServer_serverProcess (h : w.serverProcess = none) :
    terminateServer (w.failServer tenantId name) = w.failServer tenantId name := by
  have hnone : (w.failServer tenantId name).serverProcess = none := by
    unfold World.failServer
    split
    · exact h
    · exact h
  unfold terminateServer
  rw [hnone]

/-- The server that failed is dropped, and that is all: `server.process` is not set. -/
theorem failServer_dropServer (w : World) (tenantId name : String) :
    (w.failServer tenantId name).dropServer tenantId name = w.dropServer tenantId name := by
  unfold World.failServer
  split
  · simp only [World.dropServer, World.putServer, OrderedDict.erase_set]
  · rfl

theorem registerServer_of_exception (hfresh : s.servers.contains (tenantId, name) = false)
    (hbody : startBody lib a tenantId name ((World.start s).putServer tenantId name ⟨[], .running⟩) =
      (.error .exception, w)) (hprocess : w.serverProcess = none) :
    registerServer lib a tenantId name (World.start s) = (.error .exception, w.dropServer tenantId name) := by
  unfold registerServer startServer
  rw [if_neg (by simp [World.start, hfresh]), hbody]
  simp only [failServer_serverProcess hprocess, failServer_dropServer]

theorem registerServer_of_cancelled (hfresh : s.servers.contains (tenantId, name) = false)
    (hbody : startBody lib a tenantId name ((World.start s).putServer tenantId name ⟨[], .running⟩) =
      (.error .cancelled, w)) :
    registerServer lib a tenantId name (World.start s) = (.error .cancelled, w) := by
  unfold registerServer startServer
  rw [if_neg (by simp [World.start, hfresh]), hbody]

theorem registerServer_of_ok (hfresh : s.servers.contains (tenantId, name) = false)
    (hbody : startBody lib a tenantId name ((World.start s).putServer tenantId name ⟨[], .running⟩) =
      (.ok (), w)) : registerServer lib a tenantId name (World.start s) =
        (if a.saved then .ok () else .error .exception, w) := by
  unfold registerServer startServer
  rw [if_neg (by simp [World.start, hfresh]), hbody]
  cases a.saved <;> rfl

theorem atomic_of_ok (h : registerServer lib a tenantId name (World.start s) = (.ok (), w)) :
    Atomic lib a s tenantId name := by
  intro e w' h'
  rw [h] at h'
  cases h'

theorem atomic_iff_of_error {e : Raised}
    (h : registerServer lib a tenantId name (World.start s) = (.error e, w)) :
    Atomic lib a s tenantId name ↔ Undone s w := by
  constructor
  · exact fun hatomic => hatomic e w h
  · intro hundone e' w' h'
    rw [h] at h'
    cases h'
    exact hundone

/-- A server that is still in its table is a difference. -/
theorem not_undone_of_contains (hfresh : s.servers.contains (tenantId, name) = false)
    (h : w.tables.servers.contains (tenantId, name) = true) : ¬ Undone s w := by
  intro hundone
  rw [hundone.tables, hfresh] at h
  cases h

theorem contains_putServer (w : World) (tenantId name : String) (server : StdioServer) :
    (w.putServer tenantId name server).tables.servers.contains (tenantId, name) = true := by
  simp [World.putServer, OrderedDict.contains]

/-- Where only the server was written, dropping it undoes the call. -/
theorem tables_dropServer (hfresh : s.servers.contains (tenantId, name) = false) {server : StdioServer}
    {tables : Mcp.State} (h : tables = { s with servers := s.servers.set (tenantId, name) server }) :
    { tables with servers := tables.servers.erase (tenantId, name) } = s := by
  rw [h]
  simp only [OrderedDict.erase_set, OrderedDict.erase_of_not_contains hfresh]

/-- The world once the process is there. -/
def started (a : Answers) (s : Mcp.State) (tenantId name : String) : World :=
  { (World.start s).putServer tenantId name ⟨[], .running⟩ with process := some ⟨false, a.exited⟩ }

/-- How the call ends when the exchange with the process ends with `e`. -/
def closingEnd (e : Raised) (a : Answers) : Raised :=
  match e with
  | .cancelled => .cancelled
  | .exception =>
    if a.exited then .exception
    else match a.closed with
      | .ok () => .exception
      | .error e => e

theorem closingEnd_eq_exception_iff (e : Raised) (a : Answers) :
    closingEnd e a = .exception ↔ e = .exception ∧ (a.exited = true ∨ a.closed ≠ .error .cancelled) := by
  cases e with
  | cancelled => simp [closingEnd]
  | exception =>
    cases hexited : a.exited with
    | true => simp [closingEnd, hexited]
    | false =>
      rcases hclosed : a.closed with (_ | _) | u <;> simp [closingEnd, hexited, hclosed]

/-! ## The body of the start, stage by stage -/

variable (lib s tenantId name) in
theorem startBody_unspawned {e : Raised} (hspawned : a.spawned = .error e) :
    startBody lib a tenantId name ((World.start s).putServer tenantId name ⟨[], .running⟩) =
      (.error e, (World.start s).putServer tenantId name ⟨[], .running⟩) := by
  unfold startBody initializeServer
  rw [hspawned]

variable (lib s tenantId name) in
/-- The process is told to terminate before its end is waited for. -/
theorem startBody_uninitialized (hspawned : a.spawned = .ok ()) {e : Raised} (hexchange : exchange a = .error e) :
    startBody lib a tenantId name ((World.start s).putServer tenantId name ⟨[], .running⟩) =
      (.error (closingEnd e a), { started a s tenantId name with
        process := some ⟨decide (e = .exception) && !a.exited, a.exited⟩ }) := by
  unfold startBody initializeServer
  rw [hspawned, hexchange]
  cases e with
  | cancelled => rfl
  | exception =>
    cases hexited : a.exited with
    | true => simp [close, hexited, started, closingEnd]
    | false => rcases hclosed : a.closed with e' | u <;> simp [close, hexited, hclosed, started, closingEnd]

theorem initializeServer_of_exchange (hspawned : a.spawned = .ok ()) {info : Json} (hexchange : exchange a = .ok info) :
    initializeServer a ((World.start s).putServer tenantId name ⟨[], .running⟩) = (.ok (), started a s tenantId name) := by
  unfold initializeServer
  rw [hspawned, hexchange]
  rfl

variable (lib s tenantId name) in
theorem startBody_unlisted (hspawned : a.spawned = .ok ()) {info : Json} (hexchange : exchange a = .ok info)
    {e : Raised} (hlisted : listTools a = .error e) :
    startBody lib a tenantId name ((World.start s).putServer tenantId name ⟨[], .running⟩) =
      (.error e, started a s tenantId name) := by
  unfold startBody
  rw [initializeServer_of_exchange hspawned hexchange, hlisted]

theorem startBody_listed (hspawned : a.spawned = .ok ()) {info : Json} (hexchange : exchange a = .ok info)
    {listed : List StdioAdapter.ToolManifest} (hlisted : listTools a = .ok listed) {tools : List Mcp.ToolManifest}
    (htools : listed.map (manifestOf lib tenantId name) = tools) :
    startBody lib a tenantId name ((World.start s).putServer tenantId name ⟨[], .running⟩) =
      (if (registerMcpTools (started a s tenantId name).tables tenantId name tools).2 then .ok ()
        else .error .exception,
        { started a s tenantId name with
          tables := (registerMcpTools (started a s tenantId name).tables tenantId name tools).1 }.putServer
            tenantId name ⟨tools, .running⟩) := by
  unfold startBody
  rw [initializeServer_of_exchange hspawned hexchange, hlisted]
  simp only [htools]

/-! ## What each stage leaves -/

theorem undone_started_iff (hfresh : s.servers.contains (tenantId, name) = false) :
    Undone s ((started a s tenantId name).dropServer tenantId name) ↔ a.exited = true := by
  constructor
  · intro h
    exact (h.stopped ⟨false, a.exited⟩ rfl).resolve_left Bool.false_ne_true
  · intro hexited
    refine ⟨?_, tables_dropServer hfresh rfl⟩
    intro p hp
    obtain rfl := Option.some.inj hp
    exact Or.inr hexited

theorem undone_partial_iff (hfresh : s.servers.contains (tenantId, name) = false)
    (adapters : OrderedDict (String × String) ToolInstance) (server : StdioServer) :
    Undone s (({ started a s tenantId name with
      tables := { (started a s tenantId name).tables with adapters := adapters } }.putServer tenantId name
        server).dropServer tenantId name) ↔ a.exited = true ∧ adapters = s.adapters := by
  constructor
  · intro h
    refine ⟨(h.stopped ⟨false, a.exited⟩ rfl).resolve_left Bool.false_ne_true, ?_⟩
    exact congrArg Mcp.State.adapters h.tables
  · rintro ⟨hexited, rfl⟩
    refine ⟨?_, ?_⟩
    · intro p hp
      obtain rfl := Option.some.inj hp
      exact Or.inr hexited
    · refine @tables_dropServer s tenantId name hfresh server _ ?_
      simp only [World.putServer, started, World.start, OrderedDict.set_set]

/-- A call that is cancelled leaves its server in the table. -/
theorem atomic_of_cancelled (hfresh : s.servers.contains (tenantId, name) = false)
    (hbody : startBody lib a tenantId name ((World.start s).putServer tenantId name ⟨[], .running⟩) =
      (.error .cancelled, w)) (hcontains : w.tables.servers.contains (tenantId, name) = true) :
    ¬ Atomic lib a s tenantId name := by
  rw [atomic_iff_of_error (registerServer_of_cancelled hfresh hbody)]
  exact not_undone_of_contains hfresh hcontains

theorem atomic_unspawned_iff (hfresh : s.servers.contains (tenantId, name) = false) {e : Raised}
    (hspawned : a.spawned = .error e) : Atomic lib a s tenantId name ↔ e = .exception := by
  have hbody := startBody_unspawned lib s tenantId name hspawned
  cases e with
  | exception =>
    rw [atomic_iff_of_error (registerServer_of_exception hfresh hbody rfl)]
    refine iff_of_true ⟨fun p hp => ?_, tables_dropServer hfresh rfl⟩ rfl
    cases hp
  | cancelled => exact iff_of_false (atomic_of_cancelled hfresh hbody (contains_putServer _ _ _ _)) nofun

/-- The exchange with the process failed: it is closed, unless the call is cancelled. -/
theorem atomic_uninitialized_iff (hfresh : s.servers.contains (tenantId, name) = false)
    (hspawned : a.spawned = .ok ()) {e : Raised} (hexchange : exchange a = .error e) :
    Atomic lib a s tenantId name ↔ e = .exception ∧ (a.exited = true ∨ a.closed ≠ .error .cancelled) := by
  have hbody := startBody_uninitialized lib s tenantId name hspawned hexchange
  rw [← closingEnd_eq_exception_iff]
  cases hend : closingEnd e a with
  | cancelled =>
    rw [hend] at hbody
    exact iff_of_false (atomic_of_cancelled hfresh hbody (contains_putServer _ _ _ _)) nofun
  | exception =>
    rw [hend] at hbody
    rw [atomic_iff_of_error (registerServer_of_exception hfresh hbody rfl)]
    refine iff_of_true ⟨fun p hp => ?_, tables_dropServer hfresh rfl⟩ rfl
    obtain rfl := Option.some.inj hp
    obtain ⟨rfl, _⟩ := (closingEnd_eq_exception_iff e a).mp hend
    cases hexited : a.exited with
    | true => exact Or.inr rfl
    | false => exact Or.inl rfl

/-- The tools were not listed: nothing tells the process to terminate. -/
theorem atomic_unlisted_iff (hfresh : s.servers.contains (tenantId, name) = false)
    (hspawned : a.spawned = .ok ()) {info : Json} (hexchange : exchange a = .ok info) {e : Raised}
    (hlisted : listTools a = .error e) :
    Atomic lib a s tenantId name ↔ e = .exception ∧ a.exited = true := by
  have hbody := startBody_unlisted lib s tenantId name hspawned hexchange hlisted
  cases e with
  | exception =>
    rw [atomic_iff_of_error (registerServer_of_exception hfresh hbody rfl), undone_started_iff hfresh,
      and_iff_right rfl]
  | cancelled =>
    exact iff_of_false (atomic_of_cancelled hfresh hbody (contains_putServer _ _ _ _)) fun h => nomatch h.1

/-- The tools were listed: the adapters that are made before one fails stay. -/
theorem atomic_listed_iff (hfresh : s.servers.contains (tenantId, name) = false)
    (hspawned : a.spawned = .ok ()) {info : Json} (hexchange : exchange a = .ok info)
    {listed : List StdioAdapter.ToolManifest} (hlisted : listTools a = .ok listed) :
    Atomic lib a s tenantId name ↔
      Converts s.adapters tenantId name (listed.map (manifestOf lib tenantId name)) ∧ a.saved = true ∨
        FailsFirst s.adapters tenantId name (listed.map (manifestOf lib tenantId name)) ∧ a.exited = true := by
  generalize htools : listed.map (manifestOf lib tenantId name) = tools
  have hstart := startBody_listed (s := s) hspawned hexchange hlisted htools
  have hadapters : (started a s tenantId name).tables.adapters = s.adapters := rfl
  rw [← completed_iff, failsFirst_iff]
  cases hcompleted : (registerAdapters tenantId name s.adapters tools).completed with
  | true =>
    simp only [Bool.true_eq_false, false_and, or_false, true_and]
    simp only [registerMcpTools, hadapters, hcompleted, if_true] at hstart
    have hcall := registerServer_of_ok hfresh hstart
    cases hsaved : a.saved with
    | true =>
      rw [hsaved, if_pos rfl] at hcall
      exact iff_of_true (atomic_of_ok hcall) rfl
    | false =>
      rw [hsaved, if_neg Bool.false_ne_true] at hcall
      rw [atomic_iff_of_error hcall]
      exact iff_of_false (not_undone_of_contains hfresh (contains_putServer _ _ _ _)) Bool.false_ne_true
  | false =>
    simp only [Bool.false_eq_true, false_and, false_or, true_and]
    simp only [registerMcpTools, hadapters, hcompleted, Bool.false_eq_true, if_false] at hstart
    rw [atomic_iff_of_error (registerServer_of_exception hfresh hstart rfl), undone_partial_iff hfresh, and_comm]
    exact and_congr_left' ⟨created_eq_nil_of_adapters, adapters_of_created_eq_nil⟩

/-- **A failed registration leaves nothing behind exactly in these cases.** -/
theorem registerServer_atomic_iff (lib : Library) (a : Answers) (s : Mcp.State) (tenantId name : String)
    (hfresh : s.servers.contains (tenantId, name) = false) :
    Atomic lib a s tenantId name ↔ Undoes lib a s tenantId name := by
  constructor
  · intro h
    cases hspawned : a.spawned with
    | error e =>
      rw [(atomic_unspawned_iff hfresh hspawned).mp h] at hspawned
      exact .unspawned hspawned
    | ok u =>
      cases hexchange : exchange a with
      | error e =>
        obtain ⟨rfl, hclosed⟩ := (atomic_uninitialized_iff hfresh hspawned hexchange).mp h
        exact .uninitialized hspawned hexchange hclosed
      | ok info =>
        cases hlisted : listTools a with
        | error e =>
          obtain ⟨rfl, hexited⟩ := (atomic_unlisted_iff hfresh hspawned hexchange hlisted).mp h
          exact .unlisted info hspawned hexchange hlisted hexited
        | ok listed =>
          rcases (atomic_listed_iff hfresh hspawned hexchange hlisted).mp h with
            ⟨hconverts, hsaved⟩ | ⟨hfails, hexited⟩
          · exact .returns listed info hspawned hexchange hlisted hconverts hsaved
          · exact .unconverted listed info hspawned hexchange hlisted hfails hexited
  · intro h
    cases h with
    | returns listed info hspawned hexchange hlisted hconverts hsaved =>
      exact (atomic_listed_iff hfresh hspawned hexchange hlisted).mpr (Or.inl ⟨hconverts, hsaved⟩)
    | unspawned hspawned => exact (atomic_unspawned_iff hfresh hspawned).mpr rfl
    | uninitialized hspawned hexchange hclosed =>
      exact (atomic_uninitialized_iff hfresh hspawned hexchange).mpr ⟨rfl, hclosed⟩
    | unlisted info hspawned hexchange hlisted hexited =>
      exact (atomic_unlisted_iff hfresh hspawned hexchange hlisted).mpr ⟨rfl, hexited⟩
    | unconverted listed info hspawned hexchange hlisted hfails hexited =>
      exact (atomic_listed_iff hfresh hspawned hexchange hlisted).mpr (Or.inr ⟨hfails, hexited⟩)

/-- The server answers `initialize`, and an error to `tools/list`. -/
def listingFails : Answers where
  spawned := .ok ()
  initialized := .ok (.obj [])
  notified := .ok ()
  listed := .error .exception
  closed := .ok ()
  exited := false
  saved := true

theorem registerServer_atomic_iff_listingFails :
    Atomic StdioAdapter.strictTexts listingFails Mcp.State.init "acme" "files" ↔
      Undoes StdioAdapter.strictTexts listingFails Mcp.State.init "acme" "files" :=
  registerServer_atomic_iff StdioAdapter.strictTexts listingFails Mcp.State.init "acme" "files" rfl

/-- The subprocess runs on. -/
theorem unlisted_server_runs_on : ¬ ∀ (lib : Library) (a : Answers) (s : Mcp.State) (tenantId name : String),
    s.servers.contains (tenantId, name) = false → Atomic lib a s tenantId name := by
  intro h
  have hatomic := h StdioAdapter.strictTexts listingFails Mcp.State.init "acme" "files" rfl
  have hexchange : exchange listingFails = .ok (.obj []) := rfl
  have hlisted : listTools listingFails = .error .exception := rfl
  obtain ⟨_, hexited⟩ := (atomic_unlisted_iff rfl rfl hexchange hlisted).mp hatomic
  cases hexited

/-! ## The tables afterwards -/

/-- What the start gives, as the manager's own model has it. -/
def startResult (lib : Library) (a : Answers) (tenantId name : String) : StartResult :=
  match a.spawned, exchange a, listTools a with
  | .ok _, .ok _, .ok listed => .listed (listed.map (manifestOf lib tenantId name))
  | _, _, _ => .failed

theorem mcp_registerServer_failed (hfresh : s.servers.contains (tenantId, name) = false) :
    Mcp.registerServer s tenantId name .failed = s := by
  unfold Mcp.registerServer
  rw [if_neg (by simp [hfresh])]
  exact tables_dropServer hfresh rfl

/-- A start that raised before an adapter was made, and was not cancelled, ends as a failed start. -/
theorem tables_of_failed (hfresh : s.servers.contains (tenantId, name) = false) {e : Raised}
    (hbody : startBody lib a tenantId name ((World.start s).putServer tenantId name ⟨[], .running⟩) = (.error e, w))
    (hcancelled : (registerServer lib a tenantId name (World.start s)).1 ≠ .error .cancelled)
    (hprocess : w.serverProcess = none)
    (htables : w.tables = { s with servers := s.servers.set (tenantId, name) ⟨[], .running⟩ }) :
    (registerServer lib a tenantId name (World.start s)).2.tables = Mcp.registerServer s tenantId name .failed := by
  cases e with
  | cancelled => exact absurd (congrArg Prod.fst (registerServer_of_cancelled hfresh hbody)) hcancelled
  | exception =>
    rw [registerServer_of_exception hfresh hbody hprocess, mcp_registerServer_failed hfresh]
    exact tables_dropServer hfresh htables

theorem mcp_registerServer_listed (hfresh : s.servers.contains (tenantId, name) = false)
    (tools : List Mcp.ToolManifest) : Mcp.registerServer s tenantId name (.listed tools) =
      if (registerMcpTools s tenantId name tools).2 then
        { (registerMcpTools s tenantId name tools).1 with
          servers := (registerMcpTools s tenantId name tools).1.servers.set (tenantId, name) ⟨tools, .running⟩ }
      else
        { (registerMcpTools s tenantId name tools).1 with
          servers := (registerMcpTools s tenantId name tools).1.servers.erase (tenantId, name) } := by
  unfold Mcp.registerServer
  rw [if_neg (by simp [hfresh])]
  unfold Mcp.startServer
  cases hcompleted : (registerMcpTools s tenantId name tools).2 with
  | true => simp [hcompleted]
  | false => simp [hcompleted, OrderedDict.erase_set]

/-- A call that is not cancelled leaves the tables as the manager's model says. -/
theorem registerServer_refines (hfresh : s.servers.contains (tenantId, name) = false)
    (hcancelled : (registerServer lib a tenantId name (World.start s)).1 ≠ .error .cancelled) :
    (registerServer lib a tenantId name (World.start s)).2.tables =
      Mcp.registerServer s tenantId name (startResult lib a tenantId name) := by
  unfold startResult
  cases hspawned : a.spawned with
  | error e => exact tables_of_failed hfresh (startBody_unspawned lib s tenantId name hspawned) hcancelled rfl rfl
  | ok u =>
    cases hexchange : exchange a with
    | error e =>
      exact tables_of_failed hfresh (startBody_uninitialized lib s tenantId name hspawned hexchange) hcancelled rfl rfl
    | ok info =>
      cases hlisted : listTools a with
      | error e =>
        exact tables_of_failed hfresh (startBody_unlisted lib s tenantId name hspawned hexchange hlisted) hcancelled
          rfl rfl
      | ok listed =>
        simp only
        generalize htools : listed.map (manifestOf lib tenantId name) = tools
        have hstart := startBody_listed (s := s) hspawned hexchange hlisted htools
        have hadapters : (started a s tenantId name).tables.adapters = s.adapters := rfl
        rw [mcp_registerServer_listed hfresh]
        cases hcompleted : (registerAdapters tenantId name s.adapters tools).completed with
        | true =>
          simp only [registerMcpTools, hadapters, hcompleted, if_true] at hstart
          rw [registerServer_of_ok hfresh hstart]
          simp only [registerMcpTools, hcompleted, if_true, World.putServer, started, World.start,
            Mcp.State.withInstances, OrderedDict.set_set]
        | false =>
          simp only [registerMcpTools, hadapters, hcompleted, Bool.false_eq_true, if_false] at hstart
          rw [registerServer_of_exception hfresh hstart rfl]
          simp only [registerMcpTools, hcompleted, Bool.false_eq_true, if_false, World.putServer, World.dropServer,
            started, World.start, OrderedDict.erase_set]

end Ends
end Stages
end KernelRuntime.StartUp
