import KernelRuntime.Tools.Registry

/-! # MCP plugins and stdio servers

`MCPHub` and `StdioMCPManager` keep their tables per tenant and mirror every tool into the one
registry of the process: a plugin overwrites its name, a stdio adapter takes its name only when it
is free, and both delete by name. A nested dictionary of the source is one dictionary keyed by
tenant and name. -/

namespace KernelRuntime.Mcp
set_option autoImplicit false

/-- A plugin definition. `details` are the keys other than the name and the endpoint. -/
structure PluginDefinition where
  name : String
  endpointUrl : String
  details : Fields
deriving DecidableEq

/-- The validators of `mcp_validation`: the lists of errors they return. -/
structure Validators where
  validatePluginDefinition : PluginDefinition → List String
  validateEndpointUrl : String → Option (List String) → List String

/-- A tool that a stdio server lists. `schemaOk` says that its input schema converts. -/
structure ToolManifest where
  name : String
  schemaOk : Bool
deriving DecidableEq

inductive ServerStatus where
  | running
  | error
deriving DecidableEq

structure StdioServer where
  tools : List ToolManifest
  status : ServerStatus
deriving DecidableEq

/-- What starting a server gives: a failure before its tools are known, or the tools it lists. -/
inductive StartResult where
  | failed
  | listed (tools : List ToolManifest)
deriving DecidableEq

/-- The arguments of a tool event were handed to the tool of this provider, for a session of this
tenant. -/
structure Delivery where
  tenantId : String
  provider : Provider
deriving DecidableEq

structure State where
  registry : ToolRegistry
  plugins : OrderedDict String ToolInstance
  tenantPlugins : OrderedDict (String × String) Unit
  servers : OrderedDict (String × String) StdioServer
  adapters : OrderedDict (String × String) ToolInstance
  toolNameToServer : OrderedDict String (String × String)
  sent : List Delivery

def State.init : State :=
  ⟨ToolRegistry.empty, OrderedDict.empty, OrderedDict.empty, OrderedDict.empty, OrderedDict.empty,
    OrderedDict.empty, []⟩

/-- `_tool_instances` with other contents. -/
def State.withInstances (s : State) (instances : OrderedDict String ToolInstance) : State :=
  { s with registry := { s.registry with toolInstances := instances } }

/-! ## Plugins -/

/-- The checks of `register_plugin` all pass. -/
def registerable (v : Validators) (s : State) (definition : PluginDefinition)
    (allowedHosts : Option (List String)) (rateAllowed : Bool) : Bool :=
  (v.validatePluginDefinition definition).isEmpty && rateAllowed &&
    (v.validateEndpointUrl definition.endpointUrl allowedHosts).isEmpty &&
    !s.plugins.contains definition.name

/-- `MCPHub.register_plugin`. A call that raises changes nothing here. -/
def registerPlugin (v : Validators) (s : State) (definition : PluginDefinition) (tenantId : String)
    (allowedHosts : Option (List String)) (rateAllowed : Bool) : State :=
  if registerable v s definition allowedHosts rateAllowed then
    let proxy : ToolInstance := ⟨definition.name, .plugin tenantId definition.endpointUrl⟩
    { s with
      plugins := s.plugins.set definition.name proxy
      tenantPlugins := s.tenantPlugins.set (tenantId, definition.name) ()
    }.withInstances (s.registry.toolInstances.set definition.name proxy)
  else s

/-- `MCPHub.unregister_plugin`. Another tenant's plugin raises a `PermissionError`. -/
def unregisterPlugin (s : State) (name tenantId : String) : State :=
  match s.plugins.get? name with
  | none => s
  | some plugin =>
    if plugin.provider.owner = some tenantId then
      { s with
        plugins := s.plugins.erase name
        tenantPlugins := s.tenantPlugins.erase (tenantId, name)
      }.withInstances (s.registry.toolInstances.erase name)
    else s

/-! ## Stdio servers -/

/-- `f"mcp_{server_name}_{tool.name}"`. -/
def adapterName (serverName toolName : String) : String := "mcp_" ++ serverName ++ "_" ++ toolName

def adapterFor (tenantId serverName : String) (tool : ToolManifest) : ToolInstance :=
  ⟨adapterName serverName tool.name, .stdio tenantId serverName tool.name⟩

/-- The table of adapters after `register_adapters`, the adapters it created, and whether it got to
the end: a schema that does not convert raises. -/
structure Registration where
  adapters : OrderedDict (String × String) ToolInstance
  created : List ToolInstance
  completed : Bool

/-- `StdioMCPAdapterRegistry.register_adapters`. -/
def registerAdapters (tenantId serverName : String)
    (adapters : OrderedDict (String × String) ToolInstance) : List ToolManifest → Registration
  | [] => ⟨adapters, [], true⟩
  | tool :: tools =>
    if adapters.contains (tenantId, adapterName serverName tool.name) then
      registerAdapters tenantId serverName adapters tools
    else if tool.schemaOk then
      let adapter := adapterFor tenantId serverName tool
      let rest := registerAdapters tenantId serverName
        (adapters.set (tenantId, adapter.name) adapter) tools
      { rest with created := adapter :: rest.created }
    else ⟨adapters, [], false⟩

/-- What is created is the adapter of one of the tools. -/
theorem exists_of_mem_created {tenantId serverName : String} (tools : List ToolManifest)
    (adapters : OrderedDict (String × String) ToolInstance) {a : ToolInstance}
    (ha : a ∈ (registerAdapters tenantId serverName adapters tools).created) :
    ∃ tool ∈ tools, a = adapterFor tenantId serverName tool := by
  induction tools generalizing adapters with
  | nil => cases ha
  | cons tool tools ih =>
    have hrest : (∃ t ∈ tools, a = adapterFor tenantId serverName t) →
        ∃ t ∈ tool :: tools, a = adapterFor tenantId serverName t :=
      fun ⟨t, ht, heq⟩ => ⟨t, List.mem_cons_of_mem _ ht, heq⟩
    unfold registerAdapters at ha
    split_ifs at ha with hknown hschema
    · exact hrest (ih adapters ha)
    · rcases List.mem_cons.mp ha with rfl | ha
      · exact ⟨tool, List.mem_cons_self, rfl⟩
      · exact hrest (ih _ ha)
    · cases ha

/-- An entry of the table is an old one, or the adapter of one of the tools under its own name. -/
theorem registerAdapters_cases {tenantId serverName : String} (tools : List ToolManifest)
    (adapters : OrderedDict (String × String) ToolInstance) {k : String × String} {a : ToolInstance}
    (ha : (registerAdapters tenantId serverName adapters tools).adapters.get? k = some a) :
    adapters.get? k = some a ∨ ∃ tool ∈ tools,
      k = (tenantId, adapterName serverName tool.name) ∧ a = adapterFor tenantId serverName tool := by
  induction tools generalizing adapters with
  | nil => exact Or.inl ha
  | cons tool tools ih =>
    have hrest : (∃ t ∈ tools, k = (tenantId, adapterName serverName t.name) ∧ a = adapterFor tenantId serverName t) →
        ∃ t ∈ tool :: tools, k = (tenantId, adapterName serverName t.name) ∧ a = adapterFor tenantId serverName t :=
      fun ⟨t, ht, heq⟩ => ⟨t, List.mem_cons_of_mem _ ht, heq⟩
    unfold registerAdapters at ha
    split_ifs at ha with hknown hschema
    · exact (ih adapters ha).imp id hrest
    · rcases ih _ ha with hset | hnew
      · rw [OrderedDict.get?_set] at hset
        split_ifs at hset with hkey
        · exact Or.inr ⟨tool, List.mem_cons_self, hkey, (Option.some.inj hset).symm⟩
        · exact Or.inl hset
      · exact Or.inr (hrest hnew)
    · exact Or.inl ha

/-- `register_with_tool_registry`, for each adapter in turn. -/
def mirror (instances : OrderedDict String ToolInstance) (created : List ToolInstance) :
    OrderedDict String ToolInstance :=
  created.foldl (fun instances adapter => ToolRegistry.addIfAbsent instances adapter.name adapter)
    instances

/-- `_register_mcp_tools`, and whether it completed. -/
def registerMcpTools (s : State) (tenantId serverName : String) (tools : List ToolManifest) :
    State × Bool :=
  let r := registerAdapters tenantId serverName s.adapters tools
  if r.completed then
    ({ s with
        adapters := r.adapters
        toolNameToServer := tools.foldl
          (fun names (tool : ToolManifest) => names.set (adapterName serverName tool.name) (tenantId, serverName))
          s.toolNameToServer
      }.withInstances (mirror s.registry.toolInstances r.created), true)
  else ({ s with adapters := r.adapters }, false)

/-- `_unregister_mcp_tools`: the registry entries are deleted by name, the adapters by prefix. -/
def unregisterMcpTools (s : State) (tenantId serverName : String) (tools : List ToolManifest) :
    State :=
  let prefixed (e : (String × String) × ToolInstance) : Bool :=
    decide (e.1.1 = tenantId) && ("mcp_" ++ serverName ++ "_").toList.isPrefixOf e.1.2.toList
  { s with
    adapters := ((s.adapters.entries.filter prefixed).map Prod.fst).foldl OrderedDict.erase s.adapters
    toolNameToServer := tools.foldl
      (fun names (tool : ToolManifest) => names.erase (adapterName serverName tool.name))
      s.toolNameToServer
  }.withInstances (tools.foldl
    (fun instances (tool : ToolManifest) => instances.erase (adapterName serverName tool.name))
    s.registry.toolInstances)

/-- `_start_server` of a server that is in the table, and whether it completed. -/
def startServer (s : State) (tenantId name : String) (old : StdioServer) (start : StartResult) :
    State × Bool :=
  match start with
  | .failed => ({ s with servers := s.servers.set (tenantId, name) { old with status := .error } }, false)
  | .listed tools =>
    let (s', completed) := registerMcpTools s tenantId name tools
    let server : StdioServer := ⟨tools, if completed then .running else .error⟩
    ({ s' with servers := s'.servers.set (tenantId, name) server }, completed)

/-- `register_server`. A server that does not start is removed from the table again. -/
def registerServer (s : State) (tenantId name : String) (start : StartResult) : State :=
  if s.servers.contains (tenantId, name) then s
  else
    let (s', completed) := startServer s tenantId name ⟨[], .running⟩ start
    if completed then s' else { s' with servers := s'.servers.erase (tenantId, name) }

def unregisterServer (s : State) (tenantId name : String) : State :=
  match s.servers.get? (tenantId, name) with
  | none => s
  | some server =>
    { unregisterMcpTools s tenantId name server.tools with
      servers := s.servers.erase (tenantId, name) }

/-- `_restart_server`, by the health check or by a failed call. -/
def restartServer (s : State) (tenantId name : String) (start : StartResult) : State :=
  match s.servers.get? (tenantId, name) with
  | none => s
  | some server => (startServer (unregisterMcpTools s tenantId name server.tools) tenantId name
      server start).1

/-! ## Runs -/

inductive Step where
  | registerPlugin (definition : PluginDefinition) (tenantId : String)
      (allowedHosts : Option (List String)) (rateAllowed : Bool)
  | unregisterPlugin (name tenantId : String)
  | registerServer (tenantId name : String) (start : StartResult)
  | unregisterServer (tenantId name : String)
  | restartServer (tenantId name : String) (start : StartResult)
  /-- A tool event of a session of the tenant names a tool, and the tool runs. -/
  | toolEvent (tenantId toolName : String)
  /-- The tool schemas are collected for a model call of the tenant. -/
  | listTools (tenantId : String)

/-- The lookup of `process_tool_event`, and the call of the tool that it gives. -/
def toolEvent (s : State) (tenantId toolName : String) : State :=
  let s' := { s with registry := s.registry.discover }
  match s.registry.getToolInstance toolName with
  | some tool => { s' with sent := s.sent ++ [⟨tenantId, tool.provider⟩] }
  | none => s'

def step (v : Validators) (s : State) : Step → Option State
  | .registerPlugin definition tenantId allowedHosts rateAllowed =>
    some (registerPlugin v s definition tenantId allowedHosts rateAllowed)
  | .unregisterPlugin name tenantId => some (unregisterPlugin s name tenantId)
  | .registerServer tenantId name start => some (registerServer s tenantId name start)
  | .unregisterServer tenantId name => some (unregisterServer s tenantId name)
  | .restartServer tenantId name start => some (restartServer s tenantId name start)
  | .toolEvent tenantId toolName => some (toolEvent s tenantId toolName)
  | .listTools _ => some { s with registry := s.registry.discover }

end KernelRuntime.Mcp
