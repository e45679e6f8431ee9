import KernelRuntime.Foundations.Json

/-! # The tool registry

`_tool_instances` is one dictionary for the whole process, keyed by the name of the tool. Built-in
tools enter it on the first lookup, plugins and stdio adapters whenever they are registered. -/

namespace KernelRuntime
set_option autoImplicit false

/-- What is behind a tool: code of the repository, the HTTP endpoint of a plugin, or a tool of a
subprocess. The last two belong to the tenant that registered them. -/
inductive Provider where
  | builtin
  | plugin (tenantId endpointUrl : String)
  | stdio (tenantId serverName toolName : String)
deriving DecidableEq

/-- The tenant that registered the tool. -/
def Provider.owner : Provider → Option String
  | .builtin => none
  | .plugin tenantId _ => some tenantId
  | .stdio tenantId _ _ => some tenantId

structure ToolInstance where
  name : String
  provider : Provider
deriving DecidableEq

/-- The tools that `_ensure_core_tools` guarantees. -/
def CORE_TOOLS : List String :=
  ["bash_execute", "read_file", "write_file", "git_clone", "git_read", "git_write", "git_commit",
   "git_create_pr", "security_scan", "code_review", "generate_tests", "generate_docs",
   "generate_cicd", "database_query", "api_test", "manage_dependencies", "code_graph_query",
   "web_search", "update_agent_memory", "search_past_decisions", "delegate_task",
   "dispatch_output"]

/-- `_tool_instances` and `_discovered`. -/
structure ToolRegistry where
  toolInstances : OrderedDict String ToolInstance
  discovered : Bool

namespace ToolRegistry

def empty : ToolRegistry := ⟨OrderedDict.empty, false⟩

/-- `if name not in _tool_instances: _tool_instances[name] = instance`. -/
def addIfAbsent (instances : OrderedDict String ToolInstance) (name : String) (tool : ToolInstance) :
    OrderedDict String ToolInstance :=
  if instances.contains name then instances else instances.set name tool

/-- `_discover_tools`: a name that is already taken keeps its instance. -/
def discover (registry : ToolRegistry) : ToolRegistry :=
  if registry.discovered then registry
  else
    ⟨CORE_TOOLS.foldl (fun instances name => addIfAbsent instances name ⟨name, .builtin⟩)
      registry.toolInstances, true⟩

def getToolInstance (registry : ToolRegistry) (name : String) : Option ToolInstance :=
  registry.discover.toolInstances.get? name

/-- The tools whose schemas `get_all_tool_schemas` returns. -/
def getAllTools (registry : ToolRegistry) : List ToolInstance :=
  registry.discover.toolInstances.values

theorem get?_addIfAbsent (instances : OrderedDict String ToolInstance) (name k : String)
    (tool : ToolInstance) : (addIfAbsent instances name tool).get? k =
      (instances.get? k).or (if k = name then some tool else none) := by
  unfold addIfAbsent OrderedDict.contains
  cases hname : instances.get? name with
  | some v =>
    by_cases hk : k = name
    · simp [hk, hname]
    · simp [hk]
  | none =>
    by_cases hk : k = name
    · simp [hk, hname]
    · simp [hk, OrderedDict.get?_set_ne]

/-- A loop of `addIfAbsent` keeps what is there and adds the first tool of each other name. -/
theorem get?_foldl_addIfAbsent {ι : Type} (name : ι → String) (tool : ι → ToolInstance)
    (is : List ι) (instances : OrderedDict String ToolInstance) (k : String) :
    (is.foldl (fun instances i => addIfAbsent instances (name i) (tool i)) instances).get? k =
      (instances.get? k).or ((is.find? fun i => decide (name i = k)).map tool) := by
  induction is generalizing instances with
  | nil => simp
  | cons i is ih =>
    rw [List.foldl_cons, ih, get?_addIfAbsent, Option.or_assoc, List.find?_cons]
    congr 1
    by_cases hk : name i = k
    · simp [hk]
    · simp [hk, Ne.symm hk]

/-- Discovery adds built-in tools and keeps every tool that has its name already. -/
theorem get?_discover (registry : ToolRegistry) (k : String) :
    registry.discover.toolInstances.get? k = registry.toolInstances.get? k ∨
      (registry.toolInstances.get? k = none ∧ ∃ tool, tool.provider = .builtin ∧
        registry.discover.toolInstances.get? k = some tool) := by
  unfold discover
  split_ifs with hdiscovered
  · exact Or.inl rfl
  · rw [get?_foldl_addIfAbsent]
    cases hk : registry.toolInstances.get? k with
    | some v => exact Or.inl rfl
    | none =>
      cases hfind : CORE_TOOLS.find? fun i => decide (i = k) with
      | none => exact Or.inl rfl
      | some name => exact Or.inr ⟨rfl, ⟨name, .builtin⟩, rfl, rfl⟩

/-- What holds of built-in tools and of everything in the table holds of every lookup. -/
theorem all_discover_iff {p : ToolInstance → Prop} (hp : ∀ tool, tool.provider = .builtin → p tool)
    (registry : ToolRegistry) :
    registry.discover.toolInstances.All p ↔ registry.toolInstances.All p := by
  constructor
  · intro h k v hv
    rcases get?_discover registry k with heq | ⟨hnone, -⟩
    · exact h k v (heq.trans hv)
    · rw [hnone] at hv
      cases hv
  · intro h k v hv
    rcases get?_discover registry k with heq | ⟨-, tool, hbuiltin, htool⟩
    · exact h k v (heq.symm.trans hv)
    · rw [htool] at hv
      exact Option.some.inj hv ▸ hp tool hbuiltin

end ToolRegistry
end KernelRuntime
