import KernelRuntime.Foundations.Execution
import KernelRuntime.Mcp.Validation
import Mathlib.Data.Finset.Disjoint
import Mathlib.Data.Finset.Erase
import Mathlib.Data.Finset.Insert

/-! # The hub of plugins

`MCPHub` with its two tables, and the tool registry that it shares with the built-in tools and the stdio adapters.
Objects have an identity. A method gives its result, or what it raises, beside the tables it leaves. -/

namespace KernelRuntime.McpHub
set_option autoImplicit false

structure MCPConnectionConfig where
  endpointUrl : Json
  timeoutSeconds : Json
  maxRetries : Json
  verifySsl : Json
  allowedHosts : Option (List String)
deriving DecidableEq

structure MCPProxyTool where
  id : ℕ
  name : String
  description : Json
  parameters : List ToolParameter
  endpointUrl : Json
  tenantId : String
  config : MCPConnectionConfig
  allowedHosts : Option (List String)
deriving DecidableEq

/-- An entry of `_tool_instances`: a proxy of the hub, or an object of somebody else. -/
inductive Tool where
  | proxy (proxy : MCPProxyTool)
  | other (id : ℕ)
deriving DecidableEq

/-- `created` counts the proxies. -/
structure MCPHub where
  plugins : OrderedDict String MCPProxyTool
  tenantPlugins : OrderedDict String (Finset String)
  toolInstances : OrderedDict String Tool
  created : ℕ

/-- A new hub, beside a registry without plugins. -/
def MCPHub.init (toolInstances : OrderedDict String ℕ) : MCPHub :=
  ⟨.empty, .empty, toolInstances.map .other, 0⟩

section Methods
variable (lib : Library)

/-- The loop of `MCPProxyTool.__init__`. -/
def toolParameters : List Json → Except PyError (List ToolParameter)
  | [] => .ok []
  | p :: ps => do
    let name ← p.getD "name" (.str "")
    let type ← p.getD "type" (.str "string")
    let description ← p.getD "description" (.str "")
    let required ← p.getD "required" (.bool true)
    let parameter ← lib.toolParameter name type description required
    let rest ← toolParameters ps
    return parameter :: rest

/-- `plugin_def[key]`. -/
def item (definition : Json) (key : String) : Except PyError Json :=
  match definition with
  | .obj fields =>
    match fields.lookup key with
    | some v => .ok v
    | none => .error ⟨.other, "'" ++ key ++ "'"⟩
  | v => .error ⟨.typeError, "'" ++ v.typeName ++ "' object is not subscriptable"⟩

def raiseIf (errors : List String) (what : String) : Except PyError Unit :=
  if errors.isEmpty then .ok () else .error ⟨.valueError, what ++ String.intercalate "; " errors⟩

/-- `register_plugin` up to its first write, with the answer of the rate limiter. A validated name is a string. -/
def newPlugin (s : MCPHub) (pluginDef : Json) (tenantId : String) (allowedHosts : Option (List String))
    (rateLimit : Bool × ℕ) : Except PyError MCPProxyTool := do
  let validationErrors ← validatePluginDefinition lib pluginDef
  raiseIf validationErrors "Validation failed: "
  raiseIf (errorIf (!rateLimit.1) ("Rate limited, retry after " ++ toString rateLimit.2 ++ "s")) ""
  let name ← item pluginDef "name"
  let endpointUrl ← item pluginDef "endpoint_url"
  let description ← pluginDef.getD "description" (.str "MCP Tool")
  let parameters ← pluginDef.getD "parameters" (.arr [])
  let urlErrors ← validateEndpointUrl lib endpointUrl allowedHosts
  raiseIf urlErrors "URL validation failed: "
  match name with
  | .str name =>
    raiseIf (errorIf (s.plugins.contains name) ("Plugin '" ++ name ++ "' already registered")) ""
    let timeoutSeconds ← pluginDef.getD "timeout_seconds" (.float (.finite 300 (-1)))
    let maxRetries ← pluginDef.getD "max_retries" (.int 3)
    let verifySsl ← pluginDef.getD "verify_ssl" (.bool true)
    let config : MCPConnectionConfig := ⟨endpointUrl, timeoutSeconds, maxRetries, verifySsl, allowedHosts⟩
    let items ← elements parameters
    let parameters ← toolParameters lib items
    return ⟨s.created, name, description, parameters, endpointUrl, tenantId, config, allowedHosts⟩
  | v => throw ⟨.typeError, "unhashable type: '" ++ v.typeName ++ "'"⟩

/-- `register_plugin` from its first write on. -/
def addPlugin (s : MCPHub) (proxy : MCPProxyTool) : MCPHub where
  plugins := s.plugins.set proxy.name proxy
  tenantPlugins := s.tenantPlugins.set proxy.tenantId
    (insert proxy.name ((s.tenantPlugins.get? proxy.tenantId).getD ∅))
  toolInstances := s.toolInstances.set proxy.name (.proxy proxy)
  created := s.created + 1

def registerPlugin (s : MCPHub) (pluginDef : Json) (tenantId : String) (allowedHosts : Option (List String))
    (rateLimit : Bool × ℕ) : Except PyError Json × MCPHub :=
  match newPlugin lib s pluginDef tenantId allowedHosts rateLimit with
  | .error e => (.error e, s)
  | .ok proxy =>
    (.ok (.obj [("name", .str proxy.name), ("status", .str "registered"), ("tools", .arr [.str proxy.name])]),
      addPlugin s proxy)

/-- A tenant without a set of names is a `KeyError`, and the plugin is already gone then. -/
def unregisterPlugin (s : MCPHub) (name tenantId : String) : Except PyError Json × MCPHub :=
  match s.plugins.get? name with
  | none => (.ok (.bool false), s)
  | some plugin =>
    if plugin.tenantId ≠ tenantId then (.error ⟨.other, "Cannot unregister plugin from different tenant"⟩, s)
    else
      let s' := { s with plugins := s.plugins.erase name }
      match s.tenantPlugins.get? tenantId with
      | none => (.error ⟨.other, "'" ++ tenantId ++ "'"⟩, s')
      | some names =>
        (.ok (.bool true),
          { s' with
            tenantPlugins := s.tenantPlugins.set tenantId (names.erase name)
            toolInstances := s.toolInstances.erase name })

/-! ## Runs -/

inductive Call where
  | registerPlugin (pluginDef : Json) (tenantId : String) (allowedHosts : Option (List String)) (rateLimit : Bool × ℕ)
  | unregisterPlugin (name tenantId : String)

def call (s : MCPHub) : Call → Except PyError Json × MCPHub
  | .registerPlugin pluginDef tenantId allowedHosts rateLimit =>
    registerPlugin lib s pluginDef tenantId allowedHosts rateLimit
  | .unregisterPlugin name tenantId => unregisterPlugin s name tenantId

inductive Label where
  | call (c : Call)
  /-- Somebody else puts a tool into the registry, under a name that the hub does not have. -/
  | writes (name : String) (tool : ℕ)
  | deletes (name : String)

def step (s : MCPHub) : Label → Option MCPHub
  | .call c => some (call lib s c).2
  | .writes name tool =>
    if s.plugins.contains name then none else some { s with toolInstances := s.toolInstances.set name (.other tool) }
  | .deletes name =>
    if s.plugins.contains name then none else some { s with toolInstances := s.toolInstances.erase name }

/-! ## The three tables -/

/-- The sets of the tenants partition the names of the plugins, each plugin is in the set of its own tenant, and
the registry has exactly the plugins' proxies under their names. -/
structure Represents (s : MCPHub) : Prop where
  keys : ∀ name, s.plugins.contains name = true ↔ ∃ t names, s.tenantPlugins.get? t = some names ∧ name ∈ names
  disjoint : ∀ t₁ t₂ names₁ names₂, s.tenantPlugins.get? t₁ = some names₁ → s.tenantPlugins.get? t₂ = some names₂ →
    t₁ ≠ t₂ → Disjoint names₁ names₂
  owner : ∀ name proxy t names, s.plugins.get? name = some proxy → s.tenantPlugins.get? t = some names →
    (name ∈ names ↔ proxy.tenantId = t)
  registry : ∀ name proxy, s.plugins.get? name = some proxy ↔ s.toolInstances.get? name = some (.proxy proxy)

def Atomic (s : MCPHub) : Prop := ∀ c e, (call lib s c).1 = .error e → (call lib s c).2 = s

/-! ## What a run was answered -/

structure Answer where
  call : Call
  result : Except PyError Json

def answer (s : MCPHub) : Label → Option Answer
  | .call c => some ⟨c, (call lib s c).1⟩
  | .writes _ _ => none
  | .deletes _ => none

/-- The plugins with their tenants, as the caller knows them: `register_plugin` answers with the name that it has
registered, `unregister_plugin` with `True`. -/
def Answer.report (plugins : String → Option String) : Answer → String → Option String
  | ⟨.registerPlugin _ tenantId _ _, .ok (.obj fields)⟩ =>
    match fields.lookup "name" with
    | some (.str name) => Function.update plugins name (some tenantId)
    | _ => plugins
  | ⟨.unregisterPlugin name _, .ok (.bool true)⟩ => Function.update plugins name none
  | _ => plugins

def reported (answers : List Answer) : String → Option String := answers.foldl Answer.report fun _ => none

/-- The proxy that a call with the answer `True` was asked to remove. -/
def unregistered (s : MCPHub) : Label → Option MCPProxyTool
  | .call (.unregisterPlugin name tenantId) =>
    match (unregisterPlugin s name tenantId).1 with
    | .ok (.bool true) => s.plugins.get? name
    | _ => none
  | _ => none

/-- The plugins are those that were reported and not unregistered since, and of the proxies that were unregistered
none is left in the registry. -/
structure Accounted (answers : List Answer) (gone : List MCPProxyTool) (s : MCPHub) : Prop where
  plugins : ∀ name, (s.plugins.get? name).map MCPProxyTool.tenantId = reported answers name
  gone : ∀ proxy ∈ gone, ∀ name, s.toolInstances.get? name ≠ some (.proxy proxy)

/-! ## What a call does -/

variable {lib} {s s' : MCPHub}

theorem raiseIf_eq_ok {errors : List String} {what : String} {u : Unit} (h : raiseIf errors what = .ok u) :
    errors = [] := by
  unfold raiseIf at h
  split_ifs at h with hempty
  exact List.isEmpty_iff.mp hempty

/-- A proxy is made under a free name, for the tenant that asks. -/
theorem newPlugin_eq_ok {pluginDef : Json} {tenantId : String} {allowedHosts : Option (List String)}
    {rateLimit : Bool × ℕ} {proxy : MCPProxyTool}
    (h : newPlugin lib s pluginDef tenantId allowedHosts rateLimit = .ok proxy) :
    s.plugins.get? proxy.name = none ∧ proxy.tenantId = tenantId ∧ proxy.id = s.created := by
  obtain ⟨validationErrors, _, h⟩ := bind_eq_ok_iff.mp h
  obtain ⟨_, _, h⟩ := bind_eq_ok_iff.mp h
  obtain ⟨_, _, h⟩ := bind_eq_ok_iff.mp h
  obtain ⟨name, _, h⟩ := bind_eq_ok_iff.mp h
  obtain ⟨endpointUrl, _, h⟩ := bind_eq_ok_iff.mp h
  obtain ⟨description, _, h⟩ := bind_eq_ok_iff.mp h
  obtain ⟨parameters, _, h⟩ := bind_eq_ok_iff.mp h
  obtain ⟨urlErrors, _, h⟩ := bind_eq_ok_iff.mp h
  obtain ⟨_, _, h⟩ := bind_eq_ok_iff.mp h
  cases name with
  | str name =>
    obtain ⟨_, hfree, h⟩ := bind_eq_ok_iff.mp h
    obtain ⟨timeoutSeconds, _, h⟩ := bind_eq_ok_iff.mp h
    obtain ⟨maxRetries, _, h⟩ := bind_eq_ok_iff.mp h
    obtain ⟨verifySsl, _, h⟩ := bind_eq_ok_iff.mp h
    obtain ⟨items, _, h⟩ := bind_eq_ok_iff.mp h
    obtain ⟨toolParameters, _, h⟩ := bind_eq_ok_iff.mp h
    obtain rfl := Except.ok.inj h
    refine ⟨?_, rfl, rfl⟩
    have hcontains := errorIf_eq_nil.mp (raiseIf_eq_ok hfree)
    rwa [OrderedDict.contains, Option.isSome_eq_false_iff, Option.isNone_iff_eq_none] at hcontains
  | _ => cases h

theorem registerPlugin_cases (s : MCPHub) (pluginDef : Json) (tenantId : String)
    (allowedHosts : Option (List String)) (rateLimit : Bool × ℕ) :
    (∃ e, registerPlugin lib s pluginDef tenantId allowedHosts rateLimit = (.error e, s)) ∨
      ∃ proxy result, newPlugin lib s pluginDef tenantId allowedHosts rateLimit = .ok proxy ∧
        registerPlugin lib s pluginDef tenantId allowedHosts rateLimit = (.ok result, addPlugin s proxy) := by
  unfold registerPlugin
  cases h : newPlugin lib s pluginDef tenantId allowedHosts rateLimit with
  | error e => exact Or.inl ⟨e, rfl⟩
  | ok proxy => exact Or.inr ⟨proxy, _, rfl, rfl⟩

/-! ## The invariant -/

def MCPHub.names (s : MCPHub) (t : String) : Finset String := (s.tenantPlugins.get? t).getD ∅

structure Inv (s : MCPHub) : Prop where
  names : ∀ t name, name ∈ s.names t ↔ ∃ proxy, s.plugins.get? name = some proxy ∧ proxy.tenantId = t
  registry : ∀ name proxy, s.plugins.get? name = some proxy ↔ s.toolInstances.get? name = some (.proxy proxy)

theorem mem_names {t name : String} :
    name ∈ s.names t ↔ ∃ names, s.tenantPlugins.get? t = some names ∧ name ∈ names := by
  unfold MCPHub.names
  cases s.tenantPlugins.get? t with
  | none => simp
  | some names => simp

theorem Inv.represents (h : Inv s) : Represents s where
  keys name := by
    rw [OrderedDict.contains, Option.isSome_iff_exists]
    constructor
    · rintro ⟨proxy, hproxy⟩
      exact ⟨proxy.tenantId, mem_names.mp ((h.names _ name).mpr ⟨proxy, hproxy, rfl⟩)⟩
    · rintro ⟨t, hnames⟩
      obtain ⟨proxy, hproxy, _⟩ := (h.names t name).mp (mem_names.mpr hnames)
      exact ⟨proxy, hproxy⟩
  disjoint t₁ t₂ names₁ names₂ h₁ h₂ hne := by
    rw [Finset.disjoint_left]
    intro name hname₁ hname₂
    obtain ⟨proxy, hproxy, rfl⟩ := (h.names t₁ name).mp (mem_names.mpr ⟨names₁, h₁, hname₁⟩)
    obtain ⟨proxy', hproxy', rfl⟩ := (h.names t₂ name).mp (mem_names.mpr ⟨names₂, h₂, hname₂⟩)
    obtain rfl := Option.some.inj (hproxy.symm.trans hproxy')
    exact hne rfl
  owner name proxy t names hproxy ht := by
    have hmem : name ∈ s.names t ↔ name ∈ names := by
      unfold MCPHub.names
      rw [ht]
      rfl
    rw [← hmem, h.names]
    constructor
    · rintro ⟨proxy', hproxy', rfl⟩
      obtain rfl := Option.some.inj (hproxy.symm.trans hproxy')
      rfl
    · intro howner
      exact ⟨proxy, hproxy, howner⟩
  registry := h.registry

theorem Inv.init (toolInstances : OrderedDict String ℕ) : Inv (MCPHub.init toolInstances) where
  names t name := by simp [MCPHub.names, MCPHub.init]
  registry name proxy := by
    simp only [MCPHub.init, OrderedDict.get?_empty, OrderedDict.get?_map]
    cases toolInstances.get? name with
    | none => simp
    | some id => simp

theorem names_addPlugin (s : MCPHub) (proxy : MCPProxyTool) (t : String) :
    (addPlugin s proxy).names t = if t = proxy.tenantId then insert proxy.name (s.names t) else s.names t := by
  unfold MCPHub.names addPlugin
  rw [OrderedDict.get?_set]
  split_ifs with ht
  · rw [ht]
    rfl
  · rfl

theorem Inv.addPlugin {proxy : MCPProxyTool} (h : Inv s) (hfree : s.plugins.get? proxy.name = none) :
    Inv (addPlugin s proxy) where
  names t name := by
    rw [names_addPlugin]
    show _ ↔ ∃ proxy', (s.plugins.set proxy.name proxy).get? name = some proxy' ∧ _
    rw [OrderedDict.get?_set]
    by_cases hname : name = proxy.name
    · subst hname
      have hnot : proxy.name ∉ s.names t := by
        rw [h.names]
        rintro ⟨_, hold, _⟩
        rw [hfree] at hold
        cases hold
      rw [if_pos rfl]
      by_cases ht : t = proxy.tenantId
      · simp [ht]
      · simp [hnot, ht, Ne.symm ht]
    · rw [if_neg hname, ← h.names]
      by_cases ht : t = proxy.tenantId
      · simp [ht, hname]
      · simp [ht]
  registry name proxy' := by
    show (s.plugins.set proxy.name proxy).get? name = _ ↔ (s.toolInstances.set proxy.name (.proxy proxy)).get? name = _
    rw [OrderedDict.get?_set, OrderedDict.get?_set]
    split_ifs
    · simp
    · exact h.registry name proxy'

/-- A plugin's tenant has a set of names, so that an unregistration is refused or completes. -/
theorem Inv.unregisterPlugin_cases (h : Inv s) (name tenantId : String) :
    (∃ result, result ≠ .ok (.bool true) ∧ unregisterPlugin s name tenantId = (result, s)) ∨
      ∃ proxy names, s.plugins.get? name = some proxy ∧ proxy.tenantId = tenantId ∧
        s.tenantPlugins.get? tenantId = some names ∧
        unregisterPlugin s name tenantId = (.ok (.bool true),
          { s with
            plugins := s.plugins.erase name
            tenantPlugins := s.tenantPlugins.set tenantId (names.erase name)
            toolInstances := s.toolInstances.erase name }) := by
  unfold unregisterPlugin
  cases hproxy : s.plugins.get? name with
  | none => exact Or.inl ⟨_, by simp, rfl⟩
  | some proxy =>
    simp only
    split_ifs with howner
    · exact Or.inl ⟨_, by simp, rfl⟩
    · rw [ne_eq, not_not] at howner
      obtain ⟨names, hnames, _⟩ := mem_names.mp ((h.names tenantId name).mpr ⟨proxy, hproxy, howner⟩)
      rw [hnames]
      exact Or.inr ⟨proxy, names, rfl, howner, rfl, rfl⟩

theorem Inv.unregisterPlugin {name tenantId : String} (h : Inv s) : Inv (unregisterPlugin s name tenantId).2 := by
  rcases h.unregisterPlugin_cases name tenantId with ⟨_, _, hsame⟩ | ⟨proxy, names, hproxy, howner, hnames, hgone⟩
  · rw [hsame]
    exact h
  · rw [hgone]
    constructor
    · intro t name'
      have hset : MCPHub.names { s with
            plugins := s.plugins.erase name
            tenantPlugins := s.tenantPlugins.set tenantId (names.erase name)
            toolInstances := s.toolInstances.erase name } t =
          if t = tenantId then (s.names t).erase name else s.names t := by
        unfold MCPHub.names
        rw [OrderedDict.get?_set]
        split_ifs with ht
        · rw [ht, hnames]
          rfl
        · rfl
      rw [hset, OrderedDict.get?_erase]
      by_cases hname : name' = name
      · subst hname
        rw [if_pos rfl]
        by_cases ht : t = tenantId
        · simp [ht]
        · have hnot : name' ∉ s.names t := by
            rw [h.names]
            rintro ⟨proxy', hproxy', rfl⟩
            obtain rfl := Option.some.inj (hproxy.symm.trans hproxy')
            exact ht howner
          simp [ht, hnot]
      · rw [if_neg hname, ← h.names]
        by_cases ht : t = tenantId
        · simp [ht, hname]
        · simp [ht]
    · intro name' proxy'
      simp only [OrderedDict.get?_erase]
      split_ifs
      · simp
      · exact h.registry name' proxy'

theorem Inv.call (h : Inv s) (c : Call) : Inv (call lib s c).2 := by
  cases c with
  | registerPlugin pluginDef tenantId allowedHosts rateLimit =>
    rcases registerPlugin_cases s pluginDef tenantId allowedHosts rateLimit with
      ⟨e, hraises⟩ | ⟨proxy, result, hproxy, hadded⟩
    · rw [McpHub.call, hraises]
      exact h
    · rw [McpHub.call, hadded]
      exact h.addPlugin (newPlugin_eq_ok hproxy).1
  | unregisterPlugin name tenantId => exact h.unregisterPlugin

theorem Inv.beside {toolInstances : OrderedDict String Tool} {name : String} (h : Inv s)
    (hfree : s.plugins.contains name = false)
    (hnot : ∀ proxy, toolInstances.get? name ≠ some (.proxy proxy))
    (hsame : ∀ k, k ≠ name → toolInstances.get? k = s.toolInstances.get? k) :
    Inv { s with toolInstances := toolInstances } where
  names := h.names
  registry k proxy := by
    by_cases hk : k = name
    · subst hk
      rw [OrderedDict.contains, Option.isSome_eq_false_iff, Option.isNone_iff_eq_none] at hfree
      simp [hfree, hnot proxy]
    · simp only [hsame k hk]
      exact h.registry k proxy

theorem Inv.step {i : Label} (h : Inv s) (hstep : step lib s i = some s') : Inv s' := by
  cases i with
  | call c =>
    obtain rfl := Option.some.inj hstep
    exact h.call c
  | writes name tool =>
    simp only [McpHub.step] at hstep
    split_ifs at hstep with hown
    obtain rfl := Option.some.inj hstep
    refine h.beside (Bool.not_eq_true _ ▸ hown) (fun proxy => ?_) fun k hk => OrderedDict.get?_set_ne _ _ hk
    simp
  | deletes name =>
    simp only [McpHub.step] at hstep
    split_ifs at hstep with hown
    obtain rfl := Option.some.inj hstep
    refine h.beside (Bool.not_eq_true _ ▸ hown) (fun proxy => by simp) fun k hk => ?_
    rw [OrderedDict.get?_erase, if_neg hk]

theorem Inv.atomic (h : Inv s) : Atomic lib s := by
  intro c e hraises
  cases c with
  | registerPlugin pluginDef tenantId allowedHosts rateLimit =>
    rcases registerPlugin_cases s pluginDef tenantId allowedHosts rateLimit with
      ⟨e, hsame⟩ | ⟨proxy, result, _, hadded⟩
    · rw [McpHub.call, hsame]
    · rw [McpHub.call, hadded] at hraises
      cases hraises
  | unregisterPlugin name tenantId =>
    rcases h.unregisterPlugin_cases name tenantId with ⟨result, _, hsame⟩ | ⟨_, _, _, _, _, hgone⟩
    · rw [McpHub.call, hsame]
    · rw [McpHub.call, hgone] at hraises
      cases hraises

/-! ## The answers of a run -/

theorem reported_concat (answers : List Answer) (a : Answer) :
    reported (answers ++ [a]) = a.report (reported answers) := by
  unfold reported
  rw [List.foldl_append]
  rfl

/-- The answer of a registration names the plugin. -/
theorem report_registerPlugin {pluginDef : Json} {tenantId : String} {allowedHosts : Option (List String)}
    {rateLimit : Bool × ℕ} {proxy : MCPProxyTool} (plugins : String → Option String)
    (hproxy : newPlugin lib s pluginDef tenantId allowedHosts rateLimit = .ok proxy) :
    Answer.report plugins ⟨.registerPlugin pluginDef tenantId allowedHosts rateLimit,
      (registerPlugin lib s pluginDef tenantId allowedHosts rateLimit).1⟩ =
        Function.update plugins proxy.name (some proxy.tenantId) := by
  unfold registerPlugin
  rw [hproxy, (newPlugin_eq_ok hproxy).2.1]
  rfl

theorem report_refused {result : Except PyError Json} (plugins : String → Option String) (name tenantId : String)
    (hresult : result ≠ .ok (.bool true)) : Answer.report plugins ⟨.unregisterPlugin name tenantId, result⟩ = plugins := by
  unfold Answer.report
  split
  · cases ‹Answer.mk _ _ = _›
  · next heq =>
    cases heq
    exact absurd rfl hresult
  · rfl

/-- A call changes the plugins as its answer says. -/
theorem Inv.report (h : Inv s) (c : Call) (plugins : String → Option String)
    (hplugins : ∀ name, (s.plugins.get? name).map MCPProxyTool.tenantId = plugins name) (name : String) :
    ((McpHub.call lib s c).2.plugins.get? name).map MCPProxyTool.tenantId =
      Answer.report plugins ⟨c, (McpHub.call lib s c).1⟩ name := by
  cases c with
  | registerPlugin pluginDef tenantId allowedHosts rateLimit =>
    simp only [McpHub.call]
    rcases registerPlugin_cases s pluginDef tenantId allowedHosts rateLimit with
      ⟨e, hraises⟩ | ⟨proxy, result, hproxy, hadded⟩
    · rw [hraises]
      exact hplugins name
    · rw [report_registerPlugin plugins hproxy, hadded, Function.update_apply, ← hplugins name]
      show ((s.plugins.set proxy.name proxy).get? name).map _ = _
      rw [OrderedDict.get?_set]
      split_ifs
      · rfl
      · rfl
  | unregisterPlugin other tenantId =>
    simp only [McpHub.call]
    rcases h.unregisterPlugin_cases other tenantId with ⟨result, hresult, hsame⟩ | ⟨proxy, names, _, _, _, hgone⟩
    · rw [hsame, report_refused plugins other tenantId hresult]
      exact hplugins name
    · rw [hgone]
      show ((s.plugins.erase other).get? name).map _ = Function.update plugins other none name
      rw [Function.update_apply, ← hplugins name, OrderedDict.get?_erase]
      split_ifs
      · rfl
      · rfl

theorem reported_step {i : Label} {answers : List Answer} (h : Inv s)
    (hplugins : ∀ name, (s.plugins.get? name).map MCPProxyTool.tenantId = reported answers name)
    (hstep : step lib s i = some s') (name : String) :
    (s'.plugins.get? name).map MCPProxyTool.tenantId = reported (answers ++ (answer lib s i).toList) name := by
  cases i with
  | call c =>
    obtain rfl := Option.some.inj hstep
    simp only [answer, Option.toList_some, reported_concat]
    exact h.report c _ hplugins name
  | writes other tool =>
    simp only [McpHub.step] at hstep
    split_ifs at hstep
    obtain rfl := Option.some.inj hstep
    simpa only [answer, Option.toList_none, List.append_nil] using hplugins name
  | deletes other =>
    simp only [McpHub.step] at hstep
    split_ifs at hstep
    obtain rfl := Option.some.inj hstep
    simpa only [answer, Option.toList_none, List.append_nil] using hplugins name

/-! ## Unregistered proxies -/

/-- A registered proxy was made by this hub, for the name that it is registered under. -/
def Numbered (s : MCPHub) : Prop :=
  ∀ name proxy, s.plugins.get? name = some proxy → proxy.id < s.created ∧ proxy.name = name

/-- What is known of a proxy that was unregistered. -/
def Gone (s : MCPHub) (proxy : MCPProxyTool) : Prop := proxy.id < s.created ∧ ∀ name, s.plugins.get? name ≠ some proxy

theorem gone_unregistered {i : Label} {proxy : MCPProxyTool} (h : Inv s) (hnumbered : Numbered s)
    (hproxy : unregistered s i = some proxy) (hstep : step lib s i = some s') : Gone s' proxy := by
  unfold unregistered at hproxy
  split at hproxy
  · next name tenantId =>
    obtain rfl := Option.some.inj hstep
    rcases h.unregisterPlugin_cases name tenantId with ⟨result, hresult, hsame⟩ | ⟨_, names, hold, _, _, hgone⟩
    · rw [hsame] at hproxy
      split at hproxy
      · exact absurd ‹_› hresult
      · cases hproxy
    · rw [hgone] at hproxy
      obtain ⟨hid, hname⟩ := hnumbered name proxy hproxy
      simp only [call, hgone]
      refine ⟨hid, fun other hother => ?_⟩
      simp only [OrderedDict.get?_erase] at hother
      split_ifs at hother with hne
      exact hne ((hnumbered other proxy hother).2.symm.trans hname)
  · cases hproxy

/-- What a step leaves of the plugins: those before it, but for one that a registration adds under its own name. -/
theorem plugins_step {i : Label} (h : Inv s) (hstep : step lib s i = some s') : s.created ≤ s'.created ∧
    ∀ name proxy, s'.plugins.get? name = some proxy →
      s.plugins.get? name = some proxy ∨ (proxy.id = s.created ∧ proxy.name = name ∧ s'.created = s.created + 1) := by
  cases i with
  | call c =>
    obtain rfl := Option.some.inj hstep
    cases c with
    | registerPlugin pluginDef tenantId allowedHosts rateLimit =>
      simp only [call]
      rcases registerPlugin_cases s pluginDef tenantId allowedHosts rateLimit with
        ⟨e, hraises⟩ | ⟨added, result, hadded, hadd⟩
      · rw [hraises]
        exact ⟨le_rfl, fun name proxy hproxy => Or.inl hproxy⟩
      · rw [hadd]
        refine ⟨Nat.le_succ _, fun name proxy hproxy => ?_⟩
        simp only [addPlugin, OrderedDict.get?_set] at hproxy
        split_ifs at hproxy with hname
        · obtain rfl := Option.some.inj hproxy
          exact Or.inr ⟨(newPlugin_eq_ok hadded).2.2, hname.symm, rfl⟩
        · exact Or.inl hproxy
    | unregisterPlugin other tenantId =>
      simp only [call]
      rcases h.unregisterPlugin_cases other tenantId with ⟨result, _, hsame⟩ | ⟨_, names, _, _, _, hgone⟩
      · rw [hsame]
        exact ⟨le_rfl, fun name proxy hproxy => Or.inl hproxy⟩
      · rw [hgone]
        refine ⟨le_rfl, fun name proxy hproxy => ?_⟩
        simp only [OrderedDict.get?_erase] at hproxy
        split_ifs at hproxy
        exact Or.inl hproxy
  | writes other tool =>
    simp only [McpHub.step] at hstep
    split_ifs at hstep
    obtain rfl := Option.some.inj hstep
    exact ⟨le_rfl, fun name proxy hproxy => Or.inl hproxy⟩
  | deletes other =>
    simp only [McpHub.step] at hstep
    split_ifs at hstep
    obtain rfl := Option.some.inj hstep
    exact ⟨le_rfl, fun name proxy hproxy => Or.inl hproxy⟩

theorem Numbered.step {i : Label} (h : Inv s) (hnumbered : Numbered s) (hstep : step lib s i = some s') :
    Numbered s' := by
  obtain ⟨hcreated, hplugins⟩ := plugins_step h hstep
  intro name proxy hproxy
  rcases hplugins name proxy hproxy with hold | ⟨hid, hname, hnext⟩
  · obtain ⟨hid, hname⟩ := hnumbered name proxy hold
    exact ⟨lt_of_lt_of_le hid hcreated, hname⟩
  · exact ⟨by omega, hname⟩

theorem Gone.step {i : Label} {proxy : MCPProxyTool} (h : Inv s) (hgone : Gone s proxy)
    (hstep : step lib s i = some s') : Gone s' proxy := by
  obtain ⟨hcreated, hplugins⟩ := plugins_step h hstep
  refine ⟨lt_of_lt_of_le hgone.1 hcreated, fun name hproxy => ?_⟩
  rcases hplugins name proxy hproxy with hold | ⟨hid, _, _⟩
  · exact hgone.2 name hold
  · exact absurd hid (Nat.ne_of_lt hgone.1)

theorem accounted_run {toolInstances : OrderedDict String ℕ} {is : List Label}
    (hrun : exec (step lib) (MCPHub.init toolInstances) is = some s) :
    Accounted (trace (step lib) (answer lib) (MCPHub.init toolInstances) is)
      (trace (step lib) unregistered (MCPHub.init toolInstances) is) s := by
  have hanswers : Inv s ∧ ∀ name, (s.plugins.get? name).map MCPProxyTool.tenantId =
      reported ([] ++ trace (step lib) (answer lib) (MCPHub.init toolInstances) is) name := by
    refine @exec_trace _ _ _ _ _ _ (fun answers s => Inv s ∧ ∀ name,
      (s.plugins.get? name).map MCPProxyTool.tenantId = reported answers name)
      (fun answers s i s' h _ hstep => ⟨h.1.step hstep, reported_step h.1 h.2 hstep⟩) _ _ _ _
      ⟨Inv.init toolInstances, fun name => ?_⟩ (Guarded.trivial _ _ _) hrun
    simp [MCPHub.init, reported]
  have hgone : (Inv s ∧ Numbered s) ∧
      ∀ proxy ∈ [] ++ trace (step lib) unregistered (MCPHub.init toolInstances) is, Gone s proxy := by
    refine @exec_trace _ _ _ _ _ _ (fun gone s => (Inv s ∧ Numbered s) ∧ ∀ proxy ∈ gone, Gone s proxy)
      (fun gone s i s' h _ hstep => ⟨⟨h.1.1.step hstep, h.1.2.step h.1.1 hstep⟩, fun proxy hproxy => ?_⟩) _ _ _ _
      ⟨⟨Inv.init toolInstances, fun name proxy hproxy => ?_⟩, by simp⟩ (Guarded.trivial _ _ _) hrun
    · rcases List.mem_append.mp hproxy with hold | hnow
      · exact (h.2 proxy hold).step h.1.1 hstep
      · exact gone_unregistered h.1.1 h.1.2 (Option.mem_toList.mp hnow) hstep
    · simp [MCPHub.init] at hproxy
  exact ⟨hanswers.2, fun proxy hproxy name hname =>
    (hgone.2 proxy hproxy).2 name ((hgone.1.1.registry name proxy).mpr hname)⟩

end Methods

/-- **In every reachable state the three tables represent one set of plugins, namely those that were reported and
not unregistered since, no unregistered proxy is left in the registry, and a call that raises changes no table.** -/
theorem represents_and_atomic (lib : Library) (toolInstances : OrderedDict String ℕ) (is : List Label) (s : MCPHub)
    (hrun : exec (step lib) (MCPHub.init toolInstances) is = some s) : Represents s ∧ Atomic lib s ∧
      Accounted (trace (step lib) (answer lib) (MCPHub.init toolInstances) is)
        (trace (step lib) unregistered (MCPHub.init toolInstances) is) s := by
  have hinv : Inv s := exec_invariant_all (fun _ _ _ h hstep => Inv.step h hstep) (Inv.init toolInstances) hrun
  exact ⟨hinv.represents, hinv.atomic, accounted_run hrun⟩

def oneHost : Library where
  urlparse _ := some ⟨"https", "plugins.example.com", some "plugins.example.com"⟩
  isIpAddress _ := false
  str _ := ""
  toolParameter _ _ _ _ := .ok ⟨"", "", "", true⟩

def weatherCall (tenantId : String) : Call :=
  .registerPlugin (.obj [("name", .str "weather"), ("endpoint_url", .str "https://plugins.example.com/weather")])
    tenantId none (true, 0)

/-- The name goes from one tenant to another. -/
def weatherRun : List Label :=
  [.call (weatherCall "acme"), .call (.unregisterPlugin "weather" "acme"), .call (weatherCall "globex")]

def weatherHub : MCPHub :=
  (call oneHost (call oneHost (call oneHost (MCPHub.init .empty) (weatherCall "acme")).2
    (.unregisterPlugin "weather" "acme")).2 (weatherCall "globex")).2

theorem weather_registered :
    (trace (step oneHost) unregistered (MCPHub.init .empty) weatherRun).map MCPProxyTool.tenantId = ["acme"] ∧
    (weatherHub.plugins.get? "weather").map MCPProxyTool.tenantId = some "globex" ∧
    Represents weatherHub ∧ Atomic oneHost weatherHub ∧
    Accounted (trace (step oneHost) (answer oneHost) (MCPHub.init .empty) weatherRun)
      (trace (step oneHost) unregistered (MCPHub.init .empty) weatherRun) weatherHub :=
  ⟨by decide +kernel, by decide +kernel, represents_and_atomic oneHost .empty weatherRun weatherHub rfl⟩

end KernelRuntime.McpHub
