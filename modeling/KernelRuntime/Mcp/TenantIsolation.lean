import KernelRuntime.Mcp.Manager
import KernelRuntime.Foundations.Execution

/-! # Tenants and the shared tool registry

A tenant is isolated when its lookups, its tool lists and its tool calls only meet built-in tools
and tools that it registered itself. The registry of the process has one entry for each name, so
this depends on what the other tenants do: `OwnRegistration` says which steps keep it. -/

namespace KernelRuntime.Mcp
set_option autoImplicit false

/-- The tool is built in, or registered by the tenant. -/
def Belongs (tenant : String) (provider : Provider) : Prop :=
  provider.owner = none ∨ provider.owner = some tenant

/-- What the sessions of the tenant meet. -/
structure Isolated (tenant : String) (s : State) : Prop where
  lookup : ∀ name tool, s.registry.getToolInstance name = some tool → Belongs tenant tool.provider
  listed : ∀ tool ∈ s.registry.getAllTools, Belongs tenant tool.provider
  sent : ∀ d ∈ s.sent, d.tenantId = tenant → Belongs tenant d.provider

/-- Starting this server would add no tool to the registry. -/
def AddsNothing (s : State) (tenantId name : String) (tools : List ToolManifest) : Prop :=
  (registerAdapters tenantId name s.adapters tools).completed = true →
    ∀ a ∈ (registerAdapters tenantId name s.adapters tools).created,
      s.registry.toolInstances.contains a.name = true

/-- A step that puts a tool into the registry is taken by the tenant itself. -/
def OwnRegistration (v : Validators) (tenant : String) (s : State) : Step → Prop
  | .registerPlugin definition tenantId allowedHosts rateAllowed =>
    registerable v s definition allowedHosts rateAllowed = true → tenantId = tenant
  | .registerServer tenantId name (.listed tools) =>
    s.servers.contains (tenantId, name) = false → tenantId = tenant ∨ AddsNothing s tenantId name tools
  | .restartServer tenantId name (.listed tools) =>
    ∀ server, s.servers.get? (tenantId, name) = some server → tenantId = tenant ∨
      AddsNothing (unregisterMcpTools s tenantId name server.tools) tenantId name tools
  | _ => True

/-! ## The registry between the steps -/

/-- The form of `Isolated` that steps preserve: it speaks of the table without discovery. -/
structure Inv (tenant : String) (s : State) : Prop where
  instances : s.registry.toolInstances.All fun tool => Belongs tenant tool.provider
  sent : ∀ d ∈ s.sent, d.tenantId = tenant → Belongs tenant d.provider

theorem belongs_builtin (tenant : String) (tool : ToolInstance) (h : tool.provider = .builtin) :
    Belongs tenant tool.provider := by
  rw [h]
  exact Or.inl rfl

theorem isolated_iff_inv (tenant : String) (s : State) : Isolated tenant s ↔ Inv tenant s := by
  have hall := ToolRegistry.all_discover_iff (belongs_builtin tenant) s.registry
  constructor
  · intro h
    exact ⟨hall.mp h.lookup, h.sent⟩
  · intro h
    have hdiscovered := hall.mpr h.instances
    refine ⟨hdiscovered, ?_, h.sent⟩
    intro tool htool
    obtain ⟨k, hk⟩ := (OrderedDict.mem_values_iff _ tool).mp htool
    exact hdiscovered k tool hk

theorem created_owner (tenantId name : String) (tools : List ToolManifest)
    (adapters : OrderedDict (String × String) ToolInstance) :
    ∀ a ∈ (registerAdapters tenantId name adapters tools).created,
      a.provider.owner = some tenantId := by
  intro a ha
  obtain ⟨tool, _, rfl⟩ := exists_of_mem_created tools adapters ha
  rfl

theorem get?_mirror (instances : OrderedDict String ToolInstance) (created : List ToolInstance)
    (k : String) : (mirror instances created).get? k =
      (instances.get? k).or (created.find? fun a => decide (a.name = k)) := by
  have h := ToolRegistry.get?_foldl_addIfAbsent ToolInstance.name id created instances k
  rw [Option.map_id_fun, id] at h
  exact h

/-- The mirrored adapters are the tenant's, or their names were taken. -/
theorem all_mirror {tenant : String} {instances : OrderedDict String ToolInstance}
    {created : List ToolInstance} (h : instances.All fun tool => Belongs tenant tool.provider)
    (hnew : ∀ a ∈ created, instances.contains a.name = true ∨ Belongs tenant a.provider) :
    (mirror instances created).All fun tool => Belongs tenant tool.provider := by
  intro k v hv
  rw [get?_mirror] at hv
  cases hk : instances.get? k with
  | some w =>
    rw [hk, Option.some_or] at hv
    exact h k v (hk.trans hv)
  | none =>
    rw [hk, Option.none_or] at hv
    have hname : v.name = k := by simpa using List.find?_some hv
    rcases hnew v (List.mem_of_find?_eq_some hv) with htaken | hbelongs
    · rw [hname, OrderedDict.contains, hk] at htaken
      cases htaken
    · exact hbelongs

/-- An adapter of another tenant whose name is free is in the registry afterwards. -/
theorem not_all_mirror {tenant tenantId : String} {instances : OrderedDict String ToolInstance}
    {created : List ToolInstance} (howner : ∀ a ∈ created, a.provider.owner = some tenantId)
    (hne : tenantId ≠ tenant) (hfree : ∃ a ∈ created, instances.contains a.name = false) :
    ¬ (mirror instances created).All fun tool => Belongs tenant tool.provider := by
  obtain ⟨a, ha, hfree⟩ := hfree
  intro h
  have hnone : instances.get? a.name = none := by
    rw [OrderedDict.contains, Option.isSome_eq_false_iff, Option.isNone_iff_eq_none] at hfree
    exact hfree
  have hfound : ∃ b, created.find? (fun b => decide (b.name = a.name)) = some b := by
    rw [← Option.isSome_iff_exists, List.find?_isSome]
    exact ⟨a, ha, decide_eq_true rfl⟩
  obtain ⟨b, hb⟩ := hfound
  have hbelongs : Belongs tenant b.provider :=
    h a.name b (by rw [get?_mirror, hnone, Option.none_or, hb])
  unfold Belongs at hbelongs
  rw [howner b (List.mem_of_find?_eq_some hb)] at hbelongs
  rcases hbelongs with hbelongs | hbelongs
  · cases hbelongs
  · exact hne (Option.some.inj hbelongs)

/-! ## One step -/

theorem startServer_sent (s : State) (tenantId name : String) (old : StdioServer)
    (start : StartResult) : (startServer s tenantId name old start).1.sent = s.sent := by
  unfold startServer registerMcpTools
  cases start with
  | failed => rfl
  | listed tools =>
    simp only
    split_ifs <;> rfl

/-- Starting a server either leaves the registry alone or mirrors the created adapters. -/
theorem startServer_instances (s : State) (tenantId name : String) (old : StdioServer)
    (start : StartResult) :
    (startServer s tenantId name old start).1.registry.toolInstances =
      match start with
      | .failed => s.registry.toolInstances
      | .listed tools =>
        if (registerAdapters tenantId name s.adapters tools).completed then
          mirror s.registry.toolInstances (registerAdapters tenantId name s.adapters tools).created
        else s.registry.toolInstances := by
  unfold startServer registerMcpTools
  cases start with
  | failed => rfl
  | listed tools =>
    simp only
    split_ifs <;> rfl

theorem Inv.startServer {tenant : String} {s : State} (h : Inv tenant s) {tenantId name : String}
    {old : StdioServer} {start : StartResult}
    (hok : ∀ tools, start = .listed tools → tenantId = tenant ∨ AddsNothing s tenantId name tools) :
    Inv tenant (startServer s tenantId name old start).1 := by
  refine ⟨?_, by rw [startServer_sent]; exact h.sent⟩
  rw [startServer_instances]
  cases start with
  | failed => exact h.instances
  | listed tools =>
    simp only
    split_ifs with hcompleted
    · refine all_mirror h.instances fun a ha => ?_
      rcases hok tools rfl with hown | hnothing
      · exact Or.inr (Or.inr (by rw [created_owner tenantId name tools s.adapters a ha, hown]))
      · exact Or.inl (hnothing hcompleted a ha)
    · exact h.instances

theorem not_inv_startServer {tenant : String} {s : State} {tenantId name : String}
    {old : StdioServer} {tools : List ToolManifest} (hne : tenantId ≠ tenant)
    (hadds : ¬ AddsNothing s tenantId name tools) :
    ¬ Inv tenant (startServer s tenantId name old (.listed tools)).1 := by
  intro h
  have hall := h.instances
  unfold AddsNothing at hadds
  push Not at hadds
  obtain ⟨hcompleted, a, ha, hfree⟩ := hadds
  rw [startServer_instances] at hall
  simp only [hcompleted, if_true] at hall
  exact not_all_mirror (created_owner tenantId name tools s.adapters) hne
    ⟨a, ha, Bool.eq_false_iff.mpr hfree⟩ hall

theorem Inv.unregisterMcpTools {tenant : String} {s : State} (h : Inv tenant s)
    (tenantId serverName : String) (tools : List ToolManifest) :
    Inv tenant (unregisterMcpTools s tenantId serverName tools) :=
  ⟨h.instances.foldl_erase (fun tool : ToolManifest => adapterName serverName tool.name) tools, h.sent⟩

theorem inv_registerServer_iff (tenant : String) (s : State) (tenantId name : String)
    (start : StartResult) (hnew : s.servers.contains (tenantId, name) = false) :
    Inv tenant (registerServer s tenantId name start) ↔
      Inv tenant (startServer s tenantId name ⟨[], .running⟩ start).1 := by
  unfold registerServer
  rw [hnew, if_neg Bool.false_ne_true]
  cases hstart : startServer s tenantId name ⟨[], .running⟩ start with
  | mk s' completed =>
    simp only
    split_ifs
    · rfl
    · exact ⟨fun h => ⟨h.instances, h.sent⟩, fun h => ⟨h.instances, h.sent⟩⟩

/-- **One step: the tenant stays isolated when the step is not another tenant's registration.** -/
theorem Inv.step {v : Validators} {tenant : String} {s s' : State} {i : Step} (h : Inv tenant s)
    (hok : OwnRegistration v tenant s i) (hstep : step v s i = some s') : Inv tenant s' := by
  cases i with
  | registerPlugin definition tenantId allowedHosts rateAllowed =>
    rw [← Option.some.inj hstep]
    unfold registerPlugin
    split_ifs with hregisterable
    · refine ⟨h.instances.set _ (Or.inr ?_), h.sent⟩
      exact congrArg some (hok hregisterable)
    · exact h
  | unregisterPlugin name tenantId =>
    rw [← Option.some.inj hstep]
    unfold unregisterPlugin
    cases s.plugins.get? name with
    | none => exact h
    | some plugin =>
      simp only
      split_ifs
      · exact ⟨h.instances.erase name, h.sent⟩
      · exact h
  | registerServer tenantId name start =>
    rw [← Option.some.inj hstep]
    cases hnew : s.servers.contains (tenantId, name) with
    | true =>
      unfold registerServer
      rw [hnew, if_pos rfl]
      exact h
    | false =>
      rw [inv_registerServer_iff tenant s tenantId name start hnew]
      refine h.startServer ?_
      rintro tools rfl
      exact hok hnew
  | unregisterServer tenantId name =>
    rw [← Option.some.inj hstep]
    unfold unregisterServer
    cases s.servers.get? (tenantId, name) with
    | none => exact h
    | some server =>
      have h' := h.unregisterMcpTools tenantId name server.tools
      exact ⟨h'.instances, h'.sent⟩
  | restartServer tenantId name start =>
    rw [← Option.some.inj hstep]
    unfold restartServer
    cases hserver : s.servers.get? (tenantId, name) with
    | none => exact h
    | some server =>
      refine (h.unregisterMcpTools tenantId name server.tools).startServer ?_
      rintro tools rfl
      exact hok server hserver
  | toolEvent tenantId toolName =>
    rw [← Option.some.inj hstep]
    have hinstances : s.registry.discover.toolInstances.All fun tool => Belongs tenant tool.provider :=
      (ToolRegistry.all_discover_iff (belongs_builtin tenant) s.registry).mpr h.instances
    unfold toolEvent
    cases htool : s.registry.getToolInstance toolName with
    | none => exact ⟨hinstances, h.sent⟩
    | some tool =>
      refine ⟨hinstances, ?_⟩
      intro d hd hdt
      rcases List.mem_append.mp hd with hd | hd
      · exact h.sent d hd hdt
      · rw [List.mem_singleton.mp hd]
        exact hinstances toolName tool htool
  | listTools tenantId =>
    rw [← Option.some.inj hstep]
    exact ⟨(ToolRegistry.all_discover_iff (belongs_builtin tenant) s.registry).mpr h.instances, h.sent⟩

/-- Another tenant's registration ends the isolation. -/
theorem not_inv_of_violation {v : Validators} {tenant : String} {s : State} {i : Step}
    (hbad : ¬ OwnRegistration v tenant s i) : ∃ s', step v s i = some s' ∧ ¬ Inv tenant s' := by
  cases i with
  | registerPlugin definition tenantId allowedHosts rateAllowed =>
    unfold OwnRegistration at hbad
    push Not at hbad
    obtain ⟨hregisterable, hne⟩ := hbad
    refine ⟨_, rfl, ?_⟩
    unfold registerPlugin
    rw [if_pos hregisterable]
    intro h
    have hbelongs := h.instances definition.name _ (OrderedDict.get?_set_self _ _ _)
    rcases hbelongs with hbelongs | hbelongs
    · cases hbelongs
    · exact hne (Option.some.inj hbelongs)
  | registerServer tenantId name start =>
    cases start with
    | failed => exact absurd True.intro hbad
    | listed tools =>
      unfold OwnRegistration at hbad
      push Not at hbad
      obtain ⟨hnew, hne, hadds⟩ := hbad
      refine ⟨_, rfl, ?_⟩
      rw [inv_registerServer_iff tenant s tenantId name _ hnew]
      exact not_inv_startServer hne hadds
  | restartServer tenantId name start =>
    cases start with
    | failed => exact absurd True.intro hbad
    | listed tools =>
      unfold OwnRegistration at hbad
      push Not at hbad
      obtain ⟨server, hserver, hne, hadds⟩ := hbad
      refine ⟨_, rfl, ?_⟩
      unfold restartServer
      rw [hserver]
      exact not_inv_startServer hne hadds
  | unregisterPlugin name tenantId => exact absurd True.intro hbad
  | unregisterServer tenantId name => exact absurd True.intro hbad
  | toolEvent tenantId toolName => exact absurd True.intro hbad
  | listTools tenantId => exact absurd True.intro hbad

/-! ## Runs -/

theorem Inv.init (tenant : String) : Inv tenant State.init :=
  ⟨OrderedDict.All.empty _, fun _ h => absurd h List.not_mem_nil⟩

/-- **A tenant is isolated in every state of a run exactly when every step of the run that puts a
tool into the registry is taken by that tenant.** -/
theorem isolated_iff_ownRegistrations (v : Validators) (tenant : String) (is : List Step) :
    (∀ js ks s, is = js ++ ks → exec (step v) State.init js = some s → Isolated tenant s) ↔
      Guarded (step v) (OwnRegistration v tenant) State.init is := by
  have h : (∀ js ks s, is = js ++ ks → exec (step v) State.init js = some s → Inv tenant s) ↔
      Guarded (step v) (OwnRegistration v tenant) State.init is :=
    always_iff_guarded (fun _ _ _ (h : True) _ => h) (fun _ _ _ _ h hok hstep => h.step hok hstep)
      (fun _ _ _ _ hbad => not_inv_of_violation hbad) True.intro (Inv.init tenant) is
  rw [← h]
  simp only [isolated_iff_inv]

/-- A plugin of one tenant is what another tenant's lookup of its name returns. -/
theorem plugin_shared_between_tenants :
    ¬ ∀ (v : Validators) (tenant : String) (is : List Step) (s : State),
      exec (step v) State.init is = some s → Isolated tenant s := by
  intro h
  have hisolated := h ⟨fun _ => [], fun _ _ => []⟩ "globex"
    [.registerPlugin ⟨"search", "https://acme.test/mcp", []⟩ "acme" none true] _ rfl
  have hbelongs := hisolated.lookup "search" ⟨"search", .plugin "acme" "https://acme.test/mcp"⟩ rfl
  rcases hbelongs with hbelongs | hbelongs
  · cases hbelongs
  · exact absurd hbelongs (by decide)

end KernelRuntime.Mcp
