import KernelRuntime.Mcp.TenantIsolation

/-! # What removing a server takes with it

Adapters are found by names that join the name of a server to the name of a tool. Unregistering or
restarting a server therefore also meets the entries of other servers, whenever two such names agree or
one begins with the other server's prefix. `StepOk` says which steps touch no entry of another server. -/

namespace KernelRuntime.Mcp
set_option autoImplicit false

/-- The tenant and the name of the stdio server behind a tool. -/
def serverOf : Provider → Option (String × String)
  | .stdio tenantId serverName _ => some (tenantId, serverName)
  | _ => none

def OfOther (server : String × String) (tool : ToolInstance) : Prop :=
  ∃ owner, serverOf tool.provider = some owner ∧ owner ≠ server

structure Untouched (server : String × String) (s s' : State) : Prop where
  adapters : s.adapters.Keeps (OfOther server) s'.adapters
  registry : s.registry.toolInstances.Keeps (OfOther server) s'.registry.toolInstances
  toolNameToServer : s.toolNameToServer.Keeps (· ≠ server) s'.toolNameToServer

/-- Unregistering or restarting a server leaves the entries of other servers alone. -/
def FrameKept (s : State) : Step → Prop
  | .unregisterServer tenantId name => Untouched (tenantId, name) s (unregisterServer s tenantId name)
  | .restartServer tenantId name start => Untouched (tenantId, name) s (restartServer s tenantId name start)
  | _ => True

def serverPrefix (name : String) : String := "mcp_" ++ name ++ "_"

/-- What is deleted with the server belongs to it: the adapters of the tenant that carry its prefix, and the
entries at the names of its tools. -/
structure RemovesOwn (s : State) (tenantId name : String) (tools : List ToolManifest) : Prop where
  adapters : ∀ k tool, s.adapters.get? (tenantId, k) = some tool →
    (serverPrefix name).toList <+: k.toList → ¬ OfOther (tenantId, name) tool
  registry : ∀ tool ∈ tools, ∀ entry,
    s.registry.toolInstances.get? (adapterName name tool.name) = some entry → ¬ OfOther (tenantId, name) entry
  toolNameToServer : ∀ tool ∈ tools, ∀ owner,
    s.toolNameToServer.get? (adapterName name tool.name) = some owner → owner = (tenantId, name)

/-- The schemas of the listed tools convert; a name that was listed before is not converted again. -/
def schemasConvert : List String → List ToolManifest → Bool
  | _, [] => true
  | seen, tool :: tools =>
    if tool.name ∈ seen then schemasConvert seen tools
    else tool.schemaOk && schemasConvert (tool.name :: seen) tools

/-- The names that a restarted server writes to `_tool_name_to_server` are not another server's. -/
def WritesOwn (s : State) (tenantId name : String) : StartResult → Prop
  | .failed => True
  | .listed tools => schemasConvert [] tools = true → ∀ tool ∈ tools, ∀ owner,
      s.toolNameToServer.get? (adapterName name tool.name) = some owner → owner = (tenantId, name)

def StepOk (s : State) : Step → Prop
  | .unregisterServer tenantId name => ∀ server, s.servers.get? (tenantId, name) = some server →
      RemovesOwn s tenantId name server.tools
  | .restartServer tenantId name start => ∀ server, s.servers.get? (tenantId, name) = some server →
      RemovesOwn s tenantId name server.tools ∧ WritesOwn s tenantId name start
  | _ => True

/-! ## Names -/

theorem adapterName_eq (name toolName : String) : adapterName name toolName = serverPrefix name ++ toolName := rfl

theorem adapterName_inj {name a b : String} : adapterName name a = adapterName name b ↔ a = b :=
  String.append_right_inj _

theorem serverPrefix_adapterName (name toolName : String) :
    (serverPrefix name).toList <+: (adapterName name toolName).toList := by
  rw [adapterName_eq, String.toList_append]
  exact List.prefix_append _ _

/-! ## Removing the tools of a server -/

section Remove
variable {s : State} {tenantId name : String} {tools : List ToolManifest}

theorem mem_prefixed_iff (k : String × String) :
    k ∈ (s.adapters.entries.filter fun e => decide (e.1.1 = tenantId) &&
        ("mcp_" ++ name ++ "_").toList.isPrefixOf e.1.2.toList).map Prod.fst ↔
      (∃ tool, s.adapters.get? k = some tool) ∧ k.1 = tenantId ∧ (serverPrefix name).toList <+: k.2.toList := by
  simp only [List.mem_map, List.mem_filter, Bool.and_eq_true, decide_eq_true_eq, List.isPrefixOf_iff_prefix,
    OrderedDict.get?, lookup_eq_some_iff s.adapters.nodup]
  constructor
  · rintro ⟨e, ⟨hmem, htenant, hprefix⟩, rfl⟩
    exact ⟨⟨e.2, hmem⟩, htenant, hprefix⟩
  · rintro ⟨⟨tool, hmem⟩, htenant, hprefix⟩
    exact ⟨(k, tool), ⟨hmem, htenant, hprefix⟩, rfl⟩

theorem get?_adapters_unregister (toolName : String) :
    (unregisterMcpTools s tenantId name tools).adapters.get? (tenantId, adapterName name toolName) = none := by
  show (List.foldl OrderedDict.erase s.adapters _).get? _ = none
  rw [OrderedDict.get?_foldl_erase]
  split_ifs with hmem
  · rfl
  · rw [mem_prefixed_iff] at hmem
    cases hentry : s.adapters.get? (tenantId, adapterName name toolName) with
    | none => rfl
    | some tool => exact absurd ⟨⟨tool, hentry⟩, rfl, serverPrefix_adapterName name toolName⟩ hmem

/-- **Removing the tools of a server touches no other server exactly when all that it deletes is the
server's own.** -/
theorem untouched_unregister_iff :
    Untouched (tenantId, name) s (unregisterMcpTools s tenantId name tools) ↔
      RemovesOwn s tenantId name tools := by
  have hadapters : s.adapters.Keeps (OfOther (tenantId, name)) (unregisterMcpTools s tenantId name tools).adapters ↔
      ∀ k tool, s.adapters.get? (tenantId, k) = some tool →
        (serverPrefix name).toList <+: k.toList → ¬ OfOther (tenantId, name) tool := by
    refine OrderedDict.keeps_foldl_erase_iff.trans ?_
    constructor
    · intro h k tool htool hprefix
      exact h (tenantId, k) ((mem_prefixed_iff _).mpr ⟨⟨tool, htool⟩, rfl, hprefix⟩) tool htool
    · rintro h ⟨t, k⟩ hmem tool htool
      obtain ⟨_, rfl, hprefix⟩ := (mem_prefixed_iff _).mp hmem
      exact h k tool htool hprefix
  have hregistry : s.registry.toolInstances.Keeps (OfOther (tenantId, name))
      (unregisterMcpTools s tenantId name tools).registry.toolInstances ↔ ∀ tool ∈ tools, ∀ entry,
        s.registry.toolInstances.get? (adapterName name tool.name) = some entry →
          ¬ OfOther (tenantId, name) entry := by
    show OrderedDict.Keeps _ _ (List.foldl (fun d tool => d.erase (adapterName name tool.name)) _ tools) ↔ _
    rw [← List.foldl_map (f := fun tool : ToolManifest => adapterName name tool.name),
      OrderedDict.keeps_foldl_erase_iff, List.forall_mem_map]
  have hnames : s.toolNameToServer.Keeps (· ≠ (tenantId, name))
      (unregisterMcpTools s tenantId name tools).toolNameToServer ↔ ∀ tool ∈ tools, ∀ owner,
        s.toolNameToServer.get? (adapterName name tool.name) = some owner → owner = (tenantId, name) := by
    show OrderedDict.Keeps _ _ (List.foldl (fun d tool => d.erase (adapterName name tool.name)) _ tools) ↔ _
    rw [← List.foldl_map (f := fun tool : ToolManifest => adapterName name tool.name),
      OrderedDict.keeps_foldl_erase_iff, List.forall_mem_map]
    simp only [not_not]
  constructor
  · intro h
    exact ⟨hadapters.mp h.adapters, hregistry.mp h.registry, hnames.mp h.toolNameToServer⟩
  · intro h
    exact ⟨hadapters.mpr h.adapters, hregistry.mpr h.registry, hnames.mpr h.toolNameToServer⟩

end Remove

/-! ## Registering the tools of a server -/

section Register
variable {s : State} {tenantId name : String}

theorem not_ofOther_adapterFor (tenantId name : String) (tool : ToolManifest) :
    ¬ OfOther (tenantId, name) (adapterFor tenantId name tool) := by
  rintro ⟨owner, howner, hne⟩
  exact hne (Option.some.inj howner).symm

theorem registerAdapters_keeps (tools : List ToolManifest) (adapters : OrderedDict (String × String) ToolInstance)
    {k : String × String} {tool : ToolInstance} (h : adapters.get? k = some tool) :
    (registerAdapters tenantId name adapters tools).adapters.get? k = some tool := by
  induction tools generalizing adapters with
  | nil => exact h
  | cons t tools ih =>
    unfold registerAdapters
    split_ifs with hknown hschema
    · exact ih adapters h
    · refine ih _ ?_
      rw [OrderedDict.get?_set_ne]
      · exact h
      · rintro rfl
        exact hknown (by rw [OrderedDict.contains]; exact Option.isSome_of_eq_some h)
    · exact h

theorem registerAdapters_new (tools : List ToolManifest) (adapters : OrderedDict (String × String) ToolInstance)
    (k : String × String) (tool : ToolInstance)
    (h : (registerAdapters tenantId name adapters tools).adapters.get? k = some tool) :
    adapters.get? k = some tool ∨ ¬ OfOther (tenantId, name) tool := by
  obtain hold | ⟨t, _, _, rfl⟩ := registerAdapters_cases tools adapters h
  · exact Or.inl hold
  · exact Or.inr (not_ofOther_adapterFor tenantId name t)

theorem created_own (tools : List ToolManifest) (adapters : OrderedDict (String × String) ToolInstance) :
    ∀ a ∈ (registerAdapters tenantId name adapters tools).created, ¬ OfOther (tenantId, name) a := by
  intro a ha
  obtain ⟨tool, _, rfl⟩ := exists_of_mem_created tools adapters ha
  exact not_ofOther_adapterFor tenantId name tool

/-- Once the names with the server's prefix are free, only a schema can stop the registration. -/
theorem completed_registerAdapters (tools : List ToolManifest)
    (adapters : OrderedDict (String × String) ToolInstance) (seen : List String)
    (hseen : ∀ toolName, adapters.contains (tenantId, adapterName name toolName) = true ↔ toolName ∈ seen) :
    (registerAdapters tenantId name adapters tools).completed = schemasConvert seen tools := by
  induction tools generalizing adapters seen with
  | nil => rfl
  | cons tool tools ih =>
    unfold registerAdapters schemasConvert
    simp only [hseen]
    split_ifs with hknown hschema
    · exact ih adapters seen hseen
    · rw [hschema, Bool.true_and]
      refine ih _ _ fun toolName => ?_
      rw [OrderedDict.contains, OrderedDict.get?_set, List.mem_cons, ← hseen, OrderedDict.contains]
      by_cases hname : toolName = tool.name
      · simp [hname, adapterFor]
      · have hne : ¬ (tenantId, adapterName name toolName) = (tenantId, adapterName name tool.name) :=
          fun h => hname (adapterName_inj.mp (Prod.mk.inj h).2)
        rw [show (adapterFor tenantId name tool).name = adapterName name tool.name from rfl, if_neg hne]
        simp only [hname, false_or]
    · rw [Bool.not_eq_true] at hschema
      rw [hschema, Bool.false_and]

theorem keeps_mirror_iff {d instances : OrderedDict String ToolInstance} {created : List ToolInstance}
    {p : ToolInstance → Prop} (hown : ∀ a ∈ created, ¬ p a) :
    d.Keeps p (mirror instances created) ↔ d.Keeps p instances := by
  refine OrderedDict.keeps_fill_iff ?_ ?_
  · intro k v hv
    rw [get?_mirror, hv, Option.some_or]
  · intro k v hv
    rw [get?_mirror] at hv
    cases hk : instances.get? k with
    | some w =>
      rw [hk, Option.some_or] at hv
      exact Or.inl hv
    | none =>
      rw [hk, Option.none_or] at hv
      exact Or.inr (hown v (List.mem_of_find?_eq_some hv))

/-- Starting the server again, once its tools are removed, can only hurt through `_tool_name_to_server`. -/
theorem untouched_register_iff {s₀ : State} {tools : List ToolManifest}
    (hfree : ∀ toolName, s.adapters.get? (tenantId, adapterName name toolName) = none) :
    Untouched (tenantId, name) s₀ (registerMcpTools s tenantId name tools).1 ↔
      Untouched (tenantId, name) s₀ s ∧ (schemasConvert [] tools = true → ∀ tool ∈ tools, ∀ owner,
        s₀.toolNameToServer.get? (adapterName name tool.name) = some owner → owner = (tenantId, name)) := by
  have hcompleted : (registerAdapters tenantId name s.adapters tools).completed = schemasConvert [] tools := by
    refine completed_registerAdapters tools s.adapters [] fun toolName => ?_
    rw [OrderedDict.contains, hfree]
    exact iff_of_false (by rintro ⟨⟩) List.not_mem_nil
  have hadapters : s₀.adapters.Keeps (OfOther (tenantId, name))
      (registerAdapters tenantId name s.adapters tools).adapters ↔
        s₀.adapters.Keeps (OfOther (tenantId, name)) s.adapters :=
    OrderedDict.keeps_fill_iff (fun _ _ h => registerAdapters_keeps tools _ h) (registerAdapters_new tools _)
  unfold registerMcpTools
  simp only [hcompleted]
  by_cases hconvert : schemasConvert [] tools = true
  · simp only [if_pos hconvert]
    have hregistry : s₀.registry.toolInstances.Keeps (OfOther (tenantId, name)) (mirror s.registry.toolInstances
        (registerAdapters tenantId name s.adapters tools).created) ↔
          s₀.registry.toolInstances.Keeps (OfOther (tenantId, name)) s.registry.toolInstances :=
      keeps_mirror_iff (created_own tools _)
    have hnames : s₀.toolNameToServer.Keeps (· ≠ (tenantId, name)) (tools.foldl
        (fun names (tool : ToolManifest) => names.set (adapterName name tool.name) (tenantId, name))
        s.toolNameToServer) ↔ s₀.toolNameToServer.Keeps (· ≠ (tenantId, name)) s.toolNameToServer ∧
          ∀ tool ∈ tools, ∀ owner,
            s₀.toolNameToServer.get? (adapterName name tool.name) = some owner → ¬ owner ≠ (tenantId, name) :=
      @OrderedDict.keeps_foldl_set_iff _ _ _ _ (· ≠ (tenantId, name)) _ _ (not_not_intro rfl) _ _ _
    constructor
    · intro h
      obtain ⟨hkept, hwritten⟩ := hnames.mp h.toolNameToServer
      exact ⟨⟨hadapters.mp h.adapters, hregistry.mp h.registry, hkept⟩,
        fun _ tool htool owner howner => not_not.mp (hwritten tool htool owner howner)⟩
    · rintro ⟨h, hwritten⟩
      exact ⟨hadapters.mpr h.adapters, hregistry.mpr h.registry, hnames.mpr ⟨h.toolNameToServer,
        fun tool htool owner howner => not_not_intro (hwritten hconvert tool htool owner howner)⟩⟩
  · simp only [if_neg hconvert]
    constructor
    · intro h
      exact ⟨⟨hadapters.mp h.adapters, h.registry, h.toolNameToServer⟩, fun hc => absurd hc hconvert⟩
    · rintro ⟨h, _⟩
      exact ⟨hadapters.mpr h.adapters, h.registry, h.toolNameToServer⟩

end Register

/-! ## Steps and runs -/

theorem Untouched.refl (server : String × String) (s : State) : Untouched server s s :=
  ⟨OrderedDict.Keeps.refl _ _, OrderedDict.Keeps.refl _ _, OrderedDict.Keeps.refl _ _⟩

/-- Only the three tables matter. -/
theorem untouched_servers_iff {server : String × String} {s s' : State}
    (servers : OrderedDict (String × String) StdioServer) :
    Untouched server s { s' with servers := servers } ↔ Untouched server s s' :=
  ⟨fun h => ⟨h.adapters, h.registry, h.toolNameToServer⟩, fun h => ⟨h.adapters, h.registry, h.toolNameToServer⟩⟩

theorem untouched_restart_iff (s : State) (tenantId name : String) (server : StdioServer) (start : StartResult) :
    Untouched (tenantId, name) s
        (startServer (unregisterMcpTools s tenantId name server.tools) tenantId name server start).1 ↔
      RemovesOwn s tenantId name server.tools ∧ WritesOwn s tenantId name start := by
  unfold startServer
  cases start with
  | failed =>
    rw [untouched_servers_iff, untouched_unregister_iff]
    exact (and_iff_left trivial).symm
  | listed tools =>
    simp only
    rw [untouched_servers_iff, untouched_register_iff get?_adapters_unregister, untouched_unregister_iff]
    rfl

theorem frameKept_iff (s : State) (i : Step) : FrameKept s i ↔ StepOk s i := by
  cases i with
  | unregisterServer tenantId name =>
    show Untouched _ s (unregisterServer s tenantId name) ↔
      ∀ server, s.servers.get? (tenantId, name) = some server → RemovesOwn s tenantId name server.tools
    unfold unregisterServer
    generalize s.servers.get? (tenantId, name) = found
    cases found with
    | none => exact iff_of_true (Untouched.refl _ _) fun server h => by cases h
    | some server =>
      simp only [Option.some.injEq, forall_eq']
      rw [untouched_servers_iff]
      exact untouched_unregister_iff
  | restartServer tenantId name start =>
    show Untouched _ s (restartServer s tenantId name start) ↔
      ∀ server, s.servers.get? (tenantId, name) = some server →
        RemovesOwn s tenantId name server.tools ∧ WritesOwn s tenantId name start
    unfold restartServer
    generalize s.servers.get? (tenantId, name) = found
    cases found with
    | none => exact iff_of_true (Untouched.refl _ _) fun server h => by cases h
    | some server =>
      simp only [Option.some.injEq, forall_eq']
      exact untouched_restart_iff s tenantId name server start
  | registerPlugin _ _ _ _ => exact Iff.rfl
  | unregisterPlugin _ _ => exact Iff.rfl
  | registerServer _ _ _ => exact Iff.rfl
  | toolEvent _ _ => exact Iff.rfl
  | listTools _ => exact Iff.rfl

/-- **The servers of a run leave one another alone exactly when every unregistration and every restart finds
only its own entries at the names that it deletes and writes.** -/
theorem frame_kept_iff_guarded (v : Validators) (is : List Step) :
    Guarded (step v) FrameKept State.init is ↔ Guarded (step v) StepOk State.init is := by
  have hsame : FrameKept = StepOk := funext fun s => funext fun i => propext (frameKept_iff s i)
  rw [hsame]

/-! ## Two servers of one tenant -/

def searchTool : ToolManifest := ⟨"search", true⟩

/-- The servers `a` and `a_b` are registered, and `a` is unregistered. -/
def overlappingRun : List Step :=
  [.registerServer "acme" "a" (.listed [searchTool]), .registerServer "acme" "a_b" (.listed [searchTool]),
   .unregisterServer "acme" "a"]

theorem overlapping_names_not_kept : ¬ ∀ (v : Validators) (is : List Step),
    Guarded (step v) FrameKept State.init is := by
  intro h
  have hguarded := (h ⟨fun _ => [], fun _ _ => []⟩ overlappingRun).2 _ rfl
  have hlast : FrameKept _ (.unregisterServer "acme" "a") := (hguarded.2 _ rfl).1
  have hkept := hlast.adapters ("acme", "mcp_a_b_search") (adapterFor "acme" "a_b" searchTool)
    ⟨("acme", "a_b"), rfl, by decide⟩ (by decide)
  exact absurd hkept (by decide)

end KernelRuntime.Mcp
