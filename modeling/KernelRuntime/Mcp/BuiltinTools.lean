import KernelRuntime.Mcp.Hub

/-! # Built-in tools beside plugins

The hub looks for a free name among its plugins, and writes to the registry, where the built-in tools are. -/

namespace KernelRuntime.McpHub
set_option autoImplicit false

section Calls
variable (lib : Library) (builtins : OrderedDict String ℕ)

def callStep (s : MCPHub) (c : Call) : Option MCPHub := some (call lib s c).2

def BuiltinsKept (s : MCPHub) : Prop :=
  ∀ name id, builtins.get? name = some id → s.toolInstances.get? name = some (.other id)

/-- A plugin that `register_plugin` accepts does not have the name of a built-in tool. -/
def NameOk (s : MCPHub) : Call → Prop
  | .registerPlugin pluginDef tenantId allowedHosts rateLimit =>
    ∀ proxy, newPlugin lib s pluginDef tenantId allowedHosts rateLimit = .ok proxy → builtins.get? proxy.name = none
  | .unregisterPlugin _ _ => True

variable {lib builtins} {s s' : MCPHub}

theorem BuiltinsKept.init : BuiltinsKept builtins (MCPHub.init builtins) := by
  intro name id hid
  rw [MCPHub.init, OrderedDict.get?_map, hid]
  rfl

theorem BuiltinsKept.set_iff (h : BuiltinsKept builtins s) {proxy : MCPProxyTool} :
    BuiltinsKept builtins (addPlugin s proxy) ↔ builtins.get? proxy.name = none := by
  constructor
  · intro hkept
    cases hname : builtins.get? proxy.name with
    | none => rfl
    | some id =>
      have hlost := hkept proxy.name id hname
      simp [addPlugin] at hlost
  · intro hnone name id hid
    have hne : name ≠ proxy.name := by
      rintro rfl
      rw [hnone] at hid
      cases hid
    simp only [addPlugin, OrderedDict.get?_set_ne _ _ hne]
    exact h name id hid

/-- What the hub may delete is a plugin's, so it has no built-in name. -/
theorem BuiltinsKept.unregisterPlugin {name tenantId : String} (h : BuiltinsKept builtins s) (hinv : Inv s) :
    BuiltinsKept builtins (unregisterPlugin s name tenantId).2 := by
  rcases hinv.unregisterPlugin_cases name tenantId with ⟨_, _, hsame⟩ | ⟨proxy, names, hproxy, _, _, hgone⟩
  · rw [hsame]
    exact h
  · rw [hgone]
    intro name' id hid
    have hne : name' ≠ name := by
      rintro rfl
      have hmine := (hinv.registry name' proxy).mp hproxy
      rw [h name' id hid] at hmine
      cases hmine
    simp only [OrderedDict.get?_erase, if_neg hne]
    exact h name' id hid

theorem BuiltinsKept.call_iff (h : BuiltinsKept builtins s) (hinv : Inv s) (c : Call) :
    BuiltinsKept builtins (call lib s c).2 ↔ NameOk lib builtins s c := by
  cases c with
  | unregisterPlugin name tenantId => exact ⟨fun _ => trivial, fun _ => h.unregisterPlugin hinv⟩
  | registerPlugin pluginDef tenantId allowedHosts rateLimit =>
    rw [call, registerPlugin, NameOk]
    cases hnew : newPlugin lib s pluginDef tenantId allowedHosts rateLimit with
    | error e => exact ⟨fun _ proxy hok => (by cases hok), fun _ => h⟩
    | ok proxy =>
      simp only [h.set_iff, Except.ok.injEq, forall_eq']

end Calls

/-- **In a run of registrations and unregistrations the built-in tools stay exactly when no plugin that is accepted
has one of their names.** -/
theorem builtinsKept_iff_guarded (lib : Library) (builtins : OrderedDict String ℕ) (is : List Call) :
    (∀ js ks s, is = js ++ ks → exec (callStep lib) (MCPHub.init builtins) js = some s → BuiltinsKept builtins s) ↔
      Guarded (callStep lib) (NameOk lib builtins) (MCPHub.init builtins) is := by
  refine @always_iff_guarded _ _ _ _ Inv _ ?_ ?_ ?_ _ (Inv.init builtins) BuiltinsKept.init is
  · intro s c s' hinv hstep
    obtain rfl := Option.some.inj hstep
    exact hinv.call c
  · intro s c s' hinv hkept hok hstep
    obtain rfl := Option.some.inj hstep
    exact (hkept.call_iff hinv c).mpr hok
  · intro s c hinv hkept hbad
    exact ⟨_, rfl, fun hkept' => hbad ((hkept.call_iff hinv c).mp hkept')⟩

/-! ## A plugin named like a built-in tool -/

def readFilePlugin : Json :=
  .obj [("name", .str "read_file"), ("endpoint_url", .str "https://plugins.example.com/read")]

def coreTools : OrderedDict String ℕ := OrderedDict.empty.set "read_file" 0

theorem builtin_replaced : ¬ ∀ (lib : Library) (builtins : OrderedDict String ℕ) (is : List Call) (s : MCPHub),
    exec (callStep lib) (MCPHub.init builtins) is = some s → BuiltinsKept builtins s := by
  intro h
  have hkept := h oneHost coreTools [.registerPlugin readFilePlugin "acme" none (true, 0)] _ rfl "read_file" 0
    (by decide +kernel)
  exact absurd hkept (by decide +kernel)

end KernelRuntime.McpHub
