import KernelRuntime.AgentLoop.ConfigLoader

/-! # Which model a session gets, and what becomes of its context

The documented order is the session context first and the environment second. The loader starts from a
model that it names itself, so neither is asked; and it writes the sampling settings of a BYOM entry into the
dictionary that it was given. -/

namespace KernelRuntime.ConfigLoader
set_option autoImplicit false

/-- The model of the documented order. -/
def documentedModel (ctx : Fields) (env : Environment) : Json :=
  pyOr (Fields.get ctx "model") (pyOr (env.get "LLM_MODEL") (.str "nvidia/nemotron-3-super-120b-a12b"))

/-- The context of the session after the call. `session.context or \x7b\x7d` is the dictionary of the session itself,
unless that is empty. -/
def contextAfter (tenants : List TenantModel) (session : SessionModel) : Fields :=
  if session.context = [] then [] else applySettings (selectedFor tenants (some session)) session.context

def NoByom (tenants : List TenantModel) (session : SessionModel) : Prop :=
  ∀ tenant, tenants.find? (fun t => decide (t.id = session.tenantId)) = some tenant → tenant.byomConfigs = []

def NamesNoPreset (session : SessionModel) : Prop :=
  ∀ s, Fields.get session.context "active_model_id" = .str s → PRESET_DEFAULTS.lookup s = none

/-- The model follows the documented order, and the context stays. -/
structure FollowsOrder (rt : Runtime) (tenants : List TenantModel) (session : SessionModel) (env : Environment) :
    Prop where
  model : NoByom tenants session → NamesNoPreset session → ∀ config,
    loadSessionLlmConfig rt tenants (some session) env = .ok config →
      config.model = documentedModel session.context env
  context : contextAfter tenants session = session.context

/-- The context does not stop the loader: its `active_model_id` can be looked up, and its sampling settings
can be converted. -/
structure Convertible (rt : Runtime) (ctx : Fields) : Prop where
  hashable : ∃ preset, activePreset none (Fields.get ctx "active_model_id") = .ok preset
  temperature : ∃ v, optionalSetting rt.float (Fields.get ctx "temperature") = .ok v
  topP : ∃ v, optionalSetting rt.float (Fields.get ctx "top_p") = .ok v
  maxTokens : ∃ v, optionalSetting rt.int (Fields.get ctx "max_tokens") = .ok v

/-! ## The model -/

theorem selectedFor_of_noByom {tenants : List TenantModel} {session : SessionModel} (h : NoByom tenants session) :
    selectedFor tenants (some session) = none := by
  unfold selectedFor tenantSelection
  rw [Option.bind_eq_bind, Option.bind_some]
  split_ifs
  · rfl
  · cases hfind : tenants.find? fun t => decide (t.id = session.tenantId) with
    | none => rfl
    | some tenant =>
      rw [Option.bind_eq_bind, Option.bind_some, h tenant hfind]
      unfold selectByom
      split_ifs <;> rfl

/-- Without an entry and without a preset it is the model that the loader started from. -/
theorem load_model {rt : Runtime} {tenants : List TenantModel} {session : SessionModel} {env : Environment}
    (hbyom : NoByom tenants session) (hpreset : NamesNoPreset session) {config : LlmConfig}
    (hload : loadSessionLlmConfig rt tenants (some session) env = .ok config) :
    config.model = .str "gpt-4o" := by
  unfold loadSessionLlmConfig at hload
  rw [selectedFor_of_noByom hbyom] at hload
  obtain ⟨preset, hactive, hload⟩ := bind_eq_ok_iff.mp hload
  obtain ⟨temperature, _, hload⟩ := bind_eq_ok_iff.mp hload
  obtain ⟨topP, _, hload⟩ := bind_eq_ok_iff.mp hload
  obtain ⟨maxTokens, _, hload⟩ := bind_eq_ok_iff.mp hload
  have hnone : preset = none := by
    cases preset with
    | none => rfl
    | some p =>
      obtain ⟨-, s, hs, hlookup⟩ := activePreset_some hactive
      rw [hpreset s hs] at hlookup
      cases hlookup
  subst hnone
  obtain rfl := Except.ok.inj hload
  have htruthy : (Json.str "gpt-4o").truthy = true := by decide
  show resolveModel "gpt-4o" (contextOf (some session)) env = _
  unfold resolveModel
  exact pyOr_of_truthy _ htruthy

theorem exists_load_iff {rt : Runtime} {tenants : List TenantModel} {session : SessionModel} (env : Environment)
    (hbyom : NoByom tenants session) :
    (∃ config, loadSessionLlmConfig rt tenants (some session) env = .ok config) ↔
      Convertible rt session.context := by
  unfold loadSessionLlmConfig
  rw [selectedFor_of_noByom hbyom]
  constructor
  · rintro ⟨config, hload⟩
    obtain ⟨preset, hactive, hload⟩ := bind_eq_ok_iff.mp hload
    obtain ⟨temperature, htemperature, hload⟩ := bind_eq_ok_iff.mp hload
    obtain ⟨topP, htopP, hload⟩ := bind_eq_ok_iff.mp hload
    obtain ⟨maxTokens, hmaxTokens, _⟩ := bind_eq_ok_iff.mp hload
    exact ⟨⟨_, hactive⟩, ⟨_, htemperature⟩, ⟨_, htopP⟩, ⟨_, hmaxTokens⟩⟩
  · rintro ⟨⟨preset, hactive⟩, ⟨temperature, htemperature⟩, ⟨topP, htopP⟩, ⟨maxTokens, hmaxTokens⟩⟩
    change activePreset none (Fields.get (contextOf (some session)) _) = _ at hactive
    change optionalSetting rt.float (Fields.get (applySettings none (contextOf (some session))) _) = _ at htemperature
    change optionalSetting rt.float (Fields.get (applySettings none (contextOf (some session))) _) = _ at htopP
    change optionalSetting rt.int (Fields.get (applySettings none (contextOf (some session))) _) = _ at hmaxTokens
    simp only [hactive, htemperature, htopP, hmaxTokens, bind, Except.bind]
    exact ⟨_, rfl⟩

/-! ## The context -/

def settingsOf (b : BYOMConfig) : List (String × Json) :=
  [("temperature", b.temperature.map Json.float), ("top_p", b.topP.map Json.float),
    ("max_tokens", b.maxTokens.map Json.int)].filterMap fun e => e.2.map fun v => (e.1, v)

theorem nodup_settingsOf (b : BYOMConfig) : ((settingsOf b).map Prod.fst).Nodup := by
  unfold settingsOf
  cases b.temperature <;> cases b.topP <;> cases b.maxTokens <;> simp

theorem applySettings_eq_writeAll (b : BYOMConfig) (ctx : Fields) :
    applySettings (some b) ctx = writeAll (settingsOf b) ctx := by
  obtain ⟨id, model, apiKey, baseUrl, temperature, topP, maxTokens⟩ := b
  cases temperature <;> cases topP <;> cases maxTokens <;> rfl

/-- The entry that is selected has no setting that the context lacks. -/
def SettingsKnown (tenants : List TenantModel) (session : SessionModel) : Prop :=
  ∀ b, selectedFor tenants (some session) = some b → ∀ e ∈ settingsOf b, session.context.lookup e.1 = some e.2

theorem contextAfter_eq_iff (tenants : List TenantModel) (session : SessionModel) :
    contextAfter tenants session = session.context ↔ (session.context = [] ∨ SettingsKnown tenants session) := by
  unfold contextAfter SettingsKnown
  by_cases hempty : session.context = []
  · simp [hempty]
  · rw [if_neg hempty]
    cases hselected : selectedFor tenants (some session) with
    | none => simp [applySettings]
    | some b =>
      rw [applySettings_eq_writeAll, writeAll_eq_self_iff (nodup_settingsOf b)]
      simp [hempty]

/-- **The documented order is followed, and the context kept, exactly where the order leads to the model that
the loader starts from, and the selected entry has no setting that the context lacks.** -/
theorem followsOrder_iff (rt : Runtime) (tenants : List TenantModel) (session : SessionModel) (env : Environment) :
    FollowsOrder rt tenants session env ↔
      (NoByom tenants session → NamesNoPreset session → Convertible rt session.context →
        documentedModel session.context env = .str "gpt-4o") ∧
      (session.context = [] ∨ SettingsKnown tenants session) := by
  constructor
  · intro h
    refine ⟨fun hbyom hpreset hconvertible => ?_, (contextAfter_eq_iff tenants session).mp h.context⟩
    obtain ⟨config, hload⟩ := (exists_load_iff env hbyom).mpr hconvertible
    rw [← h.model hbyom hpreset config hload]
    exact load_model hbyom hpreset hload
  · rintro ⟨hmodel, hcontext⟩
    refine ⟨fun hbyom hpreset config hload => ?_, (contextAfter_eq_iff tenants session).mpr hcontext⟩
    rw [load_model hbyom hpreset hload]
    exact (hmodel hbyom hpreset ((exists_load_iff env hbyom).mp ⟨config, hload⟩)).symm

/-- A session names its model, and gets another one. -/
theorem session_model_ignored : ¬ ∀ rt tenants session env, FollowsOrder rt tenants session env := by
  intro h
  have hmodel := (h plainRuntime [] ⟨"s1", "acme", "developer", [("model", .str "ollama/llama3.3")], "auto", []⟩
    (fun _ => none)).model nofun nofun _ rfl
  exact absurd hmodel (by decide)

end KernelRuntime.ConfigLoader
