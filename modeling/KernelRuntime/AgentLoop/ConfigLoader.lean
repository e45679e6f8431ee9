import KernelRuntime.Memory.MessageStore

/-! # Which model, endpoint and key a session uses

`load_session_llm_config` resolves the model, the base URL and the API key of a session, each by
its own chain of fallbacks over the tenant's BYOM entries, the presets, the session context and the
process environment. The URL keeps a note of where it was taken from, so that one can ask which
keys may reach an endpoint that the tenant chose. -/

namespace KernelRuntime.ConfigLoader
set_option autoImplicit false

/-- `os.environ`. -/
abbrev Environment := String → Option String

/-- `os.environ.get(key)`. -/
def Environment.get (env : Environment) (key : String) : Json :=
  match env key with
  | some value => .str value
  | none => .null

/-- `a or b`. -/
def pyOr (a b : Json) : Json := if a.truthy then a else b

/-- An entry of `tenant.config["byom_configs"]`, as the settings route stores it. -/
structure BYOMConfig where
  id : String
  model : String
  apiKey : String
  baseUrl : Option String
  temperature : Option PyFloat
  topP : Option PyFloat
  maxTokens : Option ℤ
deriving DecidableEq

structure TenantModel where
  id : String
  byomConfigs : List BYOMConfig
deriving DecidableEq

/-- What the loader calls: `Fernet` decryption, where a failure gives the empty string, and the
conversions `float(v)` and `int(v)`. -/
structure Runtime where
  decryptString : String → String
  float : Json → Except PyError PyFloat
  int : Json → Except PyError ℤ

inductive Origin where
  | byom
  | session
  | environment
  | preset
deriving DecidableEq

/-- A base URL and where it was taken from. -/
structure BaseUrl where
  value : Json
  origin : Origin
deriving DecidableEq

structure LlmConfig where
  model : Json
  apiKey : Json
  baseUrl : Option BaseUrl
  temperature : Option PyFloat
  topP : Option PyFloat
  maxTokens : Option ℤ
  extraBody : Option Fields
deriving DecidableEq

structure Preset where
  model : String
  baseUrl : Option String
  keyEnv : Option String
deriving DecidableEq

def PRESET_DEFAULTS : List (String × Preset) :=
  [("nvidia-glm", ⟨"z-ai/glm-5.1", some "https://integrate.api.nvidia.com/v1", some "NVIDIA_API_KEY"⟩),
   ("nvidia-minimax", ⟨"minimaxai/minimax-m2.7", some "https://integrate.api.nvidia.com/v1",
     some "NVIDIA_API_KEY"⟩),
   ("nvidia-qwen-coder", ⟨"qwen/qwen3-coder-480b-a35b-instruct",
     some "https://integrate.api.nvidia.com/v1", some "NVIDIA_API_KEY"⟩),
   ("openai", ⟨"gpt-4o", none, some "OPENAI_API_KEY"⟩),
   ("anthropic", ⟨"claude-sonnet-4-20250514", none, some "ANTHROPIC_API_KEY"⟩),
   ("gemini", ⟨"gemini/gemini-2.5-pro", none, some "GEMINI_API_KEY"⟩),
   ("ollama", ⟨"ollama/llama3.3", some "http://localhost:11434", none⟩)]

/-! ## The steps of the loader -/

/-- `_resolve_secret`: a Fernet token is decrypted, another value is a legacy plaintext key. -/
def resolveSecret (rt : Runtime) (rawValue : String) : String :=
  if rawValue = "" then ""
  else if "gAAAA".toList.isPrefixOf rawValue.toList then rt.decryptString rawValue
  else rawValue

/-- The BYOM entry that is used. Without a requested model it is the first; a requested model that
has no entry gives the first entry with a key. -/
def selectByom (byomConfigs : List BYOMConfig) (requestedModelId : Json) : Option BYOMConfig :=
  if requestedModelId.truthy then
    match byomConfigs.find? fun b => decide (Json.str b.id = requestedModelId) with
    | some b => some b
    | none => byomConfigs.find? fun b => decide (b.apiKey ≠ "")
  else byomConfigs.head?

/-- `PRESET_DEFAULTS.get(requested_model_id)`. -/
def presetFor (requestedModelId : Json) : Except PyError (Option Preset) :=
  match requestedModelId with
  | .str s => .ok (PRESET_DEFAULTS.lookup s)
  | .arr _ => .error ⟨.typeError, "unhashable type: 'list'"⟩
  | .obj _ => .error ⟨.typeError, "unhashable type: 'dict'"⟩
  | _ => .ok none

/-- The BYOM entry found for the session's tenant. -/
def tenantSelection (tenants : List TenantModel) (session : Option SessionModel)
    (requestedModelId : Json) : Option BYOMConfig := do
  let s ← session
  if s.tenantId = "" then none
  else
    let tenant ← tenants.find? fun t => decide (t.id = s.tenantId)
    selectByom tenant.byomConfigs requestedModelId

/-- The session context, `{}` without a session. -/
def contextOf (session : Option SessionModel) : Fields := (session.map SessionModel.context).getD []

/-- The entry that the loader selects for the session. -/
def selectedFor (tenants : List TenantModel) (session : Option SessionModel) : Option BYOMConfig :=
  tenantSelection tenants session (Fields.get (contextOf session) "active_model_id")

/-- The preset that applies: only without a BYOM entry, and for a requested model. -/
def activePreset (selected : Option BYOMConfig) (requestedModelId : Json) :
    Except PyError (Option Preset) :=
  if selected.isNone ∧ requestedModelId.truthy then presetFor requestedModelId else .ok none

def optionalUrl (url : Option String) (origin : Origin) : Option BaseUrl :=
  match url with
  | some s => if s = "" then none else some ⟨.str s, origin⟩
  | none => none

/-- `ctx.get("base_url") or os.environ.get("LLM_BASE_URL")`. -/
def sessionBaseUrl (ctx : Fields) (env : Environment) : Option BaseUrl :=
  if (Fields.get ctx "base_url").truthy then some ⟨Fields.get ctx "base_url", .session⟩
  else optionalUrl (env "LLM_BASE_URL") .environment

def resolveBaseUrl (selected : Option BYOMConfig) (preset : Option Preset) (ctx : Fields)
    (env : Environment) : Option BaseUrl :=
  let fromTenant := (selected.bind fun b => optionalUrl b.baseUrl .byom).or (sessionBaseUrl ctx env)
  (preset.bind fun p => optionalUrl p.baseUrl .preset).or fromTenant

/-- The local `api_key` before the fallbacks of the result: from the BYOM entry, or from the
variable the preset names. -/
def selectedKey (rt : Runtime) (selected : Option BYOMConfig) (preset : Option Preset)
    (env : Environment) : Json :=
  match preset.bind Preset.keyEnv with
  | some key => .str ((env key).getD "")
  | none => .str ((selected.map fun b => resolveSecret rt b.apiKey).getD "")

def resolveApiKey (key : Json) (ctx : Fields) (env : Environment) : Json :=
  pyOr key (pyOr (Fields.get ctx "api_key") (pyOr (env.get "OPENAI_API_KEY")
    (pyOr (env.get "NVIDIA_API_KEY") (pyOr (env.get "ANTHROPIC_API_KEY") (.str "")))))

def selectedModel (selected : Option BYOMConfig) (preset : Option Preset) : String :=
  match preset, selected with
  | some p, _ => p.model
  | none, some b => b.model
  | none, none => "gpt-4o"

def resolveModel (model : String) (ctx : Fields) (env : Environment) : Json :=
  pyOr (.str model) (pyOr (Fields.get ctx "model") (pyOr (env.get "LLM_MODEL")
    (.str "nvidia/nemotron-3-super-120b-a12b")))

/-- The session context after the sampling settings of the BYOM entry are written into it. -/
def applySettings (selected : Option BYOMConfig) (ctx : Fields) : Fields :=
  let put (key : String) (v : Option Json) (ctx : Fields) : Fields :=
    match v with
    | some v => assocSet key v ctx
    | none => ctx
  match selected with
  | some b =>
    put "max_tokens" (b.maxTokens.map .int)
      (put "top_p" (b.topP.map .float) (put "temperature" (b.temperature.map .float) ctx))
  | none => ctx

/-- `None` stays unset, another value is converted. -/
def optionalSetting {α : Type} (convert : Json → Except PyError α) (v : Json) :
    Except PyError (Option α) :=
  match v with
  | .null => .ok none
  | v => (convert v).map some

def extraBody (ctx : Fields) : Option Fields :=
  match Fields.get ctx "extra_body" with
  | .obj (f :: fields) => some (f :: fields)
  | _ => none

/-- `load_session_llm_config`, with the session already read. -/
def loadSessionLlmConfig (rt : Runtime) (tenants : List TenantModel) (session : Option SessionModel)
    (env : Environment) : Except PyError LlmConfig := do
  let selected := selectedFor tenants session
  let preset ← activePreset selected (Fields.get (contextOf session) "active_model_id")
  let ctx := applySettings selected (contextOf session)
  let temperature ← optionalSetting rt.float (Fields.get ctx "temperature")
  let topP ← optionalSetting rt.float (Fields.get ctx "top_p")
  let maxTokens ← optionalSetting rt.int (Fields.get ctx "max_tokens")
  return {
    model := resolveModel (selectedModel selected preset) ctx env
    apiKey := resolveApiKey (selectedKey rt selected preset env) ctx env
    baseUrl := resolveBaseUrl selected preset (contextOf session) env
    temperature, topP, maxTokens
    extraBody := extraBody ctx }

/-! ## What the result is made of -/

theorem get_assocSet_ne {ctx : Fields} {k j : String} (v : Json) (h : j ≠ k) :
    Fields.get (assocSet k v ctx) j = Fields.get ctx j := by
  rw [Fields.get, Fields.get, lookup_assocSet, if_neg h]

theorem apiKey_applySettings (selected : Option BYOMConfig) (ctx : Fields) :
    Fields.get (applySettings selected ctx) "api_key" = Fields.get ctx "api_key" := by
  cases selected with
  | none => rfl
  | some b =>
    obtain ⟨id, model, apiKey, baseUrl, temperature, topP, maxTokens⟩ := b
    unfold applySettings
    cases temperature <;> cases topP <;> cases maxTokens <;>
      simp only [Option.map_none, Option.map_some] <;>
      repeat rw [get_assocSet_ne _ (by decide)]

theorem resolveApiKey_congr {ctx ctx' : Fields} (key : Json) (env : Environment)
    (h : Fields.get ctx' "api_key" = Fields.get ctx "api_key") :
    resolveApiKey key ctx' env = resolveApiKey key ctx env := by
  rw [resolveApiKey, resolveApiKey, h]

/-- A run that returns a configuration returns one in every environment, with the key and the URL
of the resolution chains. -/
theorem load_spec {rt : Runtime} {tenants : List TenantModel} {session : Option SessionModel}
    {env : Environment} {config : LlmConfig}
    (hload : loadSessionLlmConfig rt tenants session env = .ok config) :
    ∃ preset, activePreset (selectedFor tenants session)
        (Fields.get (contextOf session) "active_model_id") = .ok preset ∧
      ∀ env', ∃ config', loadSessionLlmConfig rt tenants session env' = .ok config' ∧
        config'.apiKey = resolveApiKey (selectedKey rt (selectedFor tenants session) preset env')
          (contextOf session) env' ∧
        config'.baseUrl =
          resolveBaseUrl (selectedFor tenants session) preset (contextOf session) env' := by
  unfold loadSessionLlmConfig at hload ⊢
  obtain ⟨preset, hpreset, hload⟩ := bind_eq_ok_iff.mp hload
  obtain ⟨temperature, htemperature, hload⟩ := bind_eq_ok_iff.mp hload
  obtain ⟨topP, htopP, hload⟩ := bind_eq_ok_iff.mp hload
  obtain ⟨maxTokens, hmaxTokens, _⟩ := bind_eq_ok_iff.mp hload
  refine ⟨preset, hpreset, fun env' => ?_⟩
  simp only [hpreset, bind, Except.bind, htemperature, htopP, hmaxTokens]
  refine ⟨_, rfl, ?_, rfl⟩
  exact resolveApiKey_congr _ _ (apiKey_applySettings _ _)

/-! ## Which runs return the same key -/

/-- The keys of the platform. -/
def platformKeys : List String := ["OPENAI_API_KEY", "NVIDIA_API_KEY", "ANTHROPIC_API_KEY"]

/-- The environments differ at most in the platform's keys. -/
def AgreeOffPlatformKeys (env env' : Environment) : Prop := ∀ k, k ∉ platformKeys → env' k = env k

/-- `env` with another value for one variable. -/
def Environment.set (env : Environment) (key value : String) : Environment :=
  fun k => if k = key then some value else env k

theorem agree_set {env : Environment} {key : String} (value : String) (h : key ∈ platformKeys) :
    AgreeOffPlatformKeys env (env.set key value) := by
  intro k hk
  have hne : k ≠ key := fun hkey => hk (hkey ▸ h)
  rw [Environment.set, if_neg hne]

theorem pyOr_of_truthy {a : Json} (b : Json) (h : a.truthy = true) : pyOr a b = a := by
  rw [pyOr, if_pos h]

theorem pyOr_of_falsy {a : Json} (b : Json) (h : a.truthy = false) : pyOr a b = b := by
  rw [pyOr, h, if_neg Bool.false_ne_true]

/-- A chain that stops at the selected key or at the session's key does not read the platform's. -/
theorem resolveApiKey_eq_of_truthy {key : Json} {ctx : Fields}
    (h : key.truthy = true ∨ (Fields.get ctx "api_key").truthy = true) (env env' : Environment) :
    resolveApiKey key ctx env' = resolveApiKey key ctx env := by
  unfold resolveApiKey
  cases hkey : key.truthy with
  | true => rw [pyOr_of_truthy _ hkey, pyOr_of_truthy _ hkey]
  | false =>
    have hctx := h.resolve_left (by rw [hkey]; exact Bool.false_ne_true)
    rw [pyOr_of_falsy _ hkey, pyOr_of_falsy _ hkey, pyOr_of_truthy _ hctx, pyOr_of_truthy _ hctx]

/-- A chain that stops at neither returns the platform's OpenAI key, whatever it is. -/
theorem resolveApiKey_set_of_falsy {key : Json} {ctx : Fields} (env : Environment) {value : String}
    (hkey : key.truthy = false) (hctx : (Fields.get ctx "api_key").truthy = false)
    (hvalue : value ≠ "") :
    resolveApiKey key ctx (env.set "OPENAI_API_KEY" value) = .str value := by
  have hget : (env.set "OPENAI_API_KEY" value).get "OPENAI_API_KEY" = .str value := by
    rw [Environment.get, Environment.set, if_pos rfl]
  unfold resolveApiKey
  rw [pyOr_of_falsy _ hkey, pyOr_of_falsy _ hctx, hget, pyOr_of_truthy]
  exact decide_eq_true hvalue

theorem selectedKey_set {rt : Runtime} {selected : Option BYOMConfig} {preset : Option Preset}
    (env : Environment) (key value : String) (h : preset.bind Preset.keyEnv ≠ some key) :
    selectedKey rt selected preset (env.set key value) = selectedKey rt selected preset env := by
  unfold selectedKey
  cases hkey : preset.bind Preset.keyEnv with
  | none => rfl
  | some k =>
    have hne : k ≠ key := fun hk => h (by rw [hkey, hk])
    simp only [Environment.set, if_neg hne]

theorem selectedKey_agree {rt : Runtime} {selected : Option BYOMConfig} {preset : Option Preset}
    {env env' : Environment} (hagree : AgreeOffPlatformKeys env env')
    (h : ∀ key, preset.bind Preset.keyEnv = some key → key ∉ platformKeys) :
    selectedKey rt selected preset env' = selectedKey rt selected preset env := by
  unfold selectedKey
  cases hkey : preset.bind Preset.keyEnv with
  | none => rfl
  | some key => simp only [hagree key (h key hkey)]

/-- The key of a chain, as a function of the environment. -/
def keyIn (rt : Runtime) (selected : Option BYOMConfig) (preset : Option Preset) (ctx : Fields)
    (env : Environment) : Json := resolveApiKey (selectedKey rt selected preset env) ctx env

theorem not_independent_of_two {f : Environment → Json} {env : Environment} {key : String}
    (hkey : key ∈ platformKeys) (hf : ∀ value, value ≠ "" → f (env.set key value) = .str value) :
    ¬ ∀ env', AgreeOffPlatformKeys env env' → f env' = f env := by
  intro h
  have ha := h _ (agree_set "a" hkey)
  have hb := h _ (agree_set "b" hkey)
  rw [hf "a" (by decide)] at ha
  rw [hf "b" (by decide), ← ha] at hb
  exact absurd hb (by decide)

/-- The chain is independent of the platform's keys exactly when the preset does not name one of
them and the chain stops before them. -/
theorem keyIn_independent_iff (rt : Runtime) (selected : Option BYOMConfig) (preset : Option Preset)
    (ctx : Fields) (env : Environment) :
    (∀ env', AgreeOffPlatformKeys env env' →
      keyIn rt selected preset ctx env' = keyIn rt selected preset ctx env) ↔
    (∀ key, preset.bind Preset.keyEnv = some key → key ∉ platformKeys) ∧
      ((selectedKey rt selected preset env).truthy = true ∨
        (Fields.get ctx "api_key").truthy = true) := by
  constructor
  · intro h
    have hpreset : ∀ key, preset.bind Preset.keyEnv = some key → key ∉ platformKeys := by
      intro key hkey hmem
      refine not_independent_of_two hmem (fun value hvalue => ?_) h
      have hsel : selectedKey rt selected preset (env.set key value) = .str value := by
        simp [selectedKey, hkey, Environment.set]
      rw [keyIn, hsel, resolveApiKey, pyOr_of_truthy]
      exact decide_eq_true hvalue
    refine ⟨hpreset, ?_⟩
    by_contra hstop
    rw [not_or, Bool.not_eq_true, Bool.not_eq_true] at hstop
    have hopenai : "OPENAI_API_KEY" ∈ platformKeys := by decide
    refine not_independent_of_two hopenai (fun value hvalue => ?_) h
    have hne : preset.bind Preset.keyEnv ≠ some "OPENAI_API_KEY" := fun hk => hpreset _ hk hopenai
    rw [keyIn, selectedKey_set _ _ _ hne]
    exact resolveApiKey_set_of_falsy _ hstop.1 hstop.2 hvalue
  · rintro ⟨hpreset, hstop⟩ env' hagree
    rw [keyIn, keyIn, selectedKey_agree hagree hpreset]
    exact resolveApiKey_eq_of_truthy hstop env env'

/-! ## Endpoints that the tenant chose -/

/-- The endpoint comes from the tenant: from its BYOM entry or from the session context. -/
def TenantChosen (config : LlmConfig) : Prop :=
  ∃ url, config.baseUrl = some url ∧ (url.origin = .byom ∨ url.origin = .session)

/-- The key of a session is not the platform's: the requested model is not the `openai` or
`anthropic` preset, and the BYOM entry, the `gemini` preset or the session context has a key. -/
def OwnKey (rt : Runtime) (selected : Option BYOMConfig) (requestedModelId : Json) (ctx : Fields)
    (env : Environment) : Prop :=
  ¬ (selected = none ∧ (requestedModelId = .str "openai" ∨ requestedModelId = .str "anthropic")) ∧
  ((∃ b, selected = some b ∧ resolveSecret rt b.apiKey ≠ "") ∨
    (selected = none ∧ requestedModelId = .str "gemini" ∧ (env "GEMINI_API_KEY").getD "" ≠ "") ∨
    (Fields.get ctx "api_key").truthy = true)

/-- Runs that differ from this one only in the platform's keys return the same key. -/
def KeyIndependent (rt : Runtime) (tenants : List TenantModel) (session : Option SessionModel)
    (env : Environment) (config : LlmConfig) : Prop :=
  ∀ env' config', AgreeOffPlatformKeys env env' →
    loadSessionLlmConfig rt tenants session env' = .ok config' → config'.apiKey = config.apiKey

theorem truthy_str (s : String) : (Json.str s).truthy = true ↔ s ≠ "" := decide_eq_true_iff

/-- A preset applies only without a BYOM entry, and is the one the table has for the request. -/
theorem activePreset_some {selected : Option BYOMConfig} {requestedModelId : Json} {p : Preset}
    (h : activePreset selected requestedModelId = .ok (some p)) :
    selected = none ∧ ∃ s, requestedModelId = .str s ∧ PRESET_DEFAULTS.lookup s = some p := by
  unfold activePreset at h
  split_ifs at h with happlies
  · refine ⟨Option.isNone_iff_eq_none.mp happlies.1, ?_⟩
    cases requestedModelId with
    | str s => exact ⟨s, rfl, by simpa [presetFor] using h⟩
    | _ => simp [presetFor] at h
  · simp at h

/-- Without a BYOM entry and without a preset, the request is not one of the table's. -/
theorem ne_of_activePreset_none {selected : Option BYOMConfig} {requestedModelId : Json}
    (h : activePreset selected requestedModelId = .ok none) (s : String)
    (hs : s ∈ PRESET_DEFAULTS.map Prod.fst) :
    ¬ (selected = none ∧ requestedModelId = .str s) := by
  have htable : ∀ s ∈ PRESET_DEFAULTS.map Prod.fst, s ≠ "" ∧ PRESET_DEFAULTS.lookup s ≠ none := by
    decide
  obtain ⟨hne, hlookup⟩ := htable s hs
  intro hand
  rw [hand.1, hand.2, activePreset, if_pos ⟨rfl, (truthy_str s).mpr hne⟩] at h
  exact hlookup (by simpa [presetFor] using h)

/-- The presets that leave the endpoint to the tenant, and the keys they name. -/
theorem preset_without_url {s : String} {p : Preset} (h : PRESET_DEFAULTS.lookup s = some p)
    (hurl : optionalUrl p.baseUrl .preset = none) :
    (s = "openai" ∧ p.keyEnv = some "OPENAI_API_KEY") ∨
    (s = "anthropic" ∧ p.keyEnv = some "ANTHROPIC_API_KEY") ∨
    (s = "gemini" ∧ p.keyEnv = some "GEMINI_API_KEY") := by
  have hnodup : (PRESET_DEFAULTS.map Prod.fst).Nodup := by decide
  have hmem := (lookup_eq_some_iff hnodup s p).mp h
  have hall : ∀ e ∈ PRESET_DEFAULTS, optionalUrl e.2.baseUrl .preset = none →
      (e.1 = "openai" ∧ e.2.keyEnv = some "OPENAI_API_KEY") ∨
      (e.1 = "anthropic" ∧ e.2.keyEnv = some "ANTHROPIC_API_KEY") ∨
      (e.1 = "gemini" ∧ e.2.keyEnv = some "GEMINI_API_KEY") := by decide
  exact hall (s, p) hmem hurl

theorem ownKey_iff {rt : Runtime} {selected : Option BYOMConfig} {requestedModelId : Json}
    {ctx : Fields} {env : Environment} {preset : Option Preset}
    (hpreset : activePreset selected requestedModelId = .ok preset)
    (hurl : preset.bind (fun p => optionalUrl p.baseUrl .preset) = none) :
    ((∀ key, preset.bind Preset.keyEnv = some key → key ∉ platformKeys) ∧
      ((selectedKey rt selected preset env).truthy = true ∨
        (Fields.get ctx "api_key").truthy = true)) ↔
      OwnKey rt selected requestedModelId ctx env := by
  unfold OwnKey
  cases preset with
  | some p =>
    obtain ⟨hsel, s, hreq, hlookup⟩ := activePreset_some hpreset
    subst hsel hreq
    -- Only three presets leave the endpoint open; the key they name decides.
    rcases preset_without_url hlookup hurl with ⟨rfl, hkey⟩ | ⟨rfl, hkey⟩ | ⟨rfl, hkey⟩
    · simp [hkey, platformKeys]
    · simp [hkey, platformKeys]
    · simp [hkey, platformKeys, selectedKey, truthy_str]
  | none =>
    have hopenai := ne_of_activePreset_none hpreset "openai" (by decide)
    have hanthropic := ne_of_activePreset_none hpreset "anthropic" (by decide)
    have hgemini := ne_of_activePreset_none hpreset "gemini" (by decide)
    have hfirst : ¬ (selected = none ∧
        (requestedModelId = .str "openai" ∨ requestedModelId = .str "anthropic")) :=
      fun h => h.2.elim (fun hr => hopenai ⟨h.1, hr⟩) (fun hr => hanthropic ⟨h.1, hr⟩)
    have hsecond : ¬ (selected = none ∧ requestedModelId = .str "gemini" ∧
        (env "GEMINI_API_KEY").getD "" ≠ "") := fun h => hgemini ⟨h.1, h.2.1⟩
    have hkey : (selectedKey rt selected none env).truthy = true ↔
        ∃ b, selected = some b ∧ resolveSecret rt b.apiKey ≠ "" := by
      cases selected with
      | none => simp [selectedKey, truthy_str]
      | some b => simp [selectedKey, truthy_str]
    rw [hkey]
    simp [hfirst, hsecond]

theorem optionalUrl_origin {url : Option String} {origin : Origin} {u : BaseUrl}
    (h : optionalUrl url origin = some u) : u.origin = origin := by
  unfold optionalUrl at h
  cases url with
  | none => cases h
  | some s =>
    simp only at h
    split_ifs at h
    rw [← Option.some.inj h]

/-- **An endpoint that the tenant chose gets a key that does not depend on the platform's keys
exactly when the session has a key of its own.** -/
theorem tenantChosen_keyIndependent_iff (rt : Runtime) (tenants : List TenantModel)
    (session : Option SessionModel) (env : Environment) (config : LlmConfig)
    (hload : loadSessionLlmConfig rt tenants session env = .ok config)
    (htenant : TenantChosen config) :
    KeyIndependent rt tenants session env config ↔
      OwnKey rt (selectedFor tenants session) (Fields.get (contextOf session) "active_model_id")
        (contextOf session) env := by
  obtain ⟨preset, hpreset, hall⟩ := load_spec hload
  obtain ⟨config₀, hload₀, hkey₀, hurl₀⟩ := hall env
  have hsame : config₀ = config := Except.ok.inj (hload₀.symm.trans hload)
  subst hsame
  have hurl : preset.bind (fun p => optionalUrl p.baseUrl .preset) = none := by
    cases hp : preset.bind (fun p => optionalUrl p.baseUrl .preset) with
    | none => rfl
    | some url =>
      obtain ⟨url', hurl', horigin'⟩ := htenant
      rw [hurl₀, resolveBaseUrl, hp, Option.some_or, Option.some.injEq] at hurl'
      obtain ⟨p, -, hp'⟩ := Option.bind_eq_some_iff.mp hp
      rw [← hurl', optionalUrl_origin hp'] at horigin'
      rcases horigin' with h | h <;> cases h
  rw [← ownKey_iff hpreset hurl, ← keyIn_independent_iff]
  constructor
  · intro h env' hagree
    obtain ⟨config', hload', hkey', -⟩ := hall env'
    have heq := h env' config' hagree hload'
    rw [hkey', hkey₀] at heq
    exact heq
  · intro h env' config' hagree hload'
    obtain ⟨config₁, hload₁, hkey₁, -⟩ := hall env'
    have hsame : config₁ = config' := Except.ok.inj (hload₁.symm.trans hload')
    rw [← hsame, hkey₁, hkey₀]
    exact h env' hagree

/-- A runtime for inputs without Fernet tokens and with numeric settings only. -/
def plainRuntime : Runtime where
  decryptString _ := ""
  float
    | .float x => .ok x
    | .int n => .ok (.finite n 0)
    | v => .error ⟨.typeError, v.typeName⟩
  int
    | .int n => .ok n
    | v => .error ⟨.typeError, v.typeName⟩

/-- A session with an endpoint and a key of its own. -/
theorem tenantChosen_keyIndependent_ownKey :
    ∃ config, loadSessionLlmConfig plainRuntime []
        (some ⟨"s1", "acme", "developer",
          [("base_url", .str "https://llm.acme.test"), ("api_key", .str "acme-key")], "auto", []⟩)
        (fun _ => none) = .ok config ∧ TenantChosen config ∧
      KeyIndependent plainRuntime []
        (some ⟨"s1", "acme", "developer",
          [("base_url", .str "https://llm.acme.test"), ("api_key", .str "acme-key")], "auto", []⟩)
        (fun _ => none) config := by
  have htenant : TenantChosen ⟨.str "gpt-4o", .str "acme-key",
      some ⟨.str "https://llm.acme.test", .session⟩, none, none, none, none⟩ :=
    ⟨_, rfl, Or.inr rfl⟩
  refine ⟨_, rfl, htenant, ?_⟩
  apply (tenantChosen_keyIndependent_iff _ _ _ _ _ rfl htenant).mpr
  unfold OwnKey
  decide

/-- A session that only sets an endpoint sends the platform's key there. -/
theorem platform_key_at_tenant_endpoint :
    ¬ ∀ config, loadSessionLlmConfig plainRuntime []
        (some ⟨"s1", "acme", "developer", [("base_url", .str "https://llm.acme.test")], "auto", []⟩)
        (fun k => if k = "OPENAI_API_KEY" then some "sk-platform" else none) = .ok config →
      TenantChosen config →
      KeyIndependent plainRuntime []
        (some ⟨"s1", "acme", "developer", [("base_url", .str "https://llm.acme.test")], "auto", []⟩)
        (fun k => if k = "OPENAI_API_KEY" then some "sk-platform" else none) config := by
  intro h
  have hkey := h _ rfl ⟨_, rfl, Or.inr rfl⟩ (fun _ => none) _ ?_ rfl
  · exact absurd hkey (by decide)
  · intro k hk
    have hne : k ≠ "OPENAI_API_KEY" := fun hk' => hk (by rw [hk']; decide)
    exact (if_neg hne).symm

end KernelRuntime.ConfigLoader
