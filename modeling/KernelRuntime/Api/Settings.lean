import KernelRuntime.Api.SessionConfig
import KernelRuntime.Foundations.KeyedFold

/-! # The models that a tenant brings

`save_byok` stores a configuration under its id: it replaces the entry with that id or appends a new one, and
an empty key keeps the key that is there. Seen over many requests the list is a table with one entry for each
id, the fold of the requests that named it. -/

namespace KernelRuntime.Settings
open SessionConfig (httpException)
set_option autoImplicit false

/-- The body of a request, and an entry of `byom_configs`, where the key is encrypted. -/
structure BYOMConfig extends ConfigLoader.BYOMConfig where
  name : String
  provider : Option String
deriving DecidableEq

structure TenantModel where
  byomConfigs : List BYOMConfig
deriving DecidableEq

/-- The rows of the tenants, by their ids. -/
abbrev Tenants := OrderedDict String TenantModel

/-- A request, with the randomness of the encryption. -/
structure SaveRequest where
  entropy : ℕ
  byom : BYOMConfig
deriving DecidableEq

section Route
variable (fernet : Fernet)

/-- The entry before it is known whether there is an older one. -/
def payload (r : SaveRequest) : BYOMConfig :=
  if r.byom.apiKey = "" then r.byom
  else { r.byom with apiKey := encryptString fernet r.entropy r.byom.apiKey }

/-- The loop over the list, and the `append` after it. -/
def storeEntry (r : SaveRequest) : List BYOMConfig → List BYOMConfig
  | [] => [payload fernet r]
  | b :: rest =>
    if b.id = r.byom.id then
      (if r.byom.apiKey = "" then { payload fernet r with apiKey := b.apiKey } else payload fernet r) :: rest
    else b :: storeEntry r rest

def stored : Json := .obj [("status", .str "success"), ("message", .str "BYOM config securely stored")]

/-- `save_byok` for a user of the tenant: the committed rows and the answer. -/
def saveByok (tenantId : String) (tenants : Tenants) (r : SaveRequest) : Except PyError (Tenants × Json) :=
  match tenants.get? tenantId with
  | none => .error (httpException "404" "Tenant not found")
  | some tenant => .ok (tenants.set tenantId { tenant with byomConfigs := storeEntry fernet r tenant.byomConfigs }, stored)

def saveAll (tenantId : String) : Tenants → List SaveRequest → Except PyError Tenants
  | tenants, [] => .ok tenants
  | tenants, r :: rs => do
    let (tenants, _) ← saveByok fernet tenantId tenants r
    saveAll tenantId tenants rs

/-! ## The list as a table -/

def requestId (r : SaveRequest) : String := r.byom.id

/-- What a request does to the entry of its id. -/
def updateEntry (old : Option BYOMConfig) (r : SaveRequest) : BYOMConfig :=
  match old with
  | none => payload fernet r
  | some b => if r.byom.apiKey = "" then { payload fernet r with apiKey := b.apiKey } else payload fernet r

theorem storeEntry_eq_upsert (r : SaveRequest) (entries : List BYOMConfig) :
    storeEntry fernet r entries =
      upsert (fun b => b.id) r.byom.id (fun old => updateEntry fernet old r) entries := by
  induction entries with
  | nil => rfl
  | cons b rest ih =>
    unfold storeEntry upsert
    rw [ih]
    rfl

theorem payload_id (r : SaveRequest) : (payload fernet r).id = r.byom.id := by
  unfold payload
  split_ifs <;> rfl

theorem updateEntry_id (old : Option BYOMConfig) (r : SaveRequest) :
    (updateEntry fernet old r).id = requestId r := by
  unfold updateEntry
  cases old with
  | none => exact payload_id fernet r
  | some b =>
    simp only
    split_ifs <;> exact payload_id fernet r

theorem saveAll_eq {tenantId : String} (rs : List SaveRequest) {tenants : Tenants} {tenant : TenantModel}
    (htenant : tenants.get? tenantId = some tenant) : ∃ tenants',
    saveAll fernet tenantId tenants rs = .ok tenants' ∧ (tenants'.get? tenantId).map TenantModel.byomConfigs =
      some (rs.foldl (feed (fun b => b.id) requestId (updateEntry fernet)) tenant.byomConfigs) := by
  induction rs generalizing tenants tenant with
  | nil => exact ⟨tenants, rfl, by rw [htenant]; rfl⟩
  | cons r rs ih =>
    have hsave : saveByok fernet tenantId tenants r =
        .ok (tenants.set tenantId { tenant with byomConfigs := storeEntry fernet r tenant.byomConfigs }, stored) := by
      unfold saveByok
      rw [htenant]
    obtain ⟨tenants', hrun, hentries⟩ := ih (OrderedDict.get?_set_self tenants tenantId
      { tenant with byomConfigs := storeEntry fernet r tenant.byomConfigs })
    refine ⟨tenants', ?_, ?_⟩
    · unfold saveAll
      rw [hsave]
      exact hrun
    · rw [hentries, List.foldl_cons]
      simp only [storeEntry_eq_upsert]
      rfl

/-! ## What an entry is made of -/

def lastKey (rs : List SaveRequest) : String :=
  ((rs.map fun r => r.byom.apiKey).filter fun key => decide (key ≠ "")).getLast?.getD ""

theorem lastKey_append (rs : List SaveRequest) (r : SaveRequest) :
    lastKey (rs ++ [r]) = if r.byom.apiKey = "" then lastKey rs else r.byom.apiKey := by
  unfold lastKey
  rw [List.map_append, List.filter_append]
  split_ifs with hkey <;> simp [hkey]

/-- The entry has the fields of the last request, and the last key that was given. -/
structure MadeOf (rs : List SaveRequest) (b : BYOMConfig) : Prop where
  fields : ∃ r, rs.getLast? = some r ∧ { b with apiKey := r.byom.apiKey } = r.byom
  key : decryptString fernet b.apiKey = lastKey rs

theorem updateEntry_fields (old : Option BYOMConfig) (r : SaveRequest) :
    { updateEntry fernet old r with apiKey := r.byom.apiKey } = r.byom := by
  have hpayload : { payload fernet r with apiKey := r.byom.apiKey } = r.byom := by
    unfold payload
    split_ifs <;> rfl
  unfold updateEntry
  cases old with
  | none => exact hpayload
  | some b =>
    simp only
    split_ifs
    · exact hpayload
    · exact hpayload

theorem updateEntry_key (old : Option BYOMConfig) (r : SaveRequest) :
    (updateEntry fernet old r).apiKey =
      if r.byom.apiKey = "" then (old.map fun b => b.apiKey).getD "" else encryptString fernet r.entropy r.byom.apiKey := by
  unfold updateEntry payload
  split_ifs with hkey
  · cases old with
    | none => exact hkey
    | some b => rfl
  · cases old <;> rfl

theorem madeOf_total (hroundtrip : ∀ entropy s, decryptString fernet (encryptString fernet entropy s) = s)
    (rs : List SaveRequest) {b : BYOMConfig} (h : total (updateEntry fernet) rs = some b) : MadeOf fernet rs b := by
  induction rs using List.reverseRecOn generalizing b with
  | nil => cases h
  | append_singleton rs r ih =>
    rw [total_append] at h
    obtain rfl := Option.some.inj h
    refine ⟨⟨r, by simp, updateEntry_fields fernet _ r⟩, ?_⟩
    rw [updateEntry_key, lastKey_append]
    split_ifs with hkey
    · cases hold : total (updateEntry fernet) rs with
      | none =>
        rw [total_eq_none _ hold]
        rfl
      | some b => exact (ih hold).key
    · exact hroundtrip r.entropy r.byom.apiKey

/-- **After any requests of a tenant there is one entry for each id, in the order of the first requests, made of
the requests for that id.** -/
theorem saveAll_entries (hroundtrip : ∀ entropy s, decryptString fernet (encryptString fernet entropy s) = s)
    (tenantId : String) (tenants : Tenants) (htenant : tenants.get? tenantId = some ⟨[]⟩) (rs : List SaveRequest) :
    ∃ tenants' entries, saveAll fernet tenantId tenants rs = .ok tenants' ∧
      tenants'.get? tenantId = some ⟨entries⟩ ∧
      List.Forall₂ (fun id b => b.id = id ∧ MadeOf fernet (eventsOf requestId id rs) b)
        (rs.map requestId).eraseDups entries := by
  obtain ⟨tenants', hrun, hentries⟩ := saveAll_eq fernet rs htenant
  obtain ⟨⟨entries⟩, hget, heq⟩ := Option.map_eq_some_iff.mp hentries
  refine ⟨tenants', entries, hrun, hget, ?_⟩
  have hfold := forall₂_foldl_feed (fun b : BYOMConfig => b.id) requestId (updateEntry fernet)
    (updateEntry_id fernet) rs
  change entries = _ at heq
  rw [heq]
  exact hfold.imp fun id b h => ⟨h.1, madeOf_total fernet hroundtrip _ h.2⟩

end Route

/-- A configuration is stored, its model changed without the key, and another one added. -/
def threeSaves : List SaveRequest :=
  [⟨0, ⟨⟨"fast", "gpt-4o-mini", "sk-1", none, none, none, none⟩, "Fast", some "openai"⟩⟩,
    ⟨1, ⟨⟨"fast", "gpt-4o", "", none, none, none, none⟩, "Fast", some "openai"⟩⟩,
    ⟨2, ⟨⟨"local", "ollama/llama3.3", "", some "http://localhost:11434", none, none, none⟩, "Local", none⟩⟩]

theorem saveAll_entries_threeSaves : ∃ tenants' entries,
    saveAll markingFernet "acme" (OrderedDict.empty.set "acme" ⟨[]⟩) threeSaves = .ok tenants' ∧
    tenants'.get? "acme" = some ⟨entries⟩ ∧
    List.Forall₂ (fun id b => b.id = id ∧ MadeOf markingFernet (eventsOf requestId id threeSaves) b)
      ["fast", "local"] entries :=
  saveAll_entries markingFernet (decryptString_encryptString markingFernet_recognizes.toRoundTrips) "acme" _
    (OrderedDict.get?_set_self _ _ _) threeSaves

end KernelRuntime.Settings
