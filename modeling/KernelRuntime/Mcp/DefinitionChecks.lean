import KernelRuntime.Mcp.Validation

/-! # What a plugin definition has to be

`validate_plugin_definition` asks for the length of a value before it knows that it has one, and the end anchor of
the name's pattern also matches before a last line break. So it raises on some definitions, and accepts others
that are not well formed. -/

namespace KernelRuntime.McpHub
set_option autoImplicit false

/-! ## The fields of a definition -/

def definitionName (fields : Fields) : Json := (fields.lookup "name").getD (.str "")

def definitionUrl (fields : Fields) : Json := (fields.lookup "endpoint_url").getD (.str "")

def definitionDescription (fields : Fields) : Json := (fields.lookup "description").getD (.str "")

def definitionParameters (fields : Fields) : Json := (fields.lookup "parameters").getD (.arr [])

def parameterType (fields : Fields) : Json := (fields.lookup "type").getD (.str "")

/-- `len` and a loop are defined for the value. -/
def Sized (v : Json) : Prop := (∃ s, v = .str s) ∨ (∃ items, v = .arr items) ∨ ∃ fields, v = .obj fields

/-- The value can be looked up in a set. -/
def Hashable (v : Json) : Prop := (∀ items, v ≠ .arr items) ∧ ∀ fields, v ≠ .obj fields

section Definitions
variable (lib : Library)

/-- A parameter with a name and one of the six types. -/
def WellFormedParameter (param : Json) : Prop :=
  ∃ fields name type, param = .obj fields ∧ fields.lookup "name" = some (.str name) ∧ name ≠ "" ∧
    parameterType fields = .str type ∧ type ∈ PARAMETER_TYPES

/-- The definition that the checks are there to let through. -/
structure WellFormed (fields : Fields) : Prop where
  name : ∃ name, definitionName fields = .str name ∧ name ≠ "" ∧ name.length ≤ MAX_PLUGIN_NAME_LENGTH ∧
    ∀ c ∈ name.toList, nameChar c = true
  url : validateEndpointUrl lib (definitionUrl fields) none = .ok []
  description : ∃ description, definitionDescription fields = .str description ∧ description.length ≤ 1000
  parameters : ∃ items, definitionParameters fields = .arr items ∧ items.length ≤ 50 ∧
    ∀ param ∈ items, WellFormedParameter param

/-- It returns a list, and an empty one for a well-formed definition only. -/
def Validates (v : Json) : Prop :=
  ∃ errors, validatePluginDefinition lib v = .ok errors ∧
    (errors = [] → ∃ fields, v = .obj fields ∧ WellFormed lib fields)

/-- No field has a value that a check cannot handle. -/
structure Checkable (fields : Fields) : Prop where
  name : ∃ name, definitionName fields = .str name
  url : (definitionUrl fields).truthy = true → Sized (definitionUrl fields)
  description : Sized (definitionDescription fields)
  parameters : Sized (definitionParameters fields)
  types : ∀ items paramFields, definitionParameters fields = .arr items → .obj paramFields ∈ items →
    Hashable (parameterType paramFields)

/-- A parameter that passes: its name only has to be true. -/
def PassingParameter (param : Json) : Prop :=
  ∃ fields type, param = .obj fields ∧ (Fields.get fields "name").truthy = true ∧
    parameterType fields = .str type ∧ type ∈ PARAMETER_TYPES

/-- What the checks ask of the values: any length that is small enough will do for the description, and the name
may end in a line break. -/
structure Passes (fields : Fields) : Prop where
  name : ∃ name, definitionName fields = .str name ∧ name ≠ "" ∧ name.length ≤ MAX_PLUGIN_NAME_LENGTH ∧
    nameMatches name = true
  url : validateEndpointUrl lib (definitionUrl fields) none = .ok []
  description : ∃ length, len (definitionDescription fields) = .ok length ∧ length ≤ 1000
  parameters : ∃ items, definitionParameters fields = .arr items ∧ items.length ≤ 50 ∧
    ∀ param ∈ items, PassingParameter param

/-- The values that pass are the texts they should be, and the name does not end in a line break. -/
structure Strict (fields : Fields) : Prop where
  name : ∀ name, definitionName fields = .str name → name.toList.getLast? ≠ some '\n'
  description : ∃ description, definitionDescription fields = .str description
  parameters : ∀ items paramFields, definitionParameters fields = .arr items → .obj paramFields ∈ items →
    ∃ name, Fields.get paramFields "name" = .str name

variable {lib}

/-! ## Returning at all -/

theorem exists_bind_ok_iff {ε α β : Type} {x : Except ε α} {f : α → Except ε β} :
    (∃ r, (x >>= f) = .ok r) ↔ ∃ a, x = .ok a ∧ ∃ r, f a = .ok r := by
  cases x with
  | error e => simp [bind, Except.bind]
  | ok a => simp [bind, Except.bind]

theorem len_ok_iff (v : Json) : (∃ n, len v = .ok n) ↔ Sized v := by
  cases v <;> simp [len, Sized]

theorem elements_ok_iff (v : Json) : (∃ items, elements v = .ok items) ↔ Sized v := by
  cases v <;> simp [elements, Sized]

theorem nameErrors_ok_iff (v : Json) : (∃ errors, nameErrors v = .ok errors) ↔ ∃ name, v = .str name := by
  constructor
  · rintro ⟨errors, h⟩
    unfold nameErrors at h
    split at h
    next name => exact ⟨name, rfl⟩
    next => split at h <;> cases h
  · rintro ⟨name, rfl⟩
    exact ⟨_, rfl⟩

theorem validateEndpointUrl_ok_iff (v : Json) (allowedHosts : Option (List String)) :
    (∃ errors, validateEndpointUrl lib v allowedHosts = .ok errors) ↔ (v.truthy = true → Sized v) := by
  unfold validateEndpointUrl
  by_cases htruthy : v.truthy = true
  · simp only [htruthy, Bool.not_true, Bool.false_eq_true, if_false, true_implies]
    rw [exists_bind_ok_iff]
    constructor
    · rintro ⟨n, hn, _⟩
      exact (len_ok_iff v).mp ⟨n, hn⟩
    · intro hsized
      obtain ⟨n, hn⟩ := (len_ok_iff v).mpr hsized
      refine ⟨n, hn, ?_⟩
      split_ifs
      · exact ⟨_, rfl⟩
      · split
        · split <;> exact ⟨_, rfl⟩
        · exact ⟨_, rfl⟩
  · simp [htruthy]

theorem parameterErrors_ok_iff (i : ℕ) (param : Json) : (∃ errors, parameterErrors lib i param = .ok errors) ↔
    ∀ fields, param = .obj fields → Hashable (parameterType fields) := by
  cases param with
  | obj fields =>
    unfold parameterErrors
    simp only [Json.obj.injEq, forall_eq']
    rw [show (fields.lookup "type").getD (.str "") = parameterType fields from rfl]
    cases parameterType fields <;> simp [Hashable]
  | _ => simp [parameterErrors]

theorem parametersErrors_ok_iff (i : ℕ) (params : List Json) :
    (∃ errors, parametersErrors lib i params = .ok errors) ↔
      ∀ fields, .obj fields ∈ params → Hashable (parameterType fields) := by
  induction params generalizing i with
  | nil => simp [parametersErrors]
  | cons param params ih =>
    unfold parametersErrors
    rw [exists_bind_ok_iff]
    constructor
    · rintro ⟨errors, hparam, hrest⟩ fields hmem
      obtain ⟨rest, hparams, _⟩ := exists_bind_ok_iff.mp hrest
      rcases List.mem_cons.mp hmem with heq | hmem
      · exact (parameterErrors_ok_iff i param).mp ⟨errors, hparam⟩ fields heq.symm
      · exact (ih (i + 1)).mp ⟨rest, hparams⟩ fields hmem
    · intro h
      obtain ⟨errors, hparam⟩ := (@parameterErrors_ok_iff lib i param).mpr
        fun fields heq => h fields (heq ▸ List.mem_cons_self)
      obtain ⟨rest, hparams⟩ := (ih (i + 1)).mpr fun fields hmem => h fields (List.mem_cons_of_mem _ hmem)
      exact ⟨errors, hparam, exists_bind_ok_iff.mpr ⟨rest, hparams, _, rfl⟩⟩

theorem obj_mem_elements {v : Json} {items : List Json} (h : elements v = .ok items) (fields : Fields) :
    .obj fields ∈ items ↔ ∃ listed, v = .arr listed ∧ .obj fields ∈ listed := by
  cases v with
  | arr listed =>
    obtain rfl := Except.ok.inj h
    simp
  | str s =>
    obtain rfl := Except.ok.inj h
    simp
  | obj inner =>
    obtain rfl := Except.ok.inj h
    simp
  | _ => cases h

/-- It returns exactly when every check can handle its value. -/
theorem validatePluginDefinition_ok_iff (fields : Fields) :
    (∃ errors, validatePluginDefinition lib (.obj fields) = .ok errors) ↔ Checkable fields := by
  unfold validatePluginDefinition
  constructor
  · intro h
    obtain ⟨nameErrs, hname, h⟩ := exists_bind_ok_iff.mp h
    obtain ⟨urlErrs, hurl, h⟩ := exists_bind_ok_iff.mp h
    obtain ⟨length, hlength, h⟩ := exists_bind_ok_iff.mp h
    obtain ⟨params, hparams, h⟩ := exists_bind_ok_iff.mp h
    obtain ⟨paramErrs, hparamErrs, _⟩ := exists_bind_ok_iff.mp h
    refine ⟨(nameErrors_ok_iff _).mp ⟨_, hname⟩, (validateEndpointUrl_ok_iff _ _).mp ⟨_, hurl⟩,
      (len_ok_iff _).mp ⟨_, hlength⟩, (elements_ok_iff _).mp ⟨_, hparams⟩, ?_⟩
    intro items paramFields hitems hmem
    exact (parametersErrors_ok_iff 0 params).mp ⟨_, hparamErrs⟩ paramFields
      ((obj_mem_elements hparams paramFields).mpr ⟨items, hitems, hmem⟩)
  · intro h
    obtain ⟨nameErrs, hname⟩ := (nameErrors_ok_iff _).mpr h.name
    obtain ⟨urlErrs, hurl⟩ := (@validateEndpointUrl_ok_iff lib _ none).mpr h.url
    obtain ⟨length, hlength⟩ := (len_ok_iff _).mpr h.description
    obtain ⟨params, hparams⟩ := (elements_ok_iff _).mpr h.parameters
    have htypes : ∀ paramFields, .obj paramFields ∈ params → Hashable (parameterType paramFields) := by
      intro paramFields hmem
      obtain ⟨items, hitems, hmem⟩ := (obj_mem_elements hparams paramFields).mp hmem
      exact h.types items paramFields hitems hmem
    obtain ⟨paramErrs, hparamErrs⟩ := (@parametersErrors_ok_iff lib 0 params).mpr htypes
    refine exists_bind_ok_iff.mpr ⟨nameErrs, hname, exists_bind_ok_iff.mpr ⟨urlErrs, hurl, ?_⟩⟩
    refine exists_bind_ok_iff.mpr ⟨length, hlength, exists_bind_ok_iff.mpr ⟨params, hparams, ?_⟩⟩
    exact exists_bind_ok_iff.mpr ⟨paramErrs, hparamErrs, _, rfl⟩

/-! ## Returning no error -/

theorem nameErrors_eq_nil_iff (v : Json) : nameErrors v = .ok [] ↔
    ∃ name, v = .str name ∧ name ≠ "" ∧ name.length ≤ MAX_PLUGIN_NAME_LENGTH ∧ nameMatches name = true := by
  constructor
  · exact nameErrors_eq_nil
  · rintro ⟨name, rfl, hne, hlength, hmatches⟩
    unfold nameErrors
    rw [Except.ok.injEq, List.append_eq_nil_iff, errorIf_eq_nil, errorIf_eq_nil]
    simp [hne, hlength, hmatches]

theorem parameterErrors_eq_nil_iff (i : ℕ) (param : Json) :
    parameterErrors lib i param = .ok [] ↔ PassingParameter param := by
  cases param with
  | obj fields =>
    unfold parameterErrors PassingParameter
    simp only [Json.obj.injEq]
    rw [show (fields.lookup "type").getD (.str "") = parameterType fields from rfl]
    cases htype : parameterType fields <;>
      simp [errorIf_eq_nil, List.append_eq_nil_iff, htype]
  | _ => simp [parameterErrors, PassingParameter]

theorem parametersErrors_eq_nil_iff (i : ℕ) (params : List Json) :
    parametersErrors lib i params = .ok [] ↔ ∀ param ∈ params, PassingParameter param := by
  induction params generalizing i with
  | nil => simp [parametersErrors]
  | cons param params ih =>
    unfold parametersErrors
    constructor
    · intro h
      obtain ⟨errors, hparam, h⟩ := bind_eq_ok_iff.mp h
      obtain ⟨rest, hrest, h⟩ := bind_eq_ok_iff.mp h
      obtain ⟨rfl, rfl⟩ := List.append_eq_nil_iff.mp (Except.ok.inj h)
      rw [List.forall_mem_cons]
      exact ⟨(parameterErrors_eq_nil_iff i param).mp hparam, (ih (i + 1)).mp hrest⟩
    · intro h
      rw [List.forall_mem_cons] at h
      rw [(parameterErrors_eq_nil_iff i param).mpr h.1, (ih (i + 1)).mpr h.2]
      rfl

theorem validatePluginDefinition_eq_nil_iff (fields : Fields) :
    validatePluginDefinition lib (.obj fields) = .ok [] ↔ Passes lib fields := by
  unfold validatePluginDefinition
  constructor
  · intro h
    obtain ⟨nameErrs, hname, h⟩ := bind_eq_ok_iff.mp h
    obtain ⟨urlErrs, hurl, h⟩ := bind_eq_ok_iff.mp h
    obtain ⟨length, hlength, h⟩ := bind_eq_ok_iff.mp h
    obtain ⟨params, hparams, h⟩ := bind_eq_ok_iff.mp h
    obtain ⟨paramErrs, hparamErrs, h⟩ := bind_eq_ok_iff.mp h
    have hnil := Except.ok.inj h
    simp only [List.append_eq_nil_iff, errorIf_eq_nil] at hnil
    obtain ⟨⟨⟨⟨rfl, rfl⟩, hdescription⟩, hlist⟩, rfl⟩ := hnil
    refine ⟨(nameErrors_eq_nil_iff _).mp hname, hurl, ⟨length, hlength, by simpa using hdescription⟩, ?_⟩
    have hlisted : ∃ items, definitionParameters fields = .arr items ∧ items.length ≤ 50 := by
      unfold definitionParameters
      split at hlist
      next items heq => exact ⟨items, heq, by simpa [errorIf_eq_nil] using hlist⟩
      next => cases hlist
    obtain ⟨items, hitems, hcount⟩ := hlisted
    change elements (definitionParameters fields) = .ok params at hparams
    rw [hitems] at hparams
    obtain rfl := Except.ok.inj hparams
    exact ⟨items, hitems, hcount, (parametersErrors_eq_nil_iff 0 items).mp hparamErrs⟩
  · rintro ⟨hname, hurl, ⟨length, hlength, hshort⟩, items, hitems, hcount, hparams⟩
    refine bind_eq_ok_iff.mpr ⟨[], (nameErrors_eq_nil_iff _).mpr hname, bind_eq_ok_iff.mpr ⟨[], hurl, ?_⟩⟩
    refine bind_eq_ok_iff.mpr ⟨length, hlength, ?_⟩
    change ((elements (definitionParameters fields)) >>= _) = _
    refine bind_eq_ok_iff.mpr ⟨items, by rw [hitems]; rfl, ?_⟩
    refine bind_eq_ok_iff.mpr ⟨[], (parametersErrors_eq_nil_iff 0 items).mpr hparams, ?_⟩
    have hparameters : (fields.lookup "parameters").getD (.arr []) = .arr items := hitems
    simp only [hparameters, errorIf, gt_iff_lt, Nat.not_lt.mpr hshort, Nat.not_lt.mpr hcount, decide_false,
      Bool.false_eq_true, if_false, List.append_nil]
    rfl

/-! ## Well-formed definitions -/

/-- Besides the characters of a name, the pattern lets through a last line break and nothing else. -/
theorem nameMatches_iff {name : String} (hlast : name.toList.getLast? ≠ some '\n') :
    nameMatches name = true ↔ name ≠ "" ∧ ∀ c ∈ name.toList, nameChar c = true := by
  unfold nameMatches
  simp only [if_neg hlast, Bool.and_eq_true, Bool.not_eq_true', List.isEmpty_eq_false_iff, List.all_eq_true,
    ne_eq, String.toList_eq_nil_iff]

theorem not_nameChar_newline : nameChar '\n' = false := by decide

/-- A definition that passes is well formed exactly when its values are what they should be. -/
theorem Passes.wellFormed_iff {fields : Fields} (h : Passes lib fields) : WellFormed lib fields ↔ Strict fields := by
  obtain ⟨name, hname, hne, hlength, hmatches⟩ := h.name
  obtain ⟨items, hitems, hcount, hparams⟩ := h.parameters
  constructor
  · intro hw
    refine ⟨?_, ?_, ?_⟩
    · intro name' hname' hlast
      obtain ⟨name'', hname'', _, _, hchars⟩ := hw.name
      obtain rfl := Json.str.inj (hname'.symm.trans hname'')
      have hbad := hchars '\n' (List.mem_of_getLast? hlast)
      rw [not_nameChar_newline] at hbad
      cases hbad
    · obtain ⟨description, hdescription, _⟩ := hw.description
      exact ⟨description, hdescription⟩
    · intro items' paramFields hitems' hmem
      obtain ⟨items'', hitems'', _, hwell⟩ := hw.parameters
      obtain rfl := Json.arr.inj (hitems'.symm.trans hitems'')
      obtain ⟨fields', paramName, _, heq, hlookup, _⟩ := hwell _ hmem
      obtain rfl := Json.obj.inj heq
      exact ⟨paramName, by rw [Fields.get, hlookup]; rfl⟩
  · intro hs
    refine ⟨⟨name, hname, hne, hlength, ((nameMatches_iff (hs.name name hname)).mp hmatches).2⟩, h.url, ?_, ?_⟩
    · obtain ⟨description, hdescription⟩ := hs.description
      obtain ⟨length, hlen, hshort⟩ := h.description
      rw [hdescription] at hlen
      obtain rfl := Except.ok.inj hlen
      exact ⟨description, hdescription, hshort⟩
    · refine ⟨items, hitems, hcount, fun param hmem => ?_⟩
      obtain ⟨paramFields, type, rfl, htruthy, htype, hallowed⟩ := hparams param hmem
      obtain ⟨paramName, hparamName⟩ := hs.parameters items paramFields hitems hmem
      rw [hparamName] at htruthy
      refine ⟨paramFields, paramName, type, rfl, ?_, of_decide_eq_true htruthy, htype, hallowed⟩
      cases hlookup : paramFields.lookup "name" with
      | none => simp [Fields.get, hlookup] at hparamName
      | some v =>
        rw [Fields.get, hlookup] at hparamName
        exact congrArg some hparamName

/-- The definition is no dictionary, or the checks can handle its values and the values are strict once they
pass. -/
def Validatable (lib : Library) : Json → Prop
  | .obj fields => Checkable fields ∧ (Passes lib fields → Strict fields)
  | _ => True

/-- **`validate_plugin_definition` returns a list, and an empty one for well-formed definitions only, exactly on
these values.** -/
theorem validates_iff (lib : Library) (v : Json) : Validates lib v ↔ Validatable lib v := by
  unfold Validates Validatable
  cases v with
  | obj fields =>
    constructor
    · rintro ⟨errors, herrors, hgood⟩
      refine ⟨validatePluginDefinition_ok_iff fields |>.mp ⟨errors, herrors⟩, fun hpasses => ?_⟩
      rw [(validatePluginDefinition_eq_nil_iff fields).mpr hpasses] at herrors
      obtain ⟨fields', heq, hwell⟩ := hgood (Except.ok.inj herrors).symm
      obtain rfl := Json.obj.inj heq
      exact hpasses.wellFormed_iff.mp hwell
    · rintro ⟨hcheckable, hstrict⟩
      obtain ⟨errors, herrors⟩ := (@validatePluginDefinition_ok_iff lib fields).mpr hcheckable
      refine ⟨errors, herrors, fun hnil => ⟨fields, rfl, ?_⟩⟩
      have hpasses := (validatePluginDefinition_eq_nil_iff fields).mp (hnil ▸ herrors)
      exact hpasses.wellFormed_iff.mpr (hstrict hpasses)
  | _ => exact iff_of_true ⟨_, rfl, fun h => absurd h (List.cons_ne_nil _ _)⟩ True.intro

/-- A host like any other. -/
def exampleHost : Library where
  urlparse _ := some ⟨"https", "mcp.example.com", some "mcp.example.com"⟩
  isIpAddress _ := false
  str v := v.typeName
  toolParameter _ _ _ _ := .error ⟨.valueError, "validation error"⟩

/-- A number for a name raises a `TypeError`. -/
theorem number_name_raises : ¬ ∀ (lib : Library) (v : Json), Validates lib v := by
  intro h
  obtain ⟨errors, herrors, _⟩ := h exampleHost (.obj [("name", .int 5)])
  cases herrors

/-- A name with a line break at its end is accepted. -/
example : validatePluginDefinition exampleHost
    (.obj [("name", .str "weather\n"), ("endpoint_url", .str "https://mcp.example.com")]) = .ok [] := by decide +kernel

end Definitions
end KernelRuntime.McpHub
