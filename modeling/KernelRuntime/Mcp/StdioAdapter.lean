import Mathlib.Data.List.Infix
import KernelRuntime.Mcp.Validation

/-! # Adapters of the tools of a stdio server

`StdioMCPToolAdapter` turns the input schema of a tool into tool parameters, and `get_schema` turns these into the
schema of a function that is offered to the model. Of a property only the type, the description and the name come
through; there is no parameter of type `object`. -/

namespace KernelRuntime.StdioAdapter
set_option autoImplicit false

open McpHub (Library ToolParameter)

/-- A tool as the server lists it; nothing about it is checked. -/
structure ToolManifest where
  name : Json
  description : Json
  inputSchema : Json
deriving DecidableEq

/-- `ToolManifest.from_dict`. -/
def ToolManifest.fromDict (data : Json) : Except PyError ToolManifest := do
  let name ← data.getD "name" (.str "")
  let description ← data.getD "description" (.str "")
  let older ← data.getD "input_schema" (.obj [])
  let inputSchema ← data.getD "inputSchema" older
  return ⟨name, description, inputSchema⟩

structure StdioMCPToolAdapter where
  serverName : String
  tenantId : String
  name : String
  description : Json
  parameters : List ToolParameter
deriving DecidableEq

/-- `name in v`. -/
def isIn (name : String) : Json → Except PyError Bool
  | .arr items => .ok (decide (Json.str name ∈ items))
  | .obj fields => .ok (fields.lookup name).isSome
  | .str text => .ok (decide (name.toList <:+: text.toList))
  | v => .error ⟨.typeError, "argument of type '" ++ v.typeName ++ "' is not iterable"⟩

section Adapters
variable (lib : Library)

/-- A value in an f-string. -/
def textOf : Json → String
  | .str s => s
  | v => lib.str v

/-- `"string" if spec.get("type", "string") == "object" else spec.get("type", "string")`. -/
def parameterType (type : Json) : Json := if type = .str "object" then .str "string" else type

def convertProperty (required : Json) (name : String) (spec : Json) : Except PyError ToolParameter := do
  let type ← spec.getD "type" (.str "string")
  let description ← spec.getD "description" (.str "")
  let isRequired ← isIn name required
  lib.toolParameter (.str name) (parameterType type) description (.bool isRequired)

def convertProperties (required : Json) : Fields → Except PyError (List ToolParameter)
  | [] => .ok []
  | (name, spec) :: properties => do
    let parameter ← convertProperty lib required name spec
    let parameters ← convertProperties required properties
    return parameter :: parameters

/-- `properties.items()`. -/
def itemsOf : Json → Except PyError Fields
  | .obj fields => .ok fields
  | v => .error ⟨.attributeError, "'" ++ v.typeName ++ "' object has no attribute 'items'"⟩

/-- `_convert_schema`. -/
def convertSchema (inputSchema : Json) : Except PyError (List ToolParameter) := do
  let properties ← if inputSchema.truthy then inputSchema.getD "properties" (.obj []) else .ok (.obj [])
  let required ← if inputSchema.truthy then inputSchema.getD "required" (.arr []) else .ok (.arr [])
  let items ← itemsOf properties
  convertProperties lib required items

/-- `StdioMCPToolAdapter.__init__`. -/
def newAdapter (serverName tenantId : String) (manifest : ToolManifest) : Except PyError StdioMCPToolAdapter := do
  let name := textOf lib manifest.name
  let parameters ← convertSchema lib manifest.inputSchema
  return {
    serverName := serverName
    tenantId := tenantId
    name := "mcp_" ++ serverName ++ "_" ++ name
    description := if manifest.description.truthy then manifest.description
      else .str ("MCP tool '" ++ name ++ "' from server '" ++ serverName ++ "'")
    parameters := parameters }

end Adapters

/-- The loop of `get_schema`: the properties, and the names that are required. -/
def schemaProperty (p : ToolParameter) : String × Json :=
  (p.name, .obj [("type", .str p.type), ("description", .str p.description)])

def parametersSchema (parameters : List ToolParameter) : Json :=
  .obj [("type", .str "object"), ("properties", .obj (writeAll (parameters.map schemaProperty) [])),
    ("required", .arr ((parameters.filter ToolParameter.required).map fun p => .str p.name))]

/-- `get_schema`. -/
def StdioMCPToolAdapter.getSchema (a : StdioMCPToolAdapter) : Json :=
  .obj [("type", .str "function"), ("function", .obj
    [("name", .str a.name), ("description", a.description), ("parameters", parametersSchema a.parameters)])]

/-! ## Schemas of objects -/

/-- The types of values. A whole number is an `integer` and a `number`. -/
inductive JsonType where
  | null
  | boolean
  | object
  | array
  | integer
  | fraction
  | string
deriving DecidableEq

/-- The value of the `type` keyword names the type. -/
def typesNamed : String → List JsonType
  | "null" => [.null]
  | "boolean" => [.boolean]
  | "object" => [.object]
  | "array" => [.array]
  | "number" => [.integer, .fraction]
  | "integer" => [.integer]
  | "string" => [.string]
  | _ => []

def TYPE_NAMES : List String := ["null", "boolean", "object", "array", "number", "integer", "string"]

/-- The types that a property schema accepts: all of them when it has no `type`. -/
def accepts : Json → JsonType → Bool
  | .bool b, _ => b
  | .obj spec, t =>
    match spec.lookup "type" with
    | none => true
    | some (.str type) => decide (t ∈ typesNamed type)
    | some (.arr types) => types.any fun type => match type with
      | .str type => decide (t ∈ typesNamed type)
      | _ => false
    | some _ => false
  | _, _ => false

/-- The properties of a schema of an object. -/
def propertiesOf (schema : Json) : Fields :=
  match schema with
  | .obj fields => match fields.lookup "properties" with
    | some (.obj properties) => properties
    | _ => []
  | _ => []

/-- `name` is listed as required. -/
def Requires (schema : Json) (name : String) : Prop :=
  ∃ fields items, schema = .obj fields ∧ fields.lookup "required" = some (.arr items) ∧ Json.str name ∈ items

/-- The value of a `type` keyword: one name, or several different ones. -/
def ValidType (v : Json) : Prop :=
  (∃ type ∈ TYPE_NAMES, v = .str type) ∨ ∃ types, types ≠ [] ∧ types.Nodup ∧ (∀ type ∈ types, type ∈ TYPE_NAMES) ∧
    v = .arr (types.map Json.str)

/-- A schema of a property, as far as the adapter reads it. -/
def ValidProperty (spec : Json) : Prop :=
  (∃ b, spec = .bool b) ∨ ∃ fields, spec = .obj fields ∧ (∀ v, fields.lookup "type" = some v → ValidType v) ∧
    ∀ v, fields.lookup "description" = some v → ∃ text, v = .str text

/-- A schema of type `object`, as far as the adapter reads it. -/
structure ValidSchema (schema : Json) : Prop where
  object : ∃ fields, schema = .obj fields ∧ fields.lookup "type" = some (.str "object") ∧
    (∀ v, fields.lookup "properties" = some v → ∃ properties, v = .obj properties) ∧
    ∀ v, fields.lookup "required" = some v → ∃ texts : List String, texts.Nodup ∧ v = .arr (texts.map Json.str)
  keys : ((propertiesOf schema).map Prod.fst).Nodup
  properties : ∀ property ∈ propertiesOf schema, ValidProperty property.2

/-- The property schema has a type that is one name, or none. -/
def PlainProperty (spec : Json) : Prop :=
  ∃ fields, spec = .obj fields ∧ ∀ v, fields.lookup "type" = some v → ∃ type, v = .str type

/-- The schema that is offered for a tool. -/
def offered (a : StdioMCPToolAdapter) : Json :=
  match a.getSchema with
  | .obj fields => match fields.lookup "function" with
    | some (.obj function) => Fields.get function "parameters"
    | _ => .null
  | _ => .null

/-- Both schemas have the same properties, require the same of them, and accept the same types for each. -/
structure SameSchema (schema schema' : Json) : Prop where
  names : (propertiesOf schema').map Prod.fst = (propertiesOf schema).map Prod.fst
  required : ∀ name, Requires schema' name ↔ name ∈ (propertiesOf schema).map Prod.fst ∧ Requires schema name
  types : ∀ name spec spec', (name, spec) ∈ propertiesOf schema → (name, spec') ∈ propertiesOf schema' →
    accepts spec' = accepts spec

/-- The same, with a string offered for an object and for a property without a type. -/
structure TextSchema (schema schema' : Json) : Prop where
  names : (propertiesOf schema').map Prod.fst = (propertiesOf schema).map Prod.fst
  required : ∀ name, Requires schema' name ↔ name ∈ (propertiesOf schema).map Prod.fst ∧ Requires schema name
  typed : ∀ name fields type spec', (name, .obj fields) ∈ propertiesOf schema →
    (name, spec') ∈ propertiesOf schema' → fields.lookup "type" = some (.str type) → type ≠ "object" →
      accepts spec' = accepts (.obj fields)
  texts : ∀ name fields spec', (name, .obj fields) ∈ propertiesOf schema →
    (name, spec') ∈ propertiesOf schema' →
      fields.lookup "type" = none ∨ fields.lookup "type" = some (.str "object") →
        ∀ t, accepts spec' t = decide (t = .string)

/-! ## The parameters of a plain schema -/

/-- What the constructor of the model does with texts. -/
def KeepsTexts (lib : Library) : Prop := ∀ name type description required,
  lib.toolParameter (.str name) (.str type) (.str description) (.bool required) =
    .ok ⟨name, type, description, required⟩

/-- The type that is offered for a property. -/
def offeredType (spec : Fields) : String :=
  match spec.lookup "type" with
  | some (.str type) => if type = "object" then "string" else type
  | _ => "string"

section Plain
variable {lib : Library} {schema : Json}

theorem convertProperty_plain (hlib : KeepsTexts lib) (required : List String) (name : String) {spec : Json}
    (hvalid : ValidProperty spec) (hplain : PlainProperty spec) :
    ∃ fields description, spec = .obj fields ∧ convertProperty lib (.arr (required.map Json.str)) name spec =
      .ok ⟨name, offeredType fields, description, decide (name ∈ required)⟩ := by
  obtain ⟨fields, rfl, htype⟩ := hplain
  obtain ⟨b, hb⟩ | ⟨fields', heq, _, hdescription⟩ := hvalid
  · cases hb
  · obtain rfl := Json.obj.inj heq
    have htype' : ∃ type, (fields.lookup "type").getD (.str "string") = .str type ∧
        parameterType (.str type) = .str (offeredType fields) := by
      unfold parameterType offeredType
      cases hlookup : fields.lookup "type" with
      | none => exact ⟨"string", rfl, by decide⟩
      | some v =>
        obtain ⟨type, rfl⟩ := htype v hlookup
        refine ⟨type, rfl, ?_⟩
        simp only [Json.str.injEq]
        split_ifs <;> rfl
    have hdescription' : ∃ text, (fields.lookup "description").getD (.str "") = .str text := by
      cases hlookup : fields.lookup "description" with
      | none => exact ⟨"", rfl⟩
      | some v => exact hdescription v hlookup
    obtain ⟨type, hget, hoffered⟩ := htype'
    obtain ⟨text, htext⟩ := hdescription'
    have hin : isIn name (.arr (required.map Json.str)) = .ok (decide (name ∈ required)) := by
      simp [isIn]
    refine ⟨fields, text, rfl, ?_⟩
    simp only [convertProperty, Json.getD, hget, htext, hin, bind, Except.bind, hoffered]
    exact hlib name (offeredType fields) text (decide (name ∈ required))

/-- The parameter of each property, in the order of the properties. -/
structure ParametersOf (required : List String) (properties : Fields) (parameters : List ToolParameter) : Prop where
  names : parameters.map ToolParameter.name = properties.map Prod.fst
  required : ∀ p ∈ parameters, p.required = decide (p.name ∈ required)
  types : ∀ p ∈ parameters, ∃ fields, (p.name, .obj fields) ∈ properties ∧ p.type = offeredType fields

theorem convertProperties_plain (hlib : KeepsTexts lib) (required : List String) {properties : Fields}
    (hvalid : ∀ property ∈ properties, ValidProperty property.2)
    (hplain : ∀ property ∈ properties, PlainProperty property.2) :
    ∃ parameters, convertProperties lib (.arr (required.map Json.str)) properties = .ok parameters ∧
      ParametersOf required properties parameters := by
  induction properties with
  | nil => exact ⟨[], rfl, rfl, by simp, by simp⟩
  | cons property properties ih =>
    obtain ⟨name, spec⟩ := property
    rw [List.forall_mem_cons] at hvalid hplain
    obtain ⟨fields, description, rfl, hfirst⟩ := convertProperty_plain hlib required name hvalid.1 hplain.1
    obtain ⟨parameters, hrest, hparameters⟩ := ih hvalid.2 hplain.2
    refine ⟨⟨name, offeredType fields, description, decide (name ∈ required)⟩ :: parameters, ?_, ?_, ?_, ?_⟩
    · rw [convertProperties, hfirst, hrest]
      rfl
    · rw [List.map_cons, List.map_cons, hparameters.names]
    · rw [List.forall_mem_cons]
      exact ⟨rfl, hparameters.required⟩
    · rw [List.forall_mem_cons]
      refine ⟨⟨fields, List.mem_cons_self, rfl⟩, fun p hp => ?_⟩
      obtain ⟨fields', hmem, htype⟩ := hparameters.types p hp
      exact ⟨fields', List.mem_cons_of_mem _ hmem, htype⟩

/-- The two entries of the schema that the adapter reads. -/
theorem ValidSchema.reads (h : ValidSchema schema) : ∃ required : List String, schema.truthy = true ∧
    schema.getD "properties" (.obj []) = .ok (.obj (propertiesOf schema)) ∧
    schema.getD "required" (.arr []) = .ok (.arr (required.map Json.str)) ∧
    ∀ name, Requires schema name ↔ name ∈ required := by
  obtain ⟨fields, rfl, htype, hproperties, hrequired⟩ := h.object
  have htruthy : (Json.obj fields).truthy = true := by
    cases fields with
    | nil => cases htype
    | cons field fields => rfl
  have hlookup : (fields.lookup "properties").getD (.obj []) = .obj (propertiesOf (.obj fields)) := by
    unfold propertiesOf
    cases hlookup : fields.lookup "properties" with
    | none => simp only [hlookup, Option.getD_none]
    | some v =>
      obtain ⟨properties, rfl⟩ := hproperties v hlookup
      simp only [hlookup, Option.getD_some]
  cases hlist : fields.lookup "required" with
  | none =>
    refine ⟨[], htruthy, congrArg Except.ok hlookup, ?_, fun name => ?_⟩
    · rw [Json.getD, hlist]
      rfl
    · simp [Requires, hlist]
  | some v =>
    obtain ⟨required, _, rfl⟩ := hrequired v hlist
    refine ⟨required, htruthy, congrArg Except.ok hlookup, ?_, fun name => ?_⟩
    · rw [Json.getD, hlist]
      rfl
    · simp [Requires, hlist]

theorem newAdapter_plain (hlib : KeepsTexts lib) (serverName tenantId : String) {manifest : ToolManifest}
    (hvalid : ValidSchema manifest.inputSchema)
    (hplain : ∀ property ∈ propertiesOf manifest.inputSchema, PlainProperty property.2) :
    ∃ adapter required, newAdapter lib serverName tenantId manifest = .ok adapter ∧
      (∀ name, Requires manifest.inputSchema name ↔ name ∈ required) ∧
      ParametersOf required (propertiesOf manifest.inputSchema) adapter.parameters := by
  obtain ⟨required, htruthy, hproperties, hrequired, hrequires⟩ := hvalid.reads
  obtain ⟨parameters, hconvert, hparameters⟩ := convertProperties_plain hlib required hvalid.properties hplain
  have hschema : convertSchema lib manifest.inputSchema = .ok parameters := by
    unfold convertSchema
    simp only [htruthy, if_true, hproperties, hrequired]
    exact hconvert
  have hnew : ∃ adapter, newAdapter lib serverName tenantId manifest = .ok adapter ∧
      adapter.parameters = parameters := by
    rw [newAdapter, hschema]
    exact ⟨_, rfl, rfl⟩
  obtain ⟨adapter, hadapter, rfl⟩ := hnew
  exact ⟨adapter, required, hadapter, hrequires, hparameters⟩

/-! ## The schema that is offered -/

theorem propertiesOf_parametersSchema {parameters : List ToolParameter}
    (hnodup : (parameters.map ToolParameter.name).Nodup) :
    propertiesOf (parametersSchema parameters) = parameters.map schemaProperty := by
  show writeAll (parameters.map schemaProperty) [] = _
  rw [writeAll_of_nodup, List.nil_append]
  rw [List.nil_append, List.map_map]
  exact hnodup

theorem requires_parametersSchema (parameters : List ToolParameter) (name : String) :
    Requires (parametersSchema parameters) name ↔ ∃ p ∈ parameters, p.required = true ∧ p.name = name := by
  have hlist : Requires (parametersSchema parameters) name ↔
      Json.str name ∈ (parameters.filter ToolParameter.required).map fun p => .str p.name := by
    constructor
    · rintro ⟨fields, items, heq, hlookup, hmem⟩
      obtain rfl := Json.obj.inj heq
      obtain rfl := Json.arr.inj (Option.some.inj hlookup)
      exact hmem
    · exact fun hmem => ⟨_, _, rfl, rfl, hmem⟩
  rw [hlist]
  simp [and_assoc]

theorem accepts_schemaProperty (p : ToolParameter) (t : JsonType) :
    accepts (schemaProperty p).2 t = decide (t ∈ typesNamed p.type) := rfl

theorem ParametersOf.properties {required : List String} {parameters : List ToolParameter}
    (h : ParametersOf required (propertiesOf schema) parameters) (hkeys : ((propertiesOf schema).map Prod.fst).Nodup) :
    propertiesOf (parametersSchema parameters) = parameters.map schemaProperty :=
  propertiesOf_parametersSchema (h.names ▸ hkeys)

theorem ParametersOf.accepts_offered {required : List String} {parameters : List ToolParameter}
    (h : ParametersOf required (propertiesOf schema) parameters) (hkeys : ((propertiesOf schema).map Prod.fst).Nodup)
    {name : String} {fields : Fields} {spec' : Json} (hmem : (name, .obj fields) ∈ propertiesOf schema)
    (hmem' : (name, spec') ∈ propertiesOf (parametersSchema parameters)) (t : JsonType) :
    accepts spec' t = decide (t ∈ typesNamed (offeredType fields)) := by
  rw [h.properties hkeys] at hmem'
  obtain ⟨p, hp, hpair⟩ := List.mem_map.mp hmem'
  obtain ⟨fields', hfields', htype⟩ := h.types p hp
  obtain ⟨rfl, rfl⟩ := Prod.mk.inj hpair
  have hsame := (lookup_eq_some_iff hkeys _ _).mpr hmem
  rw [(lookup_eq_some_iff hkeys _ _).mpr hfields'] at hsame
  obtain rfl := Json.obj.inj (Option.some.inj hsame)
  rw [← htype]
  exact accepts_schemaProperty p t

/-- The parameters offer the properties of the schema, except that objects and untyped values become texts. -/
theorem ParametersOf.textSchema {required : List String} {parameters : List ToolParameter}
    (h : ParametersOf required (propertiesOf schema) parameters)
    (hkeys : ((propertiesOf schema).map Prod.fst).Nodup) (hrequires : ∀ name, Requires schema name ↔ name ∈ required) :
    TextSchema schema (parametersSchema parameters) := by
  refine ⟨?_, ?_, ?_, ?_⟩
  · rw [h.properties hkeys, ← h.names, List.map_map]
    rfl
  · intro name
    rw [requires_parametersSchema, hrequires, ← h.names]
    constructor
    · rintro ⟨p, hp, hrequired, rfl⟩
      rw [h.required p hp] at hrequired
      exact ⟨List.mem_map_of_mem hp, of_decide_eq_true hrequired⟩
    · rintro ⟨hmem, hrequired⟩
      obtain ⟨p, hp, rfl⟩ := List.mem_map.mp hmem
      exact ⟨p, hp, (h.required p hp).trans (decide_eq_true hrequired), rfl⟩
  · intro name fields type spec' hmem hmem' htype hobject
    funext t
    rw [h.accepts_offered hkeys hmem hmem' t]
    simp only [offeredType, accepts, htype, if_neg hobject]
  · intro name fields spec' hmem hmem' htype t
    rw [h.accepts_offered hkeys hmem hmem' t]
    have hstring : offeredType fields = "string" := by
      unfold offeredType
      rcases htype with htype | htype
      · rw [htype]
      · rw [htype]
        rfl
    rw [hstring]
    simp [typesNamed]

/-- **The schema that is offered for a tool is the one of the server**, for property schemas with one type name or
none, with a string in place of an object and of a value without a type. -/
theorem newAdapter_offers (hlib : KeepsTexts lib) (serverName tenantId : String) (manifest : ToolManifest)
    (hvalid : ValidSchema manifest.inputSchema)
    (hplain : ∀ property ∈ propertiesOf manifest.inputSchema, PlainProperty property.2) :
    ∃ adapter, newAdapter lib serverName tenantId manifest = .ok adapter ∧
      TextSchema manifest.inputSchema (offered adapter) := by
  obtain ⟨adapter, required, hnew, hrequires, hparameters⟩ := newAdapter_plain hlib serverName tenantId hvalid hplain
  exact ⟨adapter, hnew, hparameters.textSchema hvalid.keys hrequires⟩

end Plain

/-! ## A tool that takes an object -/

/-- The constructor as it is: texts in the three text fields. -/
def strictTexts : Library where
  urlparse _ := none
  isIpAddress _ := false
  str v := v.typeName
  toolParameter
    | .str name, .str type, .str description, .bool required => .ok ⟨name, type, description, required⟩
    | _, _, _, _ => .error ⟨.valueError, "validation error for ToolParameter"⟩

theorem strictTexts_keepsTexts : KeepsTexts strictTexts := fun _ _ _ _ => rfl

/-- A query with a filter, which is an object. -/
def filterSchema : Json :=
  .obj [("type", .str "object"), ("properties", .obj [("filter", .obj [("type", .str "object")])]),
    ("required", .arr [.str "filter"])]

theorem filterSchema_valid : ValidSchema filterSchema where
  object := by
    refine ⟨_, rfl, rfl, ?_, ?_⟩
    · intro v hv
      exact ⟨_, (Option.some.inj hv).symm⟩
    · intro v hv
      exact ⟨["filter"], by decide, (Option.some.inj hv).symm⟩
  keys := by decide
  properties := by
    intro property hproperty
    obtain rfl := List.mem_singleton.mp hproperty
    refine Or.inr ⟨_, rfl, ?_, ?_⟩
    · intro v hv
      exact Or.inl ⟨"object", by decide, (Option.some.inj hv).symm⟩
    · intro v hv
      cases hv

theorem filterSchema_plain : ∀ property ∈ propertiesOf filterSchema, PlainProperty property.2 := by
  intro property hproperty
  obtain rfl := List.mem_singleton.mp hproperty
  exact ⟨_, rfl, fun v hv => ⟨"object", (Option.some.inj hv).symm⟩⟩

def filterManifest : ToolManifest := ⟨.str "query", .str "Run a query.", filterSchema⟩

theorem newAdapter_offers_filter : ∃ adapter, newAdapter strictTexts "database" "acme" filterManifest = .ok adapter ∧
    TextSchema filterSchema (offered adapter) :=
  newAdapter_offers strictTexts_keepsTexts "database" "acme" filterManifest filterSchema_valid filterSchema_plain

/-- The filter is offered as a string. -/
theorem object_offered_as_text : ¬ ∀ (lib : Library) (serverName tenantId : String) (manifest : ToolManifest),
    KeepsTexts lib → ValidSchema manifest.inputSchema → ∃ adapter,
      newAdapter lib serverName tenantId manifest = .ok adapter ∧ SameSchema manifest.inputSchema (offered adapter) := by
  intro h
  obtain ⟨adapter, hnew, hsame⟩ := h strictTexts "database" "acme" filterManifest strictTexts_keepsTexts
    filterSchema_valid
  obtain rfl := Except.ok.inj hnew
  have htypes := hsame.types "filter" (.obj [("type", .str "object")])
    (.obj [("type", .str "string"), ("description", .str "")]) List.mem_cons_self List.mem_cons_self
  exact absurd (congrFun htypes .string) (by decide)

end KernelRuntime.StdioAdapter
