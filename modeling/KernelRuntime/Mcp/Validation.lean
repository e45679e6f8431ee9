import KernelRuntime.Foundations.Json

/-! # Validation of plugin definitions

`mcp_validation` on a definition as it comes, whatever the types of its values. What it asks of the standard
library is a parameter. -/

namespace KernelRuntime.McpHub
set_option autoImplicit false

/-- `hostname` is none or lower case. -/
structure ParsedUrl where
  scheme : String
  netloc : String
  hostname : Option String

structure ToolParameter where
  name : String
  type : String
  description : String
  required : Bool
deriving DecidableEq

/-- `urlparse` gives none when it raises, `isIpAddress` says that `ip_address` does not raise, `str` is the one of
values that are no container, and `toolParameter` is the constructor of the model. -/
structure Library where
  urlparse : String → Option ParsedUrl
  isIpAddress : String → Bool
  str : Json → String
  toolParameter : (name type description required : Json) → Except PyError ToolParameter

def MAX_URL_LENGTH : ℕ := 2048

def MAX_PLUGIN_NAME_LENGTH : ℕ := 128

def BLOCKED_HOSTS : List String := ["localhost", "127.0.0.1", "0.0.0.0", "::1"]

/-- The set has no order of its own; this one is taken for the message. -/
def ALLOWED_URL_SCHEMES : List String := ["https", "http"]

def PARAMETER_TYPES : List String := ["string", "number", "integer", "boolean", "array", "object"]

def len : Json → Except PyError ℕ
  | .str s => .ok s.length
  | .arr items => .ok items.length
  | .obj fields => .ok fields.length
  | v => .error ⟨.typeError, "object of type '" ++ v.typeName ++ "' has no len()"⟩

def elements : Json → Except PyError (List Json)
  | .arr items => .ok items
  | .str s => .ok (s.toList.map fun c => .str c.toString)
  | .obj fields => .ok (fields.map fun f => .str f.1)
  | v => .error ⟨.typeError, "'" ++ v.typeName ++ "' object is not iterable"⟩

def errorIf (wrong : Bool) (message : String) : List String := if wrong then [message] else []

section Validators
variable (lib : Library)

def urlErrors (url : String) (parsed : ParsedUrl) (allowedHosts : Option (List String)) : List String :=
  let host := parsed.hostname.getD ""
  let allowed := allowedHosts.getD []
  errorIf (!ALLOWED_URL_SCHEMES.contains parsed.scheme)
      ("URL scheme must be one of: " ++ String.intercalate ", " ALLOWED_URL_SCHEMES) ++
    errorIf (parsed.netloc == "") "URL must have a valid host" ++
    errorIf (BLOCKED_HOSTS.contains host.toLower) ("URL host '" ++ host ++ "' is not allowed") ++
    errorIf (!allowed.isEmpty && !allowed.contains host) ("URL host '" ++ host ++ "' not in allowed hosts list") ++
    errorIf (lib.isIpAddress host) "IP addresses are not allowed directly, use hostname" ++
    errorIf (url.toList.any fun c => ['<', '>', '"', Char.ofNat 39].contains c)
      "URL contains potentially malicious characters"

def validateEndpointUrl (url : Json) (allowedHosts : Option (List String)) : Except PyError (List String) :=
  let tooLong := ["URL must be 1-" ++ toString MAX_URL_LENGTH ++ " characters"]
  if !url.truthy then .ok tooLong
  else do
    let length ← len url
    if length > MAX_URL_LENGTH then return tooLong
    match url with
    | .str s =>
      match lib.urlparse s with
      | none => return ["Invalid URL format"]
      | some parsed => return urlErrors lib s parsed allowedHosts
    | _ => return ["Invalid URL format"]

def nameChar (c : Char) : Bool := c.isAlphanum || c == '_' || c == '-'

/-- `re.match` of the pattern, whose end also matches before a last line break. -/
def nameMatches (name : String) : Bool :=
  let chars := name.toList
  let body := if chars.getLast? = some '\n' then chars.dropLast else chars
  !body.isEmpty && body.all nameChar

/-- The checks of the name. Only a string comes through both of them. -/
def nameErrors : Json → Except PyError (List String)
  | .str name => .ok
      (errorIf (name == "" || name.length > MAX_PLUGIN_NAME_LENGTH)
          ("Plugin name must be 1-" ++ toString MAX_PLUGIN_NAME_LENGTH ++ " characters") ++
        errorIf (!nameMatches name) "Plugin name contains invalid characters")
  | v =>
    match if v.truthy then len v else .ok 0 with
    | .error e => .error e
    | .ok _ => .error ⟨.typeError, "expected string or bytes-like object, got '" ++ v.typeName ++ "'"⟩

def parameterErrors (i : ℕ) : Json → Except PyError (List String)
  | .obj fields =>
    let missing := errorIf (!(Fields.get fields "name").truthy)
      ("Parameter " ++ toString i ++ " missing required 'name' field")
    match (fields.lookup "type").getD (.str "") with
    | .str type => .ok (missing ++ errorIf (!PARAMETER_TYPES.contains type)
        ("Parameter " ++ toString i ++ " has invalid type '" ++ type ++ "'"))
    | .arr _ => .error ⟨.typeError, "unhashable type: 'list'"⟩
    | .obj _ => .error ⟨.typeError, "unhashable type: 'dict'"⟩
    | v => .ok (missing ++ ["Parameter " ++ toString i ++ " has invalid type '" ++ lib.str v ++ "'"])
  | _ => .ok ["Parameter " ++ toString i ++ " must be an object"]

def parametersErrors (i : ℕ) : List Json → Except PyError (List String)
  | [] => .ok []
  | param :: params => do
    let errors ← parameterErrors lib i param
    let rest ← parametersErrors (i + 1) params
    return errors ++ rest

def validatePluginDefinition : Json → Except PyError (List String)
  | .obj fields => do
    let nameErrors ← nameErrors ((fields.lookup "name").getD (.str ""))
    let urlErrors ← validateEndpointUrl lib ((fields.lookup "endpoint_url").getD (.str "")) none
    let descriptionLength ← len ((fields.lookup "description").getD (.str ""))
    let parameters := (fields.lookup "parameters").getD (.arr [])
    let listErrors := match parameters with
      | .arr items => errorIf (items.length > 50) "Maximum 50 parameters allowed"
      | _ => ["Parameters must be an array"]
    let params ← elements parameters
    let parameterErrors ← parametersErrors lib 0 params
    return nameErrors ++ urlErrors ++ errorIf (descriptionLength > 1000) "Description must be 1000 characters or less" ++
      listErrors ++ parameterErrors
  | _ => .ok ["Plugin definition must be an object"]

variable {lib}

theorem errorIf_eq_nil {wrong : Bool} {message : String} : errorIf wrong message = [] ↔ wrong = false := by
  cases wrong <;> simp [errorIf]

theorem nameErrors_eq_nil {v : Json} (h : nameErrors v = .ok []) :
    ∃ name, v = .str name ∧ name ≠ "" ∧ name.length ≤ MAX_PLUGIN_NAME_LENGTH ∧ nameMatches name = true := by
  unfold nameErrors at h
  split at h
  next name =>
    rw [Except.ok.injEq, List.append_eq_nil_iff, errorIf_eq_nil, errorIf_eq_nil] at h
    simp at h
    exact ⟨name, rfl, h.1.1, h.1.2, h.2⟩
  next => split at h <;> cases h

end Validators
end KernelRuntime.McpHub
