import Mathlib.Algebra.Group.Int.Defs
import Mathlib.Algebra.Group.Nat.Defs
import Mathlib.Data.Int.Notation
import KernelRuntime.Foundations.OrderedDict

/-! # Python values that come out of a JSON text

`Json` is what `json.loads` returns, with the operations of Python that the runtime applies to
such values without looking at their type first: truth testing, `.get` and `.pop`. The latter two
raise on a value that is not a dictionary, with the message of the interpreter. `jsonLoads` is the
decoder of the standard library: strict strings, `NaN` and the infinities accepted, the last of
two equal keys kept. What the interpreter's limits make of a text is a parameter. -/

namespace KernelRuntime
set_option autoImplicit false

/-! ## Exceptions -/

/-- The exception classes that some `except` clause or `isinstance` test tells apart. -/
inductive ExceptionClass where
  | governanceDeniedError
  | governanceApprovalRequiredError
  | attributeError
  | typeError
  | valueError
  | databaseError
  | other
deriving DecidableEq

structure PyError where
  cls : ExceptionClass
  message : String
deriving DecidableEq

theorem bind_eq_ok_iff {ε α β : Type} {x : Except ε α} {f : α → Except ε β} {r : β} :
    (x >>= f) = .ok r ↔ ∃ a, x = .ok a ∧ f a = .ok r := by
  cases x with
  | error e => simp [bind, Except.bind]
  | ok a => simp [bind, Except.bind]

theorem map_eq_ok_iff {ε α β : Type} {x : Except ε α} {f : α → β} {r : β} :
    x.map f = .ok r ↔ ∃ a, x = .ok a ∧ f a = r := by
  cases x with
  | error e => simp [Except.map]
  | ok a => simp [Except.map]

/-! ## Values -/

/-- A float as it was written: `mantissa * 10 ^ exponent`, or one of the special values. -/
inductive PyFloat where
  | finite (mantissa exponent : ℤ)
  | infinity (negative : Bool)
  | nan
deriving DecidableEq

inductive Json where
  | null
  | bool (b : Bool)
  | int (n : ℤ)
  | float (x : PyFloat)
  | str (s : String)
  | arr (items : List Json)
  | obj (fields : List (String × Json))

/-! ## Equality of values -/

mutual

def Json.decEq : (a b : Json) → Decidable (a = b)
  | .null, .null => isTrue rfl
  | .bool a, .bool b => decidable_of_iff (a = b) (by simp)
  | .int a, .int b => decidable_of_iff (a = b) (by simp)
  | .float a, .float b => decidable_of_iff (a = b) (by simp)
  | .str a, .str b => decidable_of_iff (a = b) (by simp)
  | .arr a, .arr b => @decidable_of_iff _ (a = b) (by simp) (Json.decEqList a b)
  | .obj a, .obj b => @decidable_of_iff _ (a = b) (by simp) (Json.decEqFields a b)
  | .null, .bool _ | .null, .int _ | .null, .float _ | .null, .str _ | .null, .arr _ | .null, .obj _
  | .bool _, .null | .bool _, .int _ | .bool _, .float _ | .bool _, .str _ | .bool _, .arr _ | .bool _, .obj _
  | .int _, .null | .int _, .bool _ | .int _, .float _ | .int _, .str _ | .int _, .arr _ | .int _, .obj _
  | .float _, .null | .float _, .bool _ | .float _, .int _ | .float _, .str _ | .float _, .arr _ | .float _, .obj _
  | .str _, .null | .str _, .bool _ | .str _, .int _ | .str _, .float _ | .str _, .arr _ | .str _, .obj _
  | .arr _, .null | .arr _, .bool _ | .arr _, .int _ | .arr _, .float _ | .arr _, .str _ | .arr _, .obj _
  | .obj _, .null | .obj _, .bool _ | .obj _, .int _ | .obj _, .float _ | .obj _, .str _ | .obj _, .arr _ =>
    isFalse (by simp)

def Json.decEqList : (a b : List Json) → Decidable (a = b)
  | [], [] => isTrue rfl
  | [], _ :: _ => isFalse (by simp)
  | _ :: _, [] => isFalse (by simp)
  | a :: as, b :: bs =>
    @decidable_of_iff _ (a = b ∧ as = bs) (by simp)
      (@instDecidableAnd _ _ (Json.decEq a b) (Json.decEqList as bs))

def Json.decEqFields : (a b : List (String × Json)) → Decidable (a = b)
  | [], [] => isTrue rfl
  | [], _ :: _ => isFalse (by simp)
  | _ :: _, [] => isFalse (by simp)
  | (k, a) :: as, (l, b) :: bs =>
    @decidable_of_iff _ (k = l ∧ a = b ∧ as = bs) (by simp [and_assoc])
      (@instDecidableAnd _ _ _ (@instDecidableAnd _ _ (Json.decEq a b) (Json.decEqFields as bs)))

end

instance : DecidableEq Json := Json.decEq

/-- The fields of a Python dictionary with string keys. -/
abbrev Fields := List (String × Json)

/-- A decimal is read as the double `0.0` when it is at most half the least positive double. -/
def PyFloat.isZero : PyFloat → Bool
  | .finite m e =>
    if 0 ≤ e then decide (m = 0)
    else decide (m.natAbs * 2 ^ 1075 ≤ 10 ^ e.natAbs)
  | .infinity _ => false
  | .nan => false

/-- `bool(v)`. -/
def Json.truthy : Json → Bool
  | .null => false
  | .bool b => b
  | .int n => decide (n ≠ 0)
  | .float x => !x.isZero
  | .str s => decide (s ≠ "")
  | .arr items => !items.isEmpty
  | .obj fields => !fields.isEmpty

theorem Json.truthy_str {text : String} : (Json.str text).truthy = true ↔ text ≠ "" := decide_eq_true_iff

/-- `type(v).__name__`. -/
def Json.typeName : Json → String
  | .null => "NoneType"
  | .bool _ => "bool"
  | .int _ => "int"
  | .float _ => "float"
  | .str _ => "str"
  | .arr _ => "list"
  | .obj _ => "dict"

def Json.isObject : Json → Bool
  | .obj _ => true
  | _ => false

theorem Json.isObject_iff (v : Json) : v.isObject = true ↔ ∃ fields, v = .obj fields := by
  cases v <;> simp [Json.isObject]

/-- `fields.get(key)`: a missing key gives `None`. -/
def Fields.get (fields : Fields) (key : String) : Json := (fields.lookup key).getD .null

/-- `v.get(key, default)`. -/
def Json.getD (v : Json) (key : String) (default : Json) : Except PyError Json :=
  match v with
  | .obj fields => .ok ((fields.lookup key).getD default)
  | _ => .error ⟨.attributeError, "'" ++ v.typeName ++ "' object has no attribute 'get'"⟩

/-- `v.get(key)`. -/
def Json.get (v : Json) (key : String) : Except PyError Json := v.getD key .null

/-- `v.pop(key, False)`: the value, and what is left of `v`. A list takes an index, so it raises a
`TypeError`; the other values have no `pop`. -/
def Json.pop (v : Json) (key : String) : Except PyError (Json × Json) :=
  match v with
  | .obj fields => .ok ((fields.lookup key).getD (.bool false), .obj (assocErase key fields))
  | .arr _ => .error ⟨.typeError, "pop expected at most 1 argument, got 2"⟩
  | _ => .error ⟨.attributeError, "'" ++ v.typeName ++ "' object has no attribute 'pop'"⟩

@[simp] theorem Json.pop_obj (fields : Fields) (key : String) :
    (Json.obj fields).pop key =
      .ok ((fields.lookup key).getD (.bool false), .obj (assocErase key fields)) := rfl

@[simp] theorem Json.get_obj (fields : Fields) (key : String) :
    (Json.obj fields).get key = .ok (Fields.get fields key) := rfl

/-! ## Decoding -/

namespace Decoder

def skipSpace : List Char → List Char
  | [] => []
  | c :: cs =>
    if c = ' ' ∨ c = '\t' ∨ c = '\n' ∨ c = '\r' then skipSpace cs else c :: cs

def hexDigit (c : Char) : Option ℕ :=
  if '0' ≤ c ∧ c ≤ '9' then some (c.toNat - 48)
  else if 'a' ≤ c ∧ c ≤ 'f' then some (c.toNat - 87)
  else if 'A' ≤ c ∧ c ≤ 'F' then some (c.toNat - 55)
  else none

def hex4 : List Char → Option (ℕ × List Char)
  | a :: b :: c :: d :: rest => do
    let w ← hexDigit a
    let x ← hexDigit b
    let y ← hexDigit c
    let z ← hexDigit d
    return (w * 4096 + x * 256 + y * 16 + z, rest)
  | _ => none

/-- The character of a `\u` escape. A high surrogate takes the low one after it; a surrogate left
alone has no character of its own here and is read as U+FFFD. -/
def unicodeEscape (cs : List Char) : Option (Char × List Char) := do
  let (u, rest) ← hex4 cs
  if 0xD800 ≤ u ∧ u ≤ 0xDBFF then
    match rest with
    | '\\' :: 'u' :: more =>
      match hex4 more with
      | some (v, rest') =>
        if 0xDC00 ≤ v ∧ v ≤ 0xDFFF then
          some (Char.ofNat (0x10000 + (u - 0xD800) * 1024 + (v - 0xDC00)), rest')
        else some (Char.ofNat 0xFFFD, rest)
      | none => some (Char.ofNat 0xFFFD, rest)
    | _ => some (Char.ofNat 0xFFFD, rest)
  else if 0xDC00 ≤ u ∧ u ≤ 0xDFFF then some (Char.ofNat 0xFFFD, rest)
  else some (Char.ofNat u, rest)

def simpleEscape : Char → Option Char
  | '"' => some '"'
  | '\\' => some '\\'
  | '/' => some '/'
  | 'b' => some (Char.ofNat 8)
  | 'f' => some (Char.ofNat 12)
  | 'n' => some '\n'
  | 'r' => some '\r'
  | 't' => some '\t'
  | _ => none

/-- The rest of a string after its opening quote. -/
def string : ℕ → List Char → Option (List Char × List Char)
  | 0, _ => none
  | _, [] => none
  | fuel + 1, c :: cs =>
    if c = '"' then some ([], cs)
    else if c = '\\' then
      match cs with
      | [] => none
      | 'u' :: more => do
        let (ch, rest) ← unicodeEscape more
        let (tail, rest') ← string fuel rest
        return (ch :: tail, rest')
      | e :: more => do
        let ch ← simpleEscape e
        let (tail, rest') ← string fuel more
        return (ch :: tail, rest')
    else if c.toNat < 32 then none
    else do
      let (tail, rest') ← string fuel cs
      return (c :: tail, rest')

def digits : List Char → List Char × List Char
  | [] => ([], [])
  | c :: cs =>
    if '0' ≤ c ∧ c ≤ '9' then
      let (ds, rest) := digits cs
      (c :: ds, rest)
    else ([], c :: cs)

def natOf (ds : List Char) : ℕ := ds.foldl (fun n c => n * 10 + (c.toNat - 48)) 0

/-- The fraction digits after `.`, when there is at least one. -/
def fraction : List Char → List Char × List Char
  | '.' :: cs =>
    match digits cs with
    | ([], _) => ([], '.' :: cs)
    | (ds, rest) => (ds, rest)
  | cs => ([], cs)

/-- The exponent after `e`, when there is one. -/
def exponent : List Char → Option ℤ × List Char
  | e :: cs =>
    if e = 'e' ∨ e = 'E' then
      let (sign, body) := match cs with
        | '-' :: more => ((-1 : ℤ), more)
        | '+' :: more => (1, more)
        | _ => (1, cs)
      match digits body with
      | ([], _) => (none, e :: cs)
      | (ds, rest) => (some (sign * natOf ds), rest)
    else (none, e :: cs)
  | [] => (none, [])

/-- A number without its sign. A leading zero stands alone. -/
def number (negative : Bool) (cs : List Char) : Option (Json × List Char) :=
  let (whole, rest) := match cs with
    | '0' :: more => (['0'], more)
    | _ => digits cs
  if whole.isEmpty then none
  else
    let (frac, rest₁) := fraction rest
    let (exp, rest₂) := exponent rest₁
    let sign : ℤ := if negative then -1 else 1
    if frac.isEmpty ∧ exp.isNone then some (.int (sign * natOf whole), rest₂)
    else some (.float (.finite (sign * natOf (whole ++ frac)) (exp.getD 0 - frac.length)), rest₂)

/-- The words that are values of their own. -/
def words : List (String × Json) :=
  [("null", .null), ("true", .bool true), ("false", .bool false), ("NaN", .float .nan),
   ("Infinity", .float (.infinity false)), ("-Infinity", .float (.infinity true))]

def word (cs : List Char) : Option (Json × List Char) :=
  words.findSome? fun w => (cs.dropPrefix? w.1.toList).map fun rest => (w.2, rest)

def closes (bracket : Char) (cs : List Char) : Option (List Char) := cs.dropPrefix? [bracket]

mutual

/-- One value, white space before it already skipped. -/
def value : ℕ → List Char → Option (Json × List Char)
  | 0, _ => none
  | _ + 1, [] => none
  | fuel + 1, c :: rest =>
    if c = '"' then
      (string (fuel + 1) rest).map fun r => (.str (String.ofList r.1), r.2)
    else if c = '[' then
      match closes ']' (skipSpace rest) with
      | some rest' => some (.arr [], rest')
      | none => (elements fuel (skipSpace rest)).map fun r => (.arr r.1, r.2)
    else if c = '{' then
      match closes '}' (skipSpace rest) with
      | some rest' => some (.obj [], rest')
      | none => (members fuel [] (skipSpace rest)).map fun r => (.obj r.1, r.2)
    else
      match word (c :: rest) with
      | some r => some r
      | none => if c = '-' then number true rest else number false (c :: rest)

/-- The items of a list that has at least one, and its closing bracket. -/
def elements : ℕ → List Char → Option (List Json × List Char)
  | 0, _ => none
  | fuel + 1, cs =>
    match value fuel cs with
    | none => none
    | some (v, rest) =>
      match closes ']' (skipSpace rest), closes ',' (skipSpace rest) with
      | some rest', _ => some ([v], rest')
      | none, some rest' => (elements fuel (skipSpace rest')).map fun r => (v :: r.1, r.2)
      | none, none => none

/-- The members of a dictionary that has at least one, and its closing brace. -/
def members : ℕ → Fields → List Char → Option (Fields × List Char)
  | 0, _, _ => none
  | fuel + 1, done, cs =>
    match (closes '"' cs).bind (string (fuel + 1)) with
    | none => none
    | some (k, rest) =>
      match (closes ':' (skipSpace rest)).bind fun rest' => value fuel (skipSpace rest') with
      | none => none
      | some (v, rest') =>
        match closes '}' (skipSpace rest'), closes ',' (skipSpace rest') with
        | some rest'', _ => some (assocSet (String.ofList k) v done, rest'')
        | none, some rest'' => members fuel (assocSet (String.ofList k) v done) (skipSpace rest'')
        | none, none => none

end

/-- The value that a text denotes; nothing where the text is not JSON. -/
def decode (text : String) : Option Json :=
  let cs := text.toList
  match value (2 * cs.length + 2) (skipSpace cs) with
  | some (v, rest) => if (skipSpace rest).isEmpty then some v else none
  | none => none

example : decode "\x7b\"a\": [1, -2.5e1, \"x\\n\"], \"a\": true\x7d " = some (.obj [("a", .bool true)]) := by
  decide +kernel

end Decoder

/-- Why `json.loads` raises: a `JSONDecodeError`, or one of the errors that are none, the `RecursionError` of a deep
nesting and the plain `ValueError` for an integer of more than 4300 digits. -/
inductive LoadError where
  | malformed
  | refused
deriving DecidableEq

/-- `json.loads(text)`. `refuses` are the texts that it does not get through. -/
def jsonLoads (refuses : String → Bool) (text : String) : Except LoadError Json :=
  if refuses text then .error .refused
  else
    match Decoder.decode text with
    | some v => .ok v
    | none => .error .malformed

theorem jsonLoads_eq_ok {refuses : String → Bool} {text : String} {v : Json} :
    jsonLoads refuses text = .ok v ↔ refuses text = false ∧ Decoder.decode text = some v := by
  unfold jsonLoads
  split_ifs with hrefuses
  · simp [hrefuses]
  · rw [Bool.not_eq_true] at hrefuses
    cases Decoder.decode text with
    | none => simp
    | some v' => simp [hrefuses]

/-- The limits of the interpreter. It gets through a text that does not nest and has fewer digits than its limit on
integers can be set to. -/
structure Limits where
  refuses : String → Bool
  flat : ∀ text : String, text.toList.countP (fun c => c == '[' || c == '\x7b') ≤ 1 →
    text.toList.countP Char.isDigit < 640 → refuses text = false

def Limits.unlimited : Limits := ⟨fun _ => false, fun _ _ _ => rfl⟩

end KernelRuntime
