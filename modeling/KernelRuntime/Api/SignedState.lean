import KernelRuntime.Foundations.Base64
import KernelRuntime.Foundations.JsonEncoder
import KernelRuntime.Foundations.Utf8
import KernelRuntime.Api.GithubAuth

/-! # The signed state of an OAuth round trip

`create_signed_state` puts a session id and the time into a text that GitHub hands back, with a signature after
a dot; `parse_signed_state` takes the last dot for that one. A signature may have a dot in it. -/

namespace KernelRuntime.SignedState
open SessionConfig
set_option autoImplicit false

abbrev Bytes := List UInt8

/-- What a hash function of 256 bits returns. -/
abbrev Digest := {bytes : Bytes // bytes.length = 32}

/-- HMAC-SHA-256 with a key, `int(v)` of a text or a float, `str(v)` of what is no text, and the texts that
`json.loads` does not get through: no payload that `json.dumps` has written is one. -/
structure Library where
  hmac : Bytes → Bytes → Digest
  int : Json → Except PyError ℤ
  str : Json → String
  refuses : String → Bool
  payload_read : ∀ sessionId iat, refuses (Encoder.dumps [("session_id", .str sessionId), ("iat", .int iat)]) = false

/-- `int(v)`. -/
def toInt (lib : Library) : Json → Except PyError ℤ
  | .int n => .ok n
  | .bool b => .ok (if b then 1 else 0)
  | .str text => lib.int (.str text)
  | .float x => lib.int (.float x)
  | v => .error ⟨.typeError, "int() argument must be a string, a bytes-like object or a real number, not '" ++
      v.typeName ++ "'"⟩

/-- `str(v)`. -/
def toStr (lib : Library) : Json → String
  | .str text => text
  | v => lib.str v

/-- The byte `.`. -/
def dot : UInt8 := 46

/-- `bytes.rsplit(b".", 1)` as a pair; none where there is no dot. -/
def rsplitDot : Bytes → Option (Bytes × Bytes)
  | [] => none
  | b :: bytes =>
    match rsplitDot bytes with
    | some (raw, signature) => some (b :: raw, signature)
    | none => if b = dot then some ([], bytes) else none

/-- `_github_state_secret`. -/
def githubStateSecret (secret : String) : Except PyError Bytes :=
  if secret = "" then .error (httpException "500" "JWT secret is not configured") else .ok (encodeUtf8 secret)

/-- `json.dumps(payload, separators=(",", ":")).encode("utf-8")`. -/
def payloadBytes (sessionId : String) (iat : ℤ) : Bytes :=
  encodeUtf8 (Encoder.dumps [("session_id", .str sessionId), ("iat", .int iat)])

/-- `create_signed_state` at the time `now`. -/
def createSignedState (lib : Library) (secret : String) (now : ℤ) (sessionId : String) : Except PyError String := do
  let raw := payloadBytes sessionId now
  let key ← githubStateSecret secret
  return String.ofList (Base64.encode (raw ++ dot :: (lib.hmac key raw).1))

def orError {α : Type} (message : String) : Option α → Except PyError α
  | some a => .ok a
  | none => .error ⟨.valueError, message⟩

/-- `json.loads(raw)`; an error of any kind ends the `try`. -/
def loads (lib : Library) (text : String) : Except PyError Json :=
  (jsonLoads lib.refuses text).mapError fun _ => ⟨.valueError, "invalid JSON"⟩

/-- The payload of a state whose signature is right. -/
def readPayload (lib : Library) (now : ℤ) (raw : Bytes) : Except PyError String := do
  let text ← orError "invalid utf-8" (decodeUtf8 raw)
  let payload ← loads lib text
  let iat ← payload.getD "iat" (.int 0)
  let iat ← toInt lib iat
  if now - iat > 600 then .error ⟨.valueError, "State expired"⟩
  else
    let fields ← GithubAuth.asObject payload
    let sessionId ← GithubAuth.item fields "session_id"
    return toStr lib sessionId

/-- The body of the `try` of `parse_signed_state`. Base64 is ASCII: the bytes of another character are skipped
as the character is. -/
def parseBody (lib : Library) (secret : String) (now : ℤ) (state : String) : Except PyError String := do
  let decoded ← orError "Incorrect padding" (Base64.decode state.toList)
  let parts ← orError "not enough values to unpack (expected 2, got 1)" (rsplitDot decoded)
  let key ← githubStateSecret secret
  if parts.2 = (lib.hmac key parts.1).1 then readPayload lib now parts.1
  else .error ⟨.valueError, "State signature mismatch"⟩

/-- `parse_signed_state` at the time `now`. -/
def parseSignedState (lib : Library) (secret : String) (now : ℤ) (state : String) : Except PyError String :=
  match parseBody lib secret now state with
  | .ok sessionId => .ok sessionId
  | .error _ => .error (httpException "400" "Invalid OAuth state")

/-- The state carries a payload with its signature. -/
def Signed (lib : Library) (secret state : String) : Prop :=
  ∃ raw, Base64.decode state.toList = some (raw ++ dot :: (lib.hmac (encodeUtf8 secret) raw).1)

/-! ## The last dot -/

theorem rsplitDot_eq_none {bytes : Bytes} (h : rsplitDot bytes = none) : dot ∉ bytes := by
  induction bytes with
  | nil => exact List.not_mem_nil
  | cons b bytes ih =>
    unfold rsplitDot at h
    cases hrest : rsplitDot bytes with
    | some r => simp [hrest] at h
    | none =>
      simp only [hrest] at h
      split_ifs at h with hb
      rw [List.mem_cons, not_or]
      exact ⟨fun h => hb h.symm, ih hrest⟩

theorem rsplitDot_eq_some {bytes raw signature : Bytes} (h : rsplitDot bytes = some (raw, signature)) :
    bytes = raw ++ dot :: signature ∧ dot ∉ signature := by
  induction bytes generalizing raw with
  | nil => cases h
  | cons b bytes ih =>
    unfold rsplitDot at h
    cases hrest : rsplitDot bytes with
    | some r =>
      simp only [hrest, Option.some.injEq, Prod.mk.injEq] at h
      obtain ⟨rfl, rfl⟩ := h
      obtain ⟨hbytes, hdot⟩ := ih hrest
      exact ⟨by rw [hbytes]; rfl, hdot⟩
    | none =>
      simp only [hrest] at h
      split_ifs at h with hb
      cases h
      exact ⟨by rw [hb]; rfl, rsplitDot_eq_none hrest⟩

/-- The bytes after the last dot are the signature, or a part of it where it has a dot itself. -/
theorem rsplitDot_append (raw signature : Bytes) : ∃ raw' signature',
    rsplitDot (raw ++ dot :: signature) = some (raw', signature') ∧
      (dot ∉ signature ∧ raw' = raw ∧ signature' = signature ∨
        dot ∈ signature ∧ signature'.length < signature.length) := by
  cases hsplit : rsplitDot (raw ++ dot :: signature) with
  | none => exact absurd (List.mem_append_right raw List.mem_cons_self) (rsplitDot_eq_none hsplit)
  | some r =>
    obtain ⟨hbytes, hdot⟩ := rsplitDot_eq_some hsplit
    refine ⟨r.1, r.2, rfl, ?_⟩
    rcases List.append_eq_append_iff.mp hbytes with ⟨more, hraw, hsignature⟩ | ⟨more, hraw, hsignature⟩
    · cases more with
      | nil =>
        obtain ⟨_, hsame⟩ := List.cons.inj hsignature
        rw [List.append_nil] at hraw
        exact Or.inl ⟨hsame ▸ hdot, hraw, hsame.symm⟩
      | cons b more =>
        have hlater : signature = more ++ dot :: r.2 := (List.cons.inj hsignature).2
        refine Or.inr ⟨hlater ▸ List.mem_append_right more List.mem_cons_self, ?_⟩
        rw [hlater, List.length_append, List.length_cons]
        omega
    · cases more with
      | nil =>
        obtain ⟨_, hsame⟩ := List.cons.inj hsignature
        rw [List.append_nil] at hraw
        exact Or.inl ⟨hsame ▸ hdot, hraw.symm, hsame⟩
      | cons b more =>
        obtain ⟨_, hlater⟩ := List.cons.inj hsignature
        exact absurd (hlater ▸ List.mem_append_right more List.mem_cons_self) hdot

/-! ## What is accepted -/

theorem orError_some {α : Type} {message : String} {o : Option α} {a : α} (h : o = some a) :
    orError message o = .ok a := by
  rw [h]
  rfl

theorem orError_eq_ok {α : Type} {message : String} {o : Option α} {a : α} (h : orError message o = .ok a) :
    o = some a := by
  cases o with
  | none => cases h
  | some b => exact congrArg some (Except.ok.inj h)

theorem githubStateSecret_eq_ok {secret : String} {key : Bytes} (h : githubStateSecret secret = .ok key) :
    secret ≠ "" ∧ key = encodeUtf8 secret := by
  unfold githubStateSecret at h
  split_ifs at h with hsecret
  exact ⟨hsecret, (Except.ok.inj h).symm⟩

/-- What `parse_signed_state` has read when it accepts a state. -/
theorem parseBody_eq_ok {lib : Library} {secret state sessionId : String} {now : ℤ}
    (h : parseBody lib secret now state = .ok sessionId) : ∃ decoded raw,
      Base64.decode state.toList = some decoded ∧
        rsplitDot decoded = some (raw, (lib.hmac (encodeUtf8 secret) raw).1) := by
  unfold parseBody at h
  obtain ⟨decoded, hdecoded, h⟩ := bind_eq_ok_iff.mp h
  obtain ⟨⟨raw, signature⟩, hsplit, h⟩ := bind_eq_ok_iff.mp h
  obtain ⟨key, hkey, h⟩ := bind_eq_ok_iff.mp h
  obtain ⟨_, rfl⟩ := githubStateSecret_eq_ok hkey
  split_ifs at h with hsignature
  refine ⟨decoded, raw, orError_eq_ok hdecoded, ?_⟩
  rw [orError_eq_ok hsplit]
  exact congrArg (fun signature => some (raw, signature)) hsignature

theorem parseSignedState_eq_ok {lib : Library} {secret state sessionId : String} {now : ℤ} :
    parseSignedState lib secret now state = .ok sessionId ↔ parseBody lib secret now state = .ok sessionId := by
  unfold parseSignedState
  cases parseBody lib secret now state with
  | ok _ => exact Iff.rfl
  | error _ => exact ⟨(fun h => nomatch h), (fun h => nomatch h)⟩

theorem signed_of_parse {lib : Library} {secret state sessionId : String} {now : ℤ}
    (h : parseSignedState lib secret now state = .ok sessionId) : Signed lib secret state := by
  obtain ⟨decoded, raw, hdecoded, hsplit⟩ := parseBody_eq_ok (parseSignedState_eq_ok.mp h)
  refine ⟨raw, ?_⟩
  rw [hdecoded, ← (rsplitDot_eq_some hsplit).1]

/-! ## The state of a session -/

theorem createSignedState_eq_ok {lib : Library} {secret sessionId state : String} {now : ℤ} :
    createSignedState lib secret now sessionId = .ok state ↔ secret ≠ "" ∧
      state = String.ofList (Base64.encode (payloadBytes sessionId now ++
        dot :: (lib.hmac (encodeUtf8 secret) (payloadBytes sessionId now)).1)) := by
  unfold createSignedState githubStateSecret
  split_ifs with hsecret
  · exact ⟨(fun h => nomatch h), fun h => absurd hsecret h.1⟩
  · exact ⟨fun h => ⟨hsecret, (Except.ok.inj h).symm⟩, fun h => congrArg Except.ok h.2.symm⟩

/-- The payload of a session is read back while it is not older than ten minutes. -/
theorem readPayload_payloadBytes (lib : Library) (sessionId : String) {iat now : ℤ} (h : now - iat ≤ 600) :
    readPayload lib now (payloadBytes sessionId iat) = .ok sessionId := by
  have hloads : loads lib (Encoder.dumps [("session_id", .str sessionId), ("iat", .int iat)]) =
      .ok (.obj [("session_id", .str sessionId), ("iat", .int iat)]) := by
    unfold loads
    rw [jsonLoads_eq_ok.mpr ⟨lib.payload_read sessionId iat,
      Encoder.decode_dumps (show ["session_id", "iat"].Nodup by decide)⟩]
    rfl
  have hfresh : ¬ now - iat > 600 := Int.not_lt.mpr h
  unfold readPayload payloadBytes
  refine bind_eq_ok_iff.mpr ⟨_, orError_some (decodeUtf8_encodeUtf8 _), ?_⟩
  refine bind_eq_ok_iff.mpr ⟨_, hloads, ?_⟩
  refine bind_eq_ok_iff.mpr ⟨.int iat, rfl, ?_⟩
  refine bind_eq_ok_iff.mpr ⟨iat, rfl, ?_⟩
  rw [if_neg hfresh]
  rfl

/-- The state that was made for a session names it exactly when its signature has no dot. -/
theorem parseBody_created {lib : Library} {secret : String} (hsecret : secret ≠ "") (sessionId : String) {iat now : ℤ}
    (h : now - iat ≤ 600) :
    parseBody lib secret now (String.ofList (Base64.encode (payloadBytes sessionId iat ++
      dot :: (lib.hmac (encodeUtf8 secret) (payloadBytes sessionId iat)).1))) = .ok sessionId ↔
        dot ∉ (lib.hmac (encodeUtf8 secret) (payloadBytes sessionId iat)).1 := by
  generalize hdigest : lib.hmac (encodeUtf8 secret) (payloadBytes sessionId iat) = digest
  obtain ⟨raw, signature, hsplit, hcases⟩ := rsplitDot_append (payloadBytes sessionId iat) digest.1
  have hdecoded := Base64.decode_encode (payloadBytes sessionId iat ++ dot :: digest.1)
  rw [← String.toList_ofList (l := Base64.encode _)] at hdecoded
  constructor
  · intro hparse hdot
    obtain ⟨decoded, raw', hdecoded', hsplit'⟩ := parseBody_eq_ok hparse
    rw [hdecoded] at hdecoded'
    obtain rfl := Option.some.inj hdecoded'
    rw [hsplit] at hsplit'
    have hsignature : signature = (lib.hmac (encodeUtf8 secret) raw').1 := (Prod.mk.inj (Option.some.inj hsplit')).2
    rcases hcases with ⟨hnone, _⟩ | ⟨_, hshort⟩
    · exact hnone hdot
    · rw [hsignature, (lib.hmac _ _).2, digest.2] at hshort
      exact absurd hshort (Nat.lt_irrefl _)
  · intro hdot
    rcases hcases with ⟨_, rfl, rfl⟩ | ⟨hmem, _⟩
    · unfold parseBody githubStateSecret
      refine bind_eq_ok_iff.mpr ⟨_, orError_some hdecoded, ?_⟩
      refine bind_eq_ok_iff.mpr ⟨_, orError_some hsplit, ?_⟩
      refine bind_eq_ok_iff.mpr ⟨_, if_neg hsecret, ?_⟩
      simp only
      rw [hdigest, if_pos rfl]
      exact readPayload_payloadBytes lib sessionId h
    · exact absurd hmem hdot

/-- A state is read back within ten minutes exactly when there is a secret and no dot in the signature. What is
accepted is always signed. -/
theorem parse_create_iff (lib : Library) (secret sessionId : String) {iat now : ℤ} (h : now - iat ≤ 600) :
    ((∃ state, createSignedState lib secret iat sessionId = .ok state ∧
        parseSignedState lib secret now state = .ok sessionId) ∧
      ∀ state later id, parseSignedState lib secret later state = .ok id → Signed lib secret state) ↔
    secret ≠ "" ∧ dot ∉ (lib.hmac (encodeUtf8 secret) (payloadBytes sessionId iat)).1 := by
  constructor
  · rintro ⟨⟨state, hcreate, hparse⟩, _⟩
    obtain ⟨hsecret, rfl⟩ := createSignedState_eq_ok.mp hcreate
    exact ⟨hsecret, (parseBody_created hsecret sessionId h).mp (parseSignedState_eq_ok.mp hparse)⟩
  · rintro ⟨hsecret, hdot⟩
    refine ⟨⟨_, createSignedState_eq_ok.mpr ⟨hsecret, rfl⟩, ?_⟩, fun state later id => signed_of_parse⟩
    exact parseSignedState_eq_ok.mpr ((parseBody_created hsecret sessionId h).mpr hdot)

/-- HMAC-SHA-256 under the key `secret` of the payloads for `s1` at two times. -/
def sampleHmac (_ raw : Bytes) : Digest :=
  if raw = payloadBytes "s1" 1750000005 then
    ⟨[159, 121, 46, 73, 192, 90, 118, 242, 30, 108, 101, 244, 209, 138, 43, 94, 51, 4, 30, 232, 90, 138, 112, 19, 70,
      168, 236, 183, 210, 231, 230, 121], rfl⟩
  else
    ⟨[141, 21, 28, 178, 89, 104, 252, 153, 165, 66, 123, 205, 17, 135, 95, 94, 215, 53, 160, 192, 134, 197, 146, 185,
      120, 94, 103, 215, 244, 215, 183, 116], rfl⟩

def sampleLibrary : Library where
  hmac := sampleHmac
  int _ := .error ⟨.valueError, "invalid literal"⟩
  str _ := ""
  refuses _ := false
  payload_read _ _ := rfl

theorem parse_create_iff_sample : ∃ state, createSignedState sampleLibrary "secret" 1750000000 "s1" = .ok state ∧
    parseSignedState sampleLibrary "secret" 1750000600 state = .ok "s1" :=
  ((parse_create_iff sampleLibrary "secret" "s1" (show (1750000600 : ℤ) - 1750000000 ≤ 600 by decide)).mpr
    ⟨by decide, by decide +kernel⟩).1

/-- Five seconds later the signature has a dot, and the state that was made is refused. -/
theorem dotted_state_refused : ¬ ∃ state, createSignedState sampleLibrary "secret" 1750000005 "s1" = .ok state ∧
    parseSignedState sampleLibrary "secret" 1750000006 state = .ok "s1" := by
  rintro ⟨state, hcreate, hparse⟩
  obtain ⟨hsecret, rfl⟩ := createSignedState_eq_ok.mp hcreate
  have hdot := (parseBody_created hsecret "s1" (show (1750000006 : ℤ) - 1750000005 ≤ 600 by decide)).mp
    (parseSignedState_eq_ok.mp hparse)
  exact absurd hdot (by decide +kernel)

end KernelRuntime.SignedState
