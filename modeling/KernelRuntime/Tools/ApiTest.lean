import KernelRuntime.Foundations.TextSplit
import KernelRuntime.Foundations.Trim
import KernelRuntime.Storage.Mount
import KernelRuntime.Tools.SandboxLifetime

/-! # A request to an API, and what is read of its answer

`APITestTool` starts `curl` in a sandbox and has it print the status behind the body of the answer. The body is
whatever the server sent: it may hold the marker that stands in front of the status. -/

namespace KernelRuntime.ApiTest
open Gvfs (strip isWhitespace)
open SandboxLifetime (SandboxResult truncated)
set_option autoImplicit false

/-- The arguments of a call; a default takes the place of one that is missing. -/
structure Request where
  endpoint : String
  method : String := "GET"
  headers : List (String × String) := []
  body : Option String := none
  expectedStatus : ℤ := 200

/-- `str.upper` and `int(text)`. -/
structure TextMethods where
  upper : String → String
  int : List Char → Except PyError ℤ

structure Answer where
  success : Bool
  endpoint : String
  method : String
  expectedStatus : ℤ
  actualStatus : ℤ
  passed : Bool
  responseBody : String
  error : Option String
deriving DecidableEq

def headerArg (header : String × String) : String := "-H \"" ++ header.1 ++ ": " ++ header.2 ++ "\""

def headerArgs (headers : List (String × String)) : String := " ".intercalate (headers.map headerArg)

/-- An empty body is no body. -/
def bodyArg (body : Option String) : String :=
  match body with
  | none => ""
  | some text => if text = "" then "" else "-d \"" ++ text ++ "\""

def command (py : TextMethods) (request : Request) : String :=
  "curl -s -w '\\nHTTP_CODE:%\x7bhttp_code\x7d' -X " ++ py.upper request.method ++ " " ++
    headerArgs request.headers ++ " " ++ bodyArg request.body ++ " '" ++ request.endpoint ++ "'"

/-- The marker in front of the status. -/
def httpCode : List Char := "HTTP_CODE:".toList

/-- The body and the status that stand in what `curl` printed; nothing and 0 where it printed no status. -/
def parseResponse (py : TextMethods) (stdout : String) : Except PyError (List Char × ℤ) :=
  if httpCode <:+: stdout.toList then
    let parts := splitText httpCode stdout.toList
    (py.int (strip (parts.getD 1 []))).map fun actualStatus => (strip (parts.getD 0 []), actualStatus)
  else .ok ([], 0)

/-- What the tool returns. -/
def answerOf (py : TextMethods) (request : Request) (result : SandboxResult) (responseBody : List Char)
    (actualStatus : ℤ) : Answer where
  success := decide (actualStatus = request.expectedStatus) && decide (result.exitCode = 0)
  endpoint := request.endpoint
  method := py.upper request.method
  expectedStatus := request.expectedStatus
  actualStatus := actualStatus
  passed := decide (actualStatus = request.expectedStatus)
  responseBody := String.ofList (responseBody.take 5000)
  error := if result.exitCode ≠ 0 then some result.stderr else none

/-- `APITestTool.execute`, where `run` is the sandbox. -/
def execute (py : TextMethods) (run : String → Except PyError SandboxResult) (request : Request) :
    Except PyError Answer := do
  let result ← run (command py request)
  let parsed ← parseResponse py result.stdout
  return answerOf py request result parsed.1 parsed.2

/-- What `curl` prints for an answer with a body and a status. -/
def curlOutput (b : String) (s : ℕ) : String :=
  String.ofList (b.toList ++ '\n' :: (httpCode ++ Nat.toDigits 10 s))

/-- The answer is reported as it was: its status, and its body without white space at the ends, cut. -/
def Reported (b : String) (s : ℕ) (result : Except PyError Answer) : Prop :=
  ∃ answer, result = .ok answer ∧ answer.actualStatus = s ∧
    answer.responseBody = String.ofList ((strip b.toList).take 5000)

/-- The body does not hold the marker; or what is in front of the first one is longer than what is reported, and
what follows up to the next one reads as the status. -/
def Unmistaken (py : TextMethods) (b : String) (s : ℕ) : Prop :=
  ∀ text, (splitText httpCode b.toList)[1]? = some text →
    5000 ≤ (strip ((splitText httpCode b.toList).getD 0 [])).length ∧ py.int (strip text) = .ok (s : ℤ)

/-! ## Stripped texts -/

theorem strip_eq_trimEnds (cs : List Char) : strip cs = trimEnds isWhitespace cs := rfl

theorem strip_append_newline (cs : List Char) : strip (cs ++ ['\n']) = strip cs := by
  have hnewline : ∀ c ∈ ['\n'], isWhitespace c = true := by
    intro c hc
    rw [List.mem_singleton.mp hc]
    decide
  rw [strip_eq_trimEnds, trimEnds_append_of_all hnewline, ← strip_eq_trimEnds]

theorem isWhitespace_of_isDigit {c : Char} (h : c.isDigit = true) : isWhitespace c = false := by
  obtain ⟨hlow, hhigh⟩ : 48 ≤ c.toNat ∧ c.toNat ≤ 57 := by
    simpa [Char.isDigit, UInt32.le_iff_toNat_le] using h
  unfold isWhitespace
  rw [decide_eq_false_iff_not]
  omega

theorem strip_toDigits (s : ℕ) : strip (Nat.toDigits 10 s) = Nat.toDigits 10 s := by
  rw [strip_eq_trimEnds]
  refine trimEnds_eq_self fun c hc => isWhitespace_of_isDigit ?_
  exact Nat.isDigit_of_mem_toDigits (by decide) (by decide) hc

theorem colon_not_mem_toDigits (s : ℕ) : ¬ httpCode <:+: Nat.toDigits 10 s := by
  intro h
  have hcolon : ':' ∈ Nat.toDigits 10 s := h.subset (by decide)
  have hdigit := Nat.isDigit_of_mem_toDigits (b := 10) (by decide) (by decide) hcolon
  exact absurd hdigit (by decide)

/-! ## The parts of the output -/

variable (b : String) (s : ℕ)

theorem marker_ne_nil : httpCode ≠ [] := by decide

theorem newline_not_mem_marker : '\n' ∉ httpCode := by decide

theorem marker_occurs : httpCode <:+: (curlOutput b s).toList := by
  refine ⟨b.toList ++ ['\n'], Nat.toDigits 10 s, ?_⟩
  simp [curlOutput]

/-- The output has the parts of the body, the last of them with a line break, and the status behind them. -/
theorem splitText_curlOutput :
    splitText httpCode (curlOutput b s).toList =
      (splitText httpCode b.toList).dropLast ++
        [(splitText httpCode b.toList).getLast?.getD [] ++ ['\n'], Nat.toDigits 10 s] := by
  have hmiss : ¬ httpCode <+: '\n' :: (httpCode ++ Nat.toDigits 10 s) :=
    not_prefix_append_cons (s := []) newline_not_mem_marker (by decide)
  have hstatus : splitText httpCode (httpCode ++ Nat.toDigits 10 s) = [[], Nat.toDigits 10 s] := by
    rw [splitText_append marker_ne_nil, splitText_of_not_mem marker_ne_nil (colon_not_mem_toDigits s)]
  unfold curlOutput
  rw [String.toList_ofList, splitText_append_cons marker_ne_nil newline_not_mem_marker, splitText_cons hmiss, hstatus]
  rfl

variable {b s}

theorem parseResponse_of_unmarked (py : TextMethods) (h : (splitText httpCode b.toList)[1]? = none) :
    parseResponse py (curlOutput b s) =
      (py.int (Nat.toDigits 10 s)).map fun actualStatus => (strip b.toList, actualStatus) := by
  have hfree : ¬ httpCode <:+: b.toList := (splitText_one_eq_none_iff marker_ne_nil).mp h
  unfold parseResponse
  rw [if_pos (marker_occurs b s), splitText_curlOutput, splitText_of_not_mem marker_ne_nil hfree]
  simp [strip_append_newline, strip_toDigits]

theorem parseResponse_of_marked (py : TextMethods) {front text : List Char} {more : List (List Char)}
    (h : splitText httpCode b.toList = front :: text :: more) :
    parseResponse py (curlOutput b s) =
      (py.int (strip text)).map fun actualStatus => (strip front, actualStatus) := by
  unfold parseResponse
  rw [if_pos (marker_occurs b s), splitText_curlOutput, h]
  cases more with
  | nil => simp [strip_append_newline]
  | cons next more => simp

/-- What is in front of a marker is what the report is cut to only where it is that long. -/
theorem take_strip_front_iff {front text : List Char} {more : List (List Char)}
    (h : splitText httpCode b.toList = front :: text :: more) :
    (strip front).take 5000 = (strip b.toList).take 5000 ↔ 5000 ≤ (strip front).length := by
  obtain ⟨rest, hb⟩ := splitText_eq_cons_cons marker_ne_nil h
  have hstrip : strip b.toList =
      front.dropWhile isWhitespace ++ 'H' :: ("TTP_CODE:".toList ++ rest).rdropWhile isWhitespace := by
    have hsplit : b.toList = front ++ 'H' :: ("TTP_CODE:".toList ++ rest) := by
      rw [hb, List.append_assoc]
      rfl
    rw [hsplit, strip_eq_trimEnds, trimEnds_append_cons (by decide)]
  obtain ⟨tail, htail⟩ := trimEnds_prefix_dropWhile (p := isWhitespace) front
  rw [hstrip, ← htail, ← strip_eq_trimEnds, List.append_assoc]
  generalize strip front = kept
  constructor
  · intro heq
    by_contra hshort
    have hlength := congrArg List.length heq
    simp only [List.length_take, List.length_append, List.length_cons] at hlength
    omega
  · intro hlong
    rw [List.take_append_of_le_length hlong]

variable {py : TextMethods} {run : String → Except PyError SandboxResult} {request : Request}
  {result : SandboxResult}

theorem execute_reported_iff (hrun : run (command py request) = .ok result) :
    Reported b s (execute py run request) ↔ ∃ body, parseResponse py result.stdout = .ok (body, (s : ℤ)) ∧
      String.ofList (body.take 5000) = String.ofList ((strip b.toList).take 5000) := by
  constructor
  · rintro ⟨answer, hanswer, hstatus, hbody⟩
    obtain ⟨result', hrun', hanswer⟩ := bind_eq_ok_iff.mp hanswer
    obtain ⟨⟨body, actualStatus⟩, hparse, hanswer⟩ := bind_eq_ok_iff.mp hanswer
    obtain rfl := Except.ok.inj (hrun.symm.trans hrun')
    obtain rfl := Except.ok.inj hanswer
    obtain rfl : actualStatus = s := hstatus
    exact ⟨body, hparse, hbody⟩
  · rintro ⟨body, hparse, hbody⟩
    refine ⟨answerOf py request result body s, ?_, rfl, hbody⟩
    unfold execute
    rw [hrun]
    change (parseResponse py result.stdout >>= fun parsed => _) = _
    rw [hparse]
    rfl

/-- **The answer is reported as it was exactly when its body is not mistaken for the status.** -/
theorem response_reported_iff (hint : py.int (Nat.toDigits 10 s) = .ok (s : ℤ))
    (hrun : run (command py request) = .ok result) (hout : result.stdout = curlOutput b s) :
    Reported b s (execute py run request) ↔ Unmistaken py b s := by
  rw [execute_reported_iff hrun, hout]
  unfold Unmistaken
  cases hparts : splitText httpCode b.toList with
  | nil => exact absurd hparts (splitText_ne_nil marker_ne_nil _)
  | cons front rest =>
    cases rest with
    | nil =>
      have hnone : (splitText httpCode b.toList)[1]? = none := by rw [hparts]; rfl
      rw [parseResponse_of_unmarked py hnone, hint]
      exact iff_of_true ⟨_, rfl, rfl⟩ nofun
    | cons text more =>
      rw [parseResponse_of_marked py hparts]
      simp only [List.getElem?_cons_succ, List.getElem?_cons_zero, Option.some.injEq, forall_eq',
        List.getD_cons_zero]
      rw [← take_strip_front_iff hparts]
      cases py.int (strip text) with
      | error e =>
        refine iff_of_false ?_ fun h => nomatch h.2
        rintro ⟨body, hbody, _⟩
        cases hbody
      | ok actualStatus =>
        constructor
        · rintro ⟨body, hbody, htext⟩
          obtain ⟨rfl, rfl⟩ := Prod.mk.inj (Except.ok.inj hbody)
          exact ⟨String.ofList_injective htext, rfl⟩
        · rintro ⟨htext, hstatus⟩
          obtain rfl := Except.ok.inj hstatus
          exact ⟨_, rfl, congrArg String.ofList htext⟩

/-- `int` of a text of decimal digits, and of no other. -/
def decimalInt (cs : List Char) : Except PyError ℤ :=
  if cs ≠ [] ∧ cs.all Char.isDigit then .ok (Nat.ofDigitChars 10 cs 0)
  else .error ⟨.valueError, "invalid literal for int() with base 10: '" ++ String.ofList cs ++ "'"⟩

theorem decimalInt_toDigits (n : ℕ) : decimalInt (Nat.toDigits 10 n) = .ok (n : ℤ) := by
  have hdigits : (Nat.toDigits 10 n).all Char.isDigit = true :=
    List.all_eq_true.mpr fun c hc => Nat.isDigit_of_mem_toDigits (by decide) (by decide) hc
  unfold decimalInt
  rw [if_pos ⟨Nat.toDigits_ne_nil, hdigits⟩, Nat.ofDigitChars_toDigits (by decide) (by decide)]

def sampleMethods : TextMethods := ⟨String.toUpper, decimalInt⟩

/-- A sandbox in which every request is answered with a body and a status. -/
def answering (b : String) (s : ℕ) (_command : String) : Except PyError SandboxResult :=
  .ok ⟨0, curlOutput b s, "", 0, "sandbox-1", "sandbox-1-x"⟩

def sampleRequest : Request where
  endpoint := "http://localhost/"

theorem response_reported_iff_plain : Reported "ok" 200 (execute sampleMethods (answering "ok" 200) sampleRequest) ↔
    Unmistaken sampleMethods "ok" 200 :=
  response_reported_iff (decimalInt_toDigits 200) rfl rfl

/-- A body that is the marker: the text between its marker and the one of `curl` is no number. -/
theorem marker_in_body_raises : ¬ ∀ (py : TextMethods) (run : String → Except PyError SandboxResult)
    (request : Request) (result : SandboxResult) (b : String) (s : ℕ),
    py.int (Nat.toDigits 10 s) = .ok (s : ℤ) → run (command py request) = .ok result →
      result.stdout = curlOutput b s → Reported b s (execute py run request) := by
  intro h
  obtain ⟨answer, hanswer, _⟩ := h sampleMethods (answering "HTTP_CODE:" 200) sampleRequest _ "HTTP_CODE:" 200
    (decimalInt_toDigits 200) rfl rfl
  obtain ⟨result, hrun, hanswer⟩ := bind_eq_ok_iff.mp hanswer
  obtain rfl := Except.ok.inj hrun
  obtain ⟨parsed, hparse, _⟩ := bind_eq_ok_iff.mp hanswer
  have hmarked : splitText httpCode "HTTP_CODE:".toList = [] :: [] :: [] := by decide
  rw [parseResponse_of_marked _ hmarked] at hparse
  cases hparse

end KernelRuntime.ApiTest
