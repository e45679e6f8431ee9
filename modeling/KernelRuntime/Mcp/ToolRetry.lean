import Mathlib.Data.List.TakeWhile
import KernelRuntime.Foundations.OrderedDict
import KernelRuntime.Mcp.StdioProtocol

/-! # The restart and retry of a tool call

`execute_tool` restarts its server and sends the call again after an `MCPProtocolError`. The error that
`_send_request` raises for an error answer, `MCPRequestError`, is a subclass of it. -/

namespace KernelRuntime.StdioExecution
open StdioProtocol
set_option autoImplicit false

/-! ## Servers and what they write -/

/-- What a read of the standard output of the server meets. -/
inductive Read where
  | line (text : Line)
  /-- A line that is longer than the limit of the stream. -/
  | overlong
  | closed
  | timedOut

/-- What a request meets: whether it is written, and what comes while it waits. With nothing left to
come, the read times out. -/
structure Conversation where
  written : Bool
  reads : List Read

/-- How far `_start_server` comes with a new process. -/
inductive Start where
  | notInitialized
  /-- The process has become `server.protocol`, but listing or registering its tools fails. -/
  | notListed
  | started
deriving DecidableEq

/-- What one call of `execute_tool` meets. -/
structure Environment where
  recovery : Start
  first : Conversation
  restart : Start
  second : Conversation

inductive ServerStatus where
  | starting
  | running
  | stopping
  | stopped
  | error
  | restarting
deriving DecidableEq

/-- `protocol` is the `_request_id` of `server.protocol`. -/
structure Server where
  status : ServerStatus
  protocol : Option ℕ
  totalCalls : ℕ := 0
  failedCalls : ℕ := 0
  restartCount : ℕ := 0
deriving DecidableEq

/-- A `JSONRPCRequest`. -/
structure Request where
  id : ℕ
  method : String
  params : Json
deriving DecidableEq

inductive Action where
  | request (request : Request)
  | restart
deriving DecidableEq

/-! ## Exceptions -/

/-- `MCPProtocolError`; `request` is its subclass `MCPRequestError`. -/
inductive ProtocolError where
  | timedOut
  | closed
  | noMatchingResponse
  | request (code message data : Json)

/-- What `call_tool` raises, by the `except` clause of `execute_tool` that takes it. -/
inductive CallError where
  | protocol (error : ProtocolError)
  | notWritten
  | undecodable
  | overlong
  | other (error : PyError)

inductive Raised where
  | notFound (serverName : String)
  | notRunning (serverName : String) (status : ServerStatus)
  | retryFailed (serverName : String) (error : CallError)
  | failed (error : CallError)

/-! ## Requests -/

/-- The exception for an `error` that is not null. -/
def requestError (error : Json) : CallError :=
  let error := if error.truthy then error else .obj []
  match error.getD "code" (.int (-32603)), error.getD "message" (.str "Unknown error"), error.getD "data" .null with
  | .ok code, .ok message, .ok data => .protocol (.request code message data)
  | .error e, _, _ => .other e
  | _, .error e, _ => .other e
  | _, _, .error e => .other e

/-- `_send_request` with the message that it takes for the answer. -/
def response (fields : Fields) : Except CallError Json :=
  if isError fields then .error (requestError (Fields.get fields "error"))
  else .ok (Fields.get fields "result")

/-- The loop of `_send_request`, which has skipped so many notifications. -/
def receive (skipped : ℕ) : List Read → Except CallError Json
  | [] => .error (.protocol .timedOut)
  | .timedOut :: _ => .error (.protocol .timedOut)
  | .closed :: _ => .error (.protocol .closed)
  | .overlong :: _ => .error .overlong
  | .line text :: rest =>
    match readLine text with
    | .undecodable => .error .undecodable
    | .noise => receive skipped rest
    | .message fields =>
      if hasKey fields "id" = false then
        if skipped + 1 < lineCap then receive (skipped + 1) rest
        else .error (.protocol .noMatchingResponse)
      else response fields

def toolsCall (id : ℕ) (toolName : String) (arguments : Json) : Request :=
  ⟨id, "tools/call", .obj [("name", .str toolName), ("arguments", arguments)]⟩

/-- `call_tool` on a server that has a protocol with this `_request_id`. -/
def callTool (conversation : Conversation) (server : Server) (requestId : ℕ) (toolName : String)
    (arguments : Json) : Except CallError Json × Server × List Action :=
  let server := { server with protocol := some (requestId + 1) }
  if conversation.written then
    (receive 0 conversation.reads, server, [.request (toolsCall (requestId + 1) toolName arguments)])
  else (.error .notWritten, server, [])

/-! ## Executing a tool -/

/-- `_restart_server`. A new protocol has sent `initialize` and `tools/list`. -/
def restartServer (start : Start) (server : Server) : Server :=
  let server := { server with restartCount := server.restartCount + 1 }
  match start with
  | .notInitialized => { server with status := .error }
  | .notListed => { server with status := .error, protocol := some 2 }
  | .started => { server with status := .running, protocol := some 2 }

/-- The `except MCPProtocolError` clause: the restart, and the second `call_tool`. -/
def restartAndRetry (env : Environment) (server : Server) (requestId : ℕ) (serverName toolName : String)
    (arguments : Json) : Except Raised Json × Server × List Action :=
  let server := restartServer env.restart { server with failedCalls := server.failedCalls + 1 }
  -- the protocol of a server that does not start is the old one
  let (result, server, actions) :=
    callTool env.second server (server.protocol.getD requestId) toolName arguments
  (result.mapError (Raised.retryFailed serverName), server, .restart :: actions)

/-- `execute_tool` from the check of the status on. -/
def executeRunning (env : Environment) (server : Server) (serverName toolName : String) (arguments : Json) :
    Except Raised Json × Server × List Action :=
  match server.status, server.protocol with
  | .running, some requestId =>
    let server := { server with totalCalls := server.totalCalls + 1 }
    let (result, server, actions) := callTool env.first server requestId toolName arguments
    match result with
    | .ok value => (.ok value, server, actions)
    | .error (.protocol _) =>
      let (result, server, retried) :=
        restartAndRetry env server (requestId + 1) serverName toolName arguments
      (result, server, actions ++ retried)
    | .error e => (.error (.failed e), { server with failedCalls := server.failedCalls + 1 }, actions)
  | status, _ => (.error (.notRunning serverName status), server, [])

/-- `execute_tool` on a server that is registered: one in `ERROR` is restarted first. -/
def executeRegistered (env : Environment) (server : Server) (serverName toolName : String)
    (arguments : Json) : Except Raised Json × Server × List Action :=
  if server.status = .error then
    let (result, server, actions) :=
      executeRunning env (restartServer env.recovery server) serverName toolName arguments
    (result, server, .restart :: actions)
  else executeRunning env server serverName toolName arguments

/-- `StdioMCPManager.execute_tool`: its result, the servers afterwards, and what was done to this one. -/
def executeTool (env : Environment) (servers : OrderedDict (String × String) Server)
    (tenantId serverName toolName : String) (arguments : Json) :
    Except Raised Json × OrderedDict (String × String) Server × List Action :=
  match servers.get? (tenantId, serverName) with
  | none => (.error (.notFound serverName), servers, [])
  | some server =>
    let (result, server, actions) := executeRegistered env server serverName toolName arguments
    (result, servers.set (tenantId, serverName) server, actions)

/-! ## What a request takes for its answer -/

/-- A message without an id. -/
def Read.isNotification : Read → Bool
  | .line text =>
    match readLine text with
    | .message fields => !hasKey fields "id"
    | _ => false
  | _ => false

def Read.passes : Read → Bool
  | .line text => decide (readLine text = .noise) || (Read.line text).isNotification
  | _ => false

/-- The read at which the loop ends, if the notifications before it are few enough. -/
def decisive (reads : List Read) : Option Read := (reads.dropWhile Read.passes).head?

def notifications (reads : List Read) : ℕ := (reads.takeWhile Read.passes).countP Read.isNotification

def decided : Option Read → Except CallError Json
  | none => .error (.protocol .timedOut)
  | some .timedOut => .error (.protocol .timedOut)
  | some .closed => .error (.protocol .closed)
  | some .overlong => .error .overlong
  | some (.line text) =>
    match readLine text with
    | .message fields => response fields
    | _ => .error .undecodable

theorem passes_line (text : Line) : (Read.line text).passes = true ↔
    readLine text = .noise ∨ ∃ fields, readLine text = .message fields ∧ hasKey fields "id" = false := by
  cases h : readLine text with
  | undecodable => simp [Read.passes, Read.isNotification, h]
  | noise => simp [Read.passes, h]
  | message fields => simp [Read.passes, Read.isNotification, h]

theorem decisive_cons_passes {r : Read} (h : r.passes = true) (rest : List Read) :
    decisive (r :: rest) = decisive rest := by
  rw [decisive, List.dropWhile_cons_of_pos h]
  rfl

theorem decisive_cons_stops {r : Read} (h : ¬r.passes = true) (rest : List Read) :
    decisive (r :: rest) = some r := by
  rw [decisive, List.dropWhile_cons_of_neg h]
  rfl

theorem notifications_cons_passes {r : Read} (h : r.passes = true) (rest : List Read) :
    notifications (r :: rest) = notifications rest + if r.isNotification then 1 else 0 := by
  rw [notifications, List.takeWhile_cons_of_pos h, List.countP_cons]
  rfl

theorem notifications_cons_stops {r : Read} (h : ¬r.passes = true) (rest : List Read) :
    notifications (r :: rest) = 0 := by
  rw [notifications, List.takeWhile_cons_of_neg h]
  rfl

/-- **The loop gives up after too many notifications, and otherwise does as the decisive read says.** -/
theorem receive_eq (reads : List Read) (skipped : ℕ) (hskipped : skipped < lineCap) :
    receive skipped reads = if skipped + notifications reads < lineCap then decided (decisive reads)
      else .error (.protocol .noMatchingResponse) := by
  induction reads generalizing skipped with
  | nil => simp [receive, notifications, decisive, decided, hskipped]
  | cons r rest ih =>
    by_cases hpass : r.passes = true
    · rw [decisive_cons_passes hpass, notifications_cons_passes hpass]
      cases r with
      | timedOut => cases hpass
      | closed => cases hpass
      | overlong => cases hpass
      | line text =>
        cases (passes_line text).mp hpass with
        | inl hnoise =>
          simp only [receive, hnoise, ih skipped hskipped, Read.isNotification, Bool.false_eq_true, if_false,
            Nat.add_zero]
        | inr hnotification =>
          obtain ⟨fields, hmessage, hid⟩ := hnotification
          simp only [receive, hmessage, hid, Read.isNotification, Bool.not_false, if_true]
          by_cases hmore : skipped + 1 < lineCap
          · rw [if_pos hmore, ih (skipped + 1) hmore]
            have hsum : skipped + 1 + notifications rest = skipped + (notifications rest + 1) := by omega
            rw [hsum]
          · have hfull : ¬skipped + (notifications rest + 1) < lineCap := by omega
            rw [if_neg hmore, if_neg hfull]
    · rw [decisive_cons_stops hpass, notifications_cons_stops hpass, Nat.add_zero, if_pos hskipped]
      cases r with
      | timedOut => rfl
      | closed => rfl
      | overlong => rfl
      | line text =>
        rw [passes_line, not_or] at hpass
        cases hline : readLine text with
        | undecodable => simp only [receive, decided, hline]
        | noise => exact absurd hline hpass.1
        | message fields =>
          have hid : ¬hasKey fields "id" = false := fun h => hpass.2 ⟨fields, hline, h⟩
          simp only [receive, decided, hline, if_neg hid]

/-! ## Errors that count as a broken protocol -/

/-- The message makes `_send_request` raise `MCPRequestError`. A text or a list as its error has no `get`. -/
def IsErrorAnswer (fields : Fields) : Prop :=
  Fields.get fields "error" ≠ .null ∧
    ((Fields.get fields "error").truthy = true → (Fields.get fields "error").isObject = true)

/-- The first line that is a message with an id is an error answer. -/
def AnsweredByError (reads : List Read) : Prop := ∃ text fields,
  decisive reads = some (.line text) ∧ readLine text = .message fields ∧ IsErrorAnswer fields

theorem requestError_protocol_iff (error : Json) : (∃ e, requestError error = .protocol e) ↔
    (error.truthy = true → error.isObject = true) := by
  by_cases htruthy : error.truthy = true
  · cases error with
    | obj fields => simp [requestError, htruthy, Json.getD, Json.isObject]
    | null => cases htruthy
    | bool b => simp [requestError, htruthy, Json.getD, Json.isObject]
    | int n => simp [requestError, htruthy, Json.getD, Json.isObject]
    | float x => simp [requestError, htruthy, Json.getD, Json.isObject]
    | str text => simp [requestError, htruthy, Json.getD, Json.isObject]
    | arr items => simp [requestError, htruthy, Json.getD, Json.isObject]
  · simp [requestError, htruthy, Json.getD]

theorem response_protocol_iff (fields : Fields) : (∃ e, response fields = .error (.protocol e)) ↔
    IsErrorAnswer fields := by
  unfold response IsErrorAnswer
  by_cases herror : isError fields = true
  · have hne : Fields.get fields "error" ≠ .null := of_decide_eq_true herror
    simp only [herror, if_true, Except.error.injEq, hne, ne_eq, not_false_eq_true, true_and]
    exact requestError_protocol_iff _
  · have hnull : Fields.get fields "error" = .null := by simpa [isError] using herror
    simp [herror, hnull]

/-- A well-formed response: a result, or an object as its error. -/
def WellFormed (fields : Fields) : Prop :=
  hasKey fields "id" = true ∧ ((hasKey fields "result" = true ∧ Fields.get fields "error" = .null) ∨
    (Fields.get fields "error").isObject = true)

/-- The server writes a well-formed response before it closes its output and before the request gives up
waiting for a line. -/
def Answered (reads : List Read) : Prop := ∃ before text after fields,
  reads = before ++ .line text :: after ∧ Read.closed ∉ before ∧ Read.timedOut ∉ before ∧
    readLine text = .message fields ∧ WellFormed fields

theorem decisive_of_answered {reads : List Read} (h : Answered reads) :
    ∃ r, decisive reads = some r ∧ r ≠ .closed ∧ r ≠ .timedOut := by
  obtain ⟨before, text, after, fields, rfl, hclosed, htimedOut, hline, hid, -⟩ := h
  have hanswer : ¬(Read.line text).passes = true := by
    rw [passes_line, hline]
    simp [hid]
  induction before with
  | nil =>
    exact ⟨.line text, decisive_cons_stops hanswer after, nofun, nofun⟩
  | cons r rest ih =>
    by_cases hpass : r.passes = true
    · rw [List.cons_append, decisive_cons_passes hpass]
      exact ih (List.not_mem_of_not_mem_cons hclosed) (List.not_mem_of_not_mem_cons htimedOut)
    · exact ⟨r, decisive_cons_stops hpass _, fun h => hclosed (h ▸ List.mem_cons_self),
        fun h => htimedOut (h ▸ List.mem_cons_self)⟩

/-- An answered request ends in an `MCPProtocolError` for the notifications before it or for an error answer. -/
theorem receive_protocol_iff {reads : List Read} (h : Answered reads) :
    (∃ e, receive 0 reads = .error (.protocol e)) ↔ lineCap ≤ notifications reads ∨ AnsweredByError reads := by
  rw [receive_eq reads 0 (by decide), Nat.zero_add]
  by_cases hfew : notifications reads < lineCap
  · rw [if_pos hfew, or_iff_right (not_le.mpr hfew)]
    obtain ⟨r, hr, hclosed, htimedOut⟩ := decisive_of_answered h
    unfold AnsweredByError
    rw [hr]
    cases r with
    | closed => exact absurd rfl hclosed
    | timedOut => exact absurd rfl htimedOut
    | overlong => simp [decided]
    | line text =>
      cases hline : readLine text with
      | undecodable => simp [decided, hline]
      | noise => simp [decided, hline]
      | message fields => simp [decided, hline, response_protocol_iff]
  · rw [if_neg hfew]
    exact iff_of_true ⟨_, rfl⟩ (Or.inl (not_lt.mp hfew))

/-! ## What one call does to its server -/

def Action.isCall : Action → Bool
  | .request r => decide (r.method = "tools/call")
  | .restart => false

section Execute
variable {env : Environment} {server : Server} {serverName toolName : String} {arguments : Json}

theorem callTool_written {conversation : Conversation} (h : conversation.written = true) (requestId : ℕ) :
    callTool conversation server requestId toolName arguments =
      (receive 0 conversation.reads, { server with protocol := some (requestId + 1) },
        [.request (toolsCall (requestId + 1) toolName arguments)]) := if_pos h

section Running
variable (hstatus : server.status = .running) {requestId : ℕ} (hprotocol : server.protocol = some requestId)
  (hwritten : env.first.written = true)
include hstatus hprotocol hwritten

theorem executeRunning_restarts (h : ∃ e, receive 0 env.first.reads = .error (.protocol e)) :
    .restart ∈ (executeRunning env server serverName toolName arguments).2.2 := by
  obtain ⟨e, he⟩ := h
  have hretried : .restart ∈ (restartAndRetry env { server with
      totalCalls := server.totalCalls + 1, protocol := some (requestId + 1) } (requestId + 1) serverName toolName
      arguments).2.2 := List.mem_cons_self
  unfold executeRunning
  simp only [hstatus, hprotocol, callTool_written hwritten, he]
  exact List.mem_cons_of_mem _ hretried

theorem executeRunning_once (h : ¬∃ e, receive 0 env.first.reads = .error (.protocol e)) :
    (executeRunning env server serverName toolName arguments).2.2 =
      [.request (toolsCall (requestId + 1) toolName arguments)] := by
  unfold executeRunning
  simp only [hstatus, hprotocol, callTool_written hwritten]
  cases hresult : receive 0 env.first.reads with
  | ok value => rfl
  | error e =>
    cases e with
    | protocol e => exact absurd ⟨e, hresult⟩ h
    | notWritten => rfl
    | undecodable => rfl
    | overlong => rfl
    | other e => rfl

end Running

/-- The call comes to its request: the server runs, or is restarted because it is in `ERROR`. -/
def Reaches (env : Environment) (server : Server) : Prop :=
  (server.status = .running ∧ server.protocol ≠ none) ∨ (server.status = .error ∧ env.recovery = .started)

end Execute

/-- **A call that is answered is sent once, without a restart, exactly when its server was not in `ERROR`,
fewer than fifty notifications come first, and the answer is not an error.** -/
theorem executeTool_sentOnce_iff (env : Environment) (servers : OrderedDict (String × String) Server)
    (tenantId serverName toolName : String) (arguments : Json) (server : Server)
    (hserver : servers.get? (tenantId, serverName) = some server) (hreaches : Reaches env server)
    (hwritten : env.first.written = true) (hanswered : Answered env.first.reads) :
    ((executeTool env servers tenantId serverName toolName arguments).2.2.countP Action.isCall = 1 ∧
        .restart ∉ (executeTool env servers tenantId serverName toolName arguments).2.2) ↔
      server.status ≠ .error ∧ notifications env.first.reads < lineCap ∧ ¬AnsweredByError env.first.reads := by
  have hactions : (executeTool env servers tenantId serverName toolName arguments).2.2 =
      (executeRegistered env server serverName toolName arguments).2.2 := by
    unfold executeTool
    rw [hserver]
  rw [hactions]
  cases hreaches with
  | inr hrecovers =>
    have hrestarted : .restart ∈ (executeRegistered env server serverName toolName arguments).2.2 := by
      rw [executeRegistered, if_pos hrecovers.1]
      exact List.mem_cons_self
    exact iff_of_false (fun h => h.2 hrestarted) fun h => h.1 hrecovers.1
  | inl hruns =>
    obtain ⟨hstatus, hprotocol⟩ := hruns
    obtain ⟨requestId, hprotocol⟩ := Option.ne_none_iff_exists'.mp hprotocol
    have hne : server.status ≠ .error := by simp [hstatus]
    have hiff := receive_protocol_iff hanswered
    rw [executeRegistered, if_neg hne, and_iff_right hne]
    by_cases hbroken : ∃ e, receive 0 env.first.reads = .error (.protocol e)
    · have hrestarts : .restart ∈ (executeRunning env server serverName toolName arguments).2.2 :=
        executeRunning_restarts hstatus hprotocol hwritten hbroken
      refine iff_of_false (fun h => h.2 hrestarts) fun h => ?_
      exact (hiff.mp hbroken).elim (fun hmany => absurd h.1 (not_lt.mpr hmany)) h.2
    · rw [executeRunning_once hstatus hprotocol hwritten hbroken]
      rw [hiff, not_or, not_le] at hbroken
      refine iff_of_true ⟨rfl, ?_⟩ hbroken
      simp

/-! ## An error answer -/

def deployServers : OrderedDict (String × String) Server :=
  ⟨[(("acme", "deploy"), { status := .running, protocol := some 2 })], by simp⟩

/-- The answer to the request with the id 3, after a line of a log. -/
def refused : List Read :=
  [.line (some "deploying\n"), .line (some ("\x7b\"jsonrpc\": \"2.0\", \"id\": 3, \"error\": " ++
    "\x7b\"code\": -32000, \"message\": \"smoke test failed\"\x7d\x7d\n"))]

def accepted (id : ℕ) : List Read := [.line (reply id "deployed")]

/-- The answer of the first request is `reads`; a restarted server accepts the second one. -/
def deployEnv (reads : List Read) : Environment := ⟨.started, ⟨true, reads⟩, .started, ⟨true, accepted 3⟩⟩

theorem accepted_answered : Answered (deployEnv (accepted 3)).first.reads :=
  ⟨[], reply 3 "deployed", [], [("jsonrpc", .str "2.0"), ("id", .int 3), ("result", .str "deployed")], rfl,
    nofun, nofun, by decide +kernel, by decide, Or.inl ⟨by decide, by decide⟩⟩

theorem executeTool_sentOnce_iff_accepted :
    ((executeTool (deployEnv (accepted 3)) deployServers "acme" "deploy" "release" (.obj [])).2.2.countP
        Action.isCall = 1 ∧
      .restart ∉ (executeTool (deployEnv (accepted 3)) deployServers "acme" "deploy" "release" (.obj [])).2.2) ↔
    ServerStatus.running ≠ .error ∧ notifications (accepted 3) < lineCap ∧ ¬AnsweredByError (accepted 3) :=
  executeTool_sentOnce_iff (deployEnv (accepted 3)) deployServers "acme" "deploy" "release" (.obj [])
    { status := .running, protocol := some 2 } (by decide) (Or.inl ⟨rfl, nofun⟩) rfl accepted_answered

/-- The tool that reports an error runs a second time. -/
theorem refused_call_repeated : ¬ ∀ (env : Environment) (servers : OrderedDict (String × String) Server)
    (tenantId serverName toolName : String) (arguments : Json) (server : Server),
    servers.get? (tenantId, serverName) = some server → Reaches env server → env.first.written = true →
      Answered env.first.reads →
        (executeTool env servers tenantId serverName toolName arguments).2.2.countP Action.isCall = 1 ∧
          .restart ∉ (executeTool env servers tenantId serverName toolName arguments).2.2 := by
  intro h
  have hanswered : Answered refused :=
    ⟨[.line (some "deploying\n")], _, [], [("jsonrpc", .str "2.0"), ("id", .int 3),
      ("error", .obj [("code", .int (-32000)), ("message", .str "smoke test failed")])], rfl, by simp, by simp,
      by decide +kernel, by decide, Or.inr (by decide)⟩
  have honce := h (deployEnv refused) deployServers "acme" "deploy" "release" (.obj [])
    { status := .running, protocol := some 2 } (by decide) (Or.inl ⟨rfl, nofun⟩) rfl hanswered
  have htwice : (executeTool (deployEnv refused) deployServers "acme" "deploy" "release" (.obj [])).2.2.countP
      Action.isCall = 2 := by
    decide +kernel
  omega

end KernelRuntime.StdioExecution
