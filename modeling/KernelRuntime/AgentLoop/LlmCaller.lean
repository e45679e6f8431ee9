import KernelRuntime.AgentLoop.ResponseParser

/-! # The model call

`call_llm_and_stream` calls the provider, collects the streamed deltas and hands the response to
`process_response`. Whatever is raised while the stream is read or the response processed ends the
task with an error message. -/

namespace KernelRuntime.AgentLoop
set_option autoImplicit false

structure ToolCallDelta where
  index : ℤ
  id : Option String
  type : Option String
  name : Option String
  arguments : Option String
deriving DecidableEq

structure Delta where
  reasoningContent : Option String
  content : Option String
  toolCalls : List ToolCallDelta
deriving DecidableEq

/-- How the call of the provider ends. A chunk without choices or delta is `none`; a stream may
break with an exception after its chunks. -/
inductive ProviderReply where
  | circuitOpen
  | failed (message : String)
  | stream (chunks : List (Option Delta)) (failure : Option String)
deriving DecidableEq

/-- `collected_content` and `tool_calls_dict`. -/
structure Collected where
  content : List String
  toolCalls : List (ℤ × ToolCall)
deriving DecidableEq

/-- A call is opened by its first delta, and later ones are appended to it. -/
def addToolCall (toolCalls : List (ℤ × ToolCall)) (tc : ToolCallDelta) : List (ℤ × ToolCall) :=
  let call := (toolCalls.lookup tc.index).getD ⟨tc.id, tc.type, "", ""⟩
  assocSet tc.index
    { call with name := call.name ++ tc.name.getD "", arguments := call.arguments ++ tc.arguments.getD "" }
    toolCalls

def Collected.add (c : Collected) (delta : Delta) : Collected where
  content := c.content ++ (truthyText delta.content).toList
  toolCalls := delta.toolCalls.foldl addToolCall c.toolCalls

def publishText (taskId : Option String) (entry : String → LogEvent) (text : Option String) :
    Handler Unit :=
  match truthyText text with
  | some s => publishLog taskId (entry s)
  | none => return ()

/-- The body of the loop over the stream. -/
def readChunk (taskId : Option String) (c : Collected) (chunk : Option Delta) : Handler Collected :=
  match chunk with
  | none => return c
  | some delta => do
    publishText taskId .reasoning delta.reasoningContent
    publishText taskId .token delta.content
    return c.add delta

def readStream (taskId : Option String) : Collected → List (Option Delta) → Handler Collected
  | c, [] => return c
  | c, chunk :: chunks => do
    let c ← readChunk taskId c chunk
    readStream taskId c chunks

def streamingError (message : String) : String :=
  "⚠️ LLM Streaming Error: " ++ String.ofList (message.toList.take 500)

/-- The `except` clause of the streaming block. -/
def reportStreamError (env : Env) (target : Target) (message : String) : Handler Unit := do
  publishLog target.taskId (.text ("\r\n\x1b[38;5;196m" ++ streamingError message ++ "\x1b[0m\r\n"))
  finishWith env target (streamingError message)

/-- The streaming block. -/
def streamResponse (env : Env) (target : Target) (chunks : List (Option Delta))
    (failure : Option String) : Handler Unit :=
  tryCatch
    (do
      let c ← readStream target.taskId ⟨[], []⟩ chunks
      match failure with
      | some message => throw ⟨.other, message⟩
      | none => processResponse env target c.content (c.toolCalls.map Prod.snd))
    (fun e => reportStreamError env target e.message)

def configError : String :=
  "\x1b[38;5;196m[CONFIG ERROR]\x1b[0m No API key configured.\r\n" ++
    "Click the ⚙ Settings icon to configure your LLM provider.\r\n"

def circuitBreakerOpen : String :=
  "\x1b[38;5;196m[CIRCUIT BREAKER OPEN]\x1b[0m LLM service temporarily unavailable."

def llmError (message : String) : String :=
  "⚠️ LLM Error: " ++ String.ofList (message.toList.take 500)

/-- The conversation goes out to the provider. -/
def recordCall (call : LlmCall) : Handler Unit :=
  modify fun w => { w with llmCalls := w.llmCalls ++ [call] }

/-- The part of the model name after its last slash. -/
def lastSegment : List Char → List Char → List Char
  | name, [] => name
  | name, c :: cs => if c = '/' then lastSegment [] cs else lastSegment (name ++ [c]) cs

/-- `llm_config["model"].split("/")[-1]`. -/
def modelLabel (model : Json) : Handler String :=
  match model with
  | .str s => return String.ofList (lastSegment [] s.toList)
  | v => throw ⟨.attributeError, "'" ++ v.typeName ++ "' object has no attribute 'split'"⟩

/-- What follows the call of the provider. -/
def receiveReply (env : Env) (target : Target) (messages : List ContextEntry) (model : Json) :
    ProviderReply → Handler Unit
  | .circuitOpen => do
    publishLog target.taskId (.text circuitBreakerOpen)
    finishWith env target circuitBreakerOpen
  | .failed message => do
    recordCall ⟨target.taskId, messages⟩
    publishLog target.taskId (.text ("\x1b[38;5;196m" ++ llmError message ++ "\x1b[0m\r\n"))
    finishWith env target (llmError message)
  | .stream chunks failure => do
    recordCall ⟨target.taskId, messages⟩
    let label ← modelLabel model
    publishLog target.taskId (.text ("\x1b[38;5;46m[" ++ label ++ "] Thinking...\x1b[0m\r\n"))
    streamResponse env target chunks failure

def callLlmAndStream (env : Env) (target : Target) (messages : List ContextEntry)
    (config : ConfigLoader.LlmConfig) (reply : ProviderReply) : Handler Unit := do
  if config.apiKey.truthy then
    publishLog target.taskId (.status "thinking" "Generating...")
    receiveReply env target messages config.model reply
  else
    publishLog target.taskId (.text configError)
    finishWith env target "⚠️ No API key configured."

/-! ## The stream -/

/-- What the stream adds up to. -/
def collect (chunks : List (Option Delta)) : Collected :=
  chunks.foldl (fun c chunk => (chunk.map c.add).getD c) ⟨[], []⟩

/-- The calls of the reply. -/
def ProviderReply.calls : ProviderReply → List ToolCall
  | .stream chunks none => (collect chunks).toolCalls.map Prod.snd
  | _ => []

/-- Only entries of the task's log are added, and none ends the task. -/
def World.Streamed (w w' : World) (taskId : Option String) : Prop :=
  ∃ es : List LogEvent, LogEvent.taskResolved ∉ es ∧ w' = w.logAll taskId es

theorem World.Streamed.refl (w : World) (taskId : Option String) : w.Streamed w taskId :=
  ⟨[], List.not_mem_nil, by simp [World.logAll]⟩

theorem World.Streamed.trans {w w' w'' : World} {taskId : Option String} (h : w.Streamed w' taskId)
    (h' : w'.Streamed w'' taskId) : w.Streamed w'' taskId := by
  obtain ⟨es, hes, rfl⟩ := h
  obtain ⟨es', hes', rfl⟩ := h'
  refine ⟨es ++ es', fun hmem => ?_, by simp [World.logAll]⟩
  rcases List.mem_append.mp hmem with hmem | hmem
  · exact hes hmem
  · exact hes' hmem

theorem World.streamed_log (w : World) (taskId : Option String) {e : LogEvent} (he : e ≠ .taskResolved) :
    w.Streamed (w.log taskId e) taskId :=
  ⟨[e], fun h => he (List.mem_singleton.mp h).symm, rfl⟩

theorem publishText_run (taskId : Option String) (entry : String → LogEvent)
    (hentry : ∀ s, entry s ≠ .taskResolved) (text : Option String) (w : World) :
    ∃ w', publishText taskId entry text w = .ok () w' ∧ w.Streamed w' taskId := by
  unfold publishText
  cases truthyText text with
  | none => exact ⟨w, rfl, .refl w taskId⟩
  | some s => exact ⟨_, rfl, w.streamed_log taskId (hentry s)⟩

theorem readChunk_run (taskId : Option String) (c : Collected) (chunk : Option Delta) (w : World) :
    ∃ w', readChunk taskId c chunk w = .ok ((chunk.map c.add).getD c) w' ∧ w.Streamed w' taskId := by
  cases chunk with
  | none => exact ⟨w, rfl, .refl w taskId⟩
  | some delta =>
    obtain ⟨w₁, hrun₁, h₁⟩ :=
      publishText_run taskId .reasoning (fun _ h => by cases h) delta.reasoningContent w
    obtain ⟨w₂, hrun₂, h₂⟩ := publishText_run taskId .token (fun _ h => by cases h) delta.content w₁
    refine ⟨w₂, ?_, h₁.trans h₂⟩
    show (publishText taskId .reasoning delta.reasoningContent >>= _) w = _
    rw [bind_run, hrun₁]
    simp only
    rw [bind_run, hrun₂]
    rfl

theorem readStream_run (taskId : Option String) (c : Collected) (chunks : List (Option Delta))
    (w : World) : ∃ w', readStream taskId c chunks w =
      .ok (chunks.foldl (fun c chunk => (chunk.map c.add).getD c) c) w' ∧ w.Streamed w' taskId := by
  induction chunks generalizing c w with
  | nil => exact ⟨w, rfl, .refl w taskId⟩
  | cons chunk chunks ih =>
    obtain ⟨w₁, hrun₁, h₁⟩ := readChunk_run taskId c chunk w
    obtain ⟨w₂, hrun₂, h₂⟩ := ih ((chunk.map c.add).getD c) w₁
    refine ⟨w₂, ?_, h₁.trans h₂⟩
    unfold readStream
    rw [bind_run, hrun₁]
    exact hrun₂

end KernelRuntime.AgentLoop
