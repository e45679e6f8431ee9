import KernelRuntime.AgentLoop.World
import KernelRuntime.Foundations.Execution
import KernelRuntime.Foundations.JsonEncoder
import KernelRuntime.Foundations.RegexScan
import KernelRuntime.Foundations.Utf8

/-! # The stream of a task in the chat

What the workers publish on `task_log:<task_id>` goes through the queue of a listener and a socket to `streamTask`, which
collects it in two buffers and writes them into the last message of the chat, at once or when a timer fires. Of the
broker and the server there is what belongs to one socket. The activity rail is left out. -/

namespace KernelRuntime.Ui
open AgentLoop (LogEvent)
set_option autoImplicit false

/-! ## The bridge -/

/-- What is sent over the socket: a dictionary as JSON, or a text. -/
inductive Frame where
  | json (event : LogEvent)
  | text (raw : List Char)
deriving DecidableEq

/-- One byte in `repr`. -/
def reprByte (quote : Char) (byte : ℕ) : List Char :=
  let c := Char.ofNat byte
  if c = quote ∨ c = '\\' then ['\\', c]
  else if c = '\t' then ['\\', 't']
  else if c = '\n' then ['\\', 'n']
  else if c = '\r' then ['\\', 'r']
  else if byte < 0x20 ∨ 0x7f ≤ byte then
    ['\\', 'x', Encoder.hexChar (byte / 16), Encoder.hexChar (byte % 16)]
  else [c]

/-- `str(data)` of bytes. -/
def reprBytes (bytes : List UInt8) : List Char :=
  let codes := bytes.map UInt8.toNat
  let quote := if 39 ∈ codes ∧ 34 ∉ codes then '"' else '\''
  'b' :: quote :: (codes.flatMap (reprByte quote) ++ [quote])

/-- `stream_handler`. The dictionaries of the log name no tenant, and bytes are printed. -/
def streamHandler : LogEvent → Frame
  | .text text => .text (reprBytes (encodeUtf8 text))
  | event => .json event

/-! ## The messages -/

inductive ChatRole where
  | user
  | assistant
  | tool
  | system
deriving DecidableEq

structure RunningCall where
  name : String
  arguments : String
deriving DecidableEq

structure Msg where
  role : ChatRole
  content : List Char
  streaming : Bool
  reasoning : Option (List Char)
  toolCalls : List RunningCall
deriving DecidableEq

/-- `p.map((m, i) => i === p.length - 1 ? f(m) : m)`. -/
def updateLast (f : Msg → Msg) : List Msg → List Msg
  | [] => []
  | [m] => [f m]
  | m :: n :: ms => m :: updateLast f (n :: ms)

/-- `{ ...m, streaming: false }`, if it is streaming. -/
def Msg.finished (m : Msg) : Msg := if m.streaming then { m with streaming := false } else m

/-- The length of `\x1b\[[0-9;]*m` at the beginning of a text. -/
def ansiLength : List Char → Option ℕ
  | c :: d :: cs =>
    let n := (cs.takeWhile fun e => e.isDigit || decide (e = ';')).length
    if c = Char.ofNat 0x1b ∧ d = '[' ∧ cs[n]? = some 'm' then some (n + 3) else none
  | _ => none

theorem ansiLength_bounds {s : List Char} {n : ℕ} (h : ansiLength s = some n) : 0 < n ∧ n ≤ s.length := by
  unfold ansiLength at h
  split at h
  · simp only at h
    split_ifs at h with hmatch
    cases h
    have hbehind := (List.getElem?_eq_some_iff.mp hmatch.2.2).1
    simp only [List.length_cons]
    omega
  · cases h

def ansiRegex : Matcher Char Unit where
  matchAt _ s := (ansiLength s).map fun n => (n, ())
  pos := by
    intro _ s n b h
    obtain ⟨k, hk, heq⟩ := Option.map_eq_some_iff.mp h
    cases heq
    exact (ansiLength_bounds hk).1
  le := by
    intro _ s n b h
    obtain ⟨k, hk, heq⟩ := Option.map_eq_some_iff.mp h
    cases heq
    exact (ansiLength_bounds hk).2

def stripAnsi (raw : List Char) : List Char := ansiRegex.replace (fun _ _ => []) none raw

/-- What `trim` drops. -/
def jsWhitespace (c : Char) : Bool :=
  decide (c.toNat ∈ [9, 10, 11, 12, 13, 32, 0xa0, 0x1680, 0x2028, 0x2029, 0x202f, 0x205f, 0x3000, 0xfeff]) ||
    decide (0x2000 ≤ c.toNat ∧ c.toNat ≤ 0x200a)

/-! ## The socket -/

/-- `readyState`, with the state in which the close event was handled. -/
inductive Phase where
  | connecting
  | opened
  | closing
  | closed
deriving DecidableEq

/-- The queue of the listener, what is on its way, the chat, and the variables of `streamTask`. `published` and `received`
record what was published since the listener subscribed, and what `onmessage` was called with. -/
structure Chat where
  listening : Bool
  inbox : List LogEvent
  frames : List Frame
  phase : Phase
  msgs : List Msg
  contentBuffer : List Char
  reasoningBuffer : List Char
  renderQueued : Bool
  timers : ℕ
  streaming : Bool
  published : List LogEvent
  received : List Frame

/-- `new WebSocket(...)`, in a chat with these messages. -/
def Chat.start (msgs : List Msg) (streaming : Bool) : Chat :=
  ⟨false, [], [], .connecting, msgs, [], [], false, 0, streaming, [], []⟩

/-- `reasoningBuffer || m.reasoning`. -/
def Msg.reasoningOr (m : Msg) (reasoningBuffer : List Char) : Option (List Char) :=
  if reasoningBuffer = [] then m.reasoning else some reasoningBuffer

/-- What a flush writes into a message. -/
def Msg.flushed (m : Msg) (content reasoning : List Char) : Msg :=
  { m with content := content, reasoning := m.reasoningOr reasoning }

namespace Chat
variable (c : Chat)

def flushAssistant : Chat :=
  { c with
    renderQueued := false
    msgs := updateLast (fun m => if m.streaming then m.flushed c.contentBuffer c.reasoningBuffer else m) c.msgs }

def scheduleFlush : Chat := if c.renderQueued then c else { c with renderQueued := true, timers := c.timers + 1 }

/-- The end of `onmessage`. -/
def showContent : Chat :=
  if c.contentBuffer.all jsWhitespace then c
  else { c with msgs := updateLast (fun m => if m.streaming then { m with content := c.contentBuffer } else m) c.msgs }

def addToolCall (name args : String) : Chat :=
  { c with msgs := updateLast (fun m => { m with toolCalls := m.toolCalls ++ [⟨name, args⟩] }) c.msgs }

def onOpen : Chat :=
  { c with phase := .opened, streaming := true, msgs := c.msgs ++ [⟨.assistant, [], true, none, []⟩] }

/-- A resolved task closes the socket; a call that needs an approval asks for the history, which comes later. -/
def onMessage : Frame → Chat
  | .json .taskResolved => { c with phase := .closing }
  | .json (.status status _) => if status = "thinking" then c else c.showContent
  | .json (.reasoning text) => { c with reasoningBuffer := c.reasoningBuffer ++ text.toList }.scheduleFlush
  | .json (.token text) => { c with contentBuffer := c.contentBuffer ++ text.toList }.scheduleFlush
  | .json (.toolStart name args) => c.addToolCall name args
  | .json (.toolExecuting name) => c.addToolCall name ""
  | .json (.toolApprovalRequired _) => { c with streaming := false }
  | .json (.toolDone _ _) => c.showContent
  | .json (.text _) => c.showContent
  | .text raw => { c with contentBuffer := c.contentBuffer ++ stripAnsi raw }.showContent

def onClose : Chat :=
  let c := if c.renderQueued then c.flushAssistant else c
  { c with phase := .closed, streaming := false, msgs := c.msgs.map Msg.finished }

end Chat

/-! ## Steps -/

inductive ChatLabel where
  | listen
  | publish (event : LogEvent)
  | send
  | opened
  | receive
  | timer
  | error
  | close
  | append (m : Msg)
  | replace (ms : List Msg)
deriving DecidableEq

/-- Who runs next: a worker, the listener, or a task of the browser. The socket also closes when the connection is lost. -/
def chatStep (c : Chat) : ChatLabel → Option Chat
  | .listen => if c.listening then none else some { c with listening := true }
  | .publish event =>
    if c.listening then some { c with inbox := c.inbox ++ [event], published := c.published ++ [event] } else some c
  | .send =>
    match c.inbox with
    | event :: inbox => some { c with inbox := inbox, frames := c.frames ++ [streamHandler event] }
    | [] => none
  | .opened => if c.phase = .connecting then some c.onOpen else none
  | .receive =>
    match c.phase, c.frames with
    | .opened, frame :: frames => some ({ c with frames := frames, received := c.received ++ [frame] }.onMessage frame)
    | _, _ => none
  | .timer => if c.timers = 0 then none else some { c with timers := c.timers - 1 }.flushAssistant
  | .error => some { c with streaming := false }
  | .close => if c.phase = .closed then none else some c.onClose
  | .append m => some { c with msgs := c.msgs ++ [m] }
  | .replace ms => some { c with msgs := ms }

/-! ## Texts that are not JSON -/

theorem escape_ne_hexChar : ∀ n < 16, Char.ofNat 0x1b ≠ Encoder.hexChar n := by decide

theorem escape_ne_printable : ∀ n < 95, Char.ofNat 0x1b ≠ Char.ofNat (n + 0x20) := by decide

theorem escape_not_mem_reprByte {quote : Char} (hquote : Char.ofNat 0x1b ≠ quote) {byte : ℕ} (hbyte : byte < 256) :
    Char.ofNat 0x1b ∉ reprByte quote byte := by
  have hback : Char.ofNat 0x1b ≠ '\\' := by decide
  unfold reprByte
  simp only
  split_ifs with hescaped
  · simp only [List.mem_cons, List.not_mem_nil, or_false, not_or]
    obtain heq | heq := hescaped
    · exact ⟨hback, heq ▸ hquote⟩
    · exact ⟨hback, heq ▸ hback⟩
  · decide
  · decide
  · decide
  · simp only [List.mem_cons, List.not_mem_nil, or_false, not_or]
    exact ⟨hback, by decide, escape_ne_hexChar _ (by omega), escape_ne_hexChar _ (by omega)⟩
  · have hprintable := escape_ne_printable (byte - 0x20) (by omega)
    rw [Nat.sub_add_cancel (by omega)] at hprintable
    exact fun hmem => hprintable (List.mem_singleton.mp hmem)

theorem escape_not_mem_reprBytes (bytes : List UInt8) : Char.ofNat 0x1b ∉ reprBytes bytes := by
  have hquoted : ∀ {quote : Char}, Char.ofNat 0x1b ≠ quote →
      Char.ofNat 0x1b ∉ 'b' :: quote :: ((bytes.map UInt8.toNat).flatMap (reprByte quote) ++ [quote]) := by
    intro quote hquote hmem
    obtain hb | hmem := List.mem_cons.mp hmem
    · exact absurd hb (by decide)
    obtain hq | hmem := List.mem_cons.mp hmem
    · exact hquote hq
    obtain hbody | hlast := List.mem_append.mp hmem
    · obtain ⟨byte, hbyte, hescape⟩ := List.mem_flatMap.mp hbody
      obtain ⟨b, -, rfl⟩ := List.mem_map.mp hbyte
      exact escape_not_mem_reprByte hquote b.toNat_lt hescape
    · exact hquote (List.mem_singleton.mp hlast)
  unfold reprBytes
  simp only
  split_ifs
  · exact hquoted (by decide)
  · exact hquoted (by decide)

theorem stripAnsi_eq_self {raw : List Char} (h : Char.ofNat 0x1b ∉ raw) : stripAnsi raw = raw := by
  refine Matcher.replace_eq_self ?_
  generalize (none : Option Char) = prev
  induction raw generalizing prev with
  | nil => rfl
  | cons c cs ih =>
    obtain ⟨hc, hcs⟩ := not_or.mp (mt List.mem_cons.mpr h)
    have hmiss : ansiRegex.matchAt prev (c :: cs) = none := by
      refine Option.map_eq_none_iff.mpr ?_
      cases cs with
      | nil => rfl
      | cons d ds => exact if_neg fun hmatch => hc hmatch.1.symm
    rw [Matcher.hits, Matcher.cut_miss hmiss]
    exact ih hcs (some c)

/-! ## What the bubble shows -/

/-- What a frame adds to the answer. Bytes are shown as they were printed. -/
def shownText : Frame → List Char
  | .json (.token text) => text.toList
  | .text raw => raw
  | _ => []

def shownReasoning : Frame → List Char
  | .json (.reasoning text) => text.toList
  | _ => []

/-- Other messages stay as they are. -/
def ChatLabel.undisturbed : ChatLabel → Bool
  | .append _ => false
  | .replace _ => false
  | _ => true

/-- The bubble against the buffers. Unless a flush is queued, it shows all of them. -/
structure BubbleShows (content reasoning : List Char) (queued : Bool) (bubble : Msg) : Prop where
  role : bubble.role = .assistant
  streaming : bubble.streaming = true
  part : bubble.content <+: content
  unthought : reasoning = [] → bubble.reasoning = none
  whole : queued = false → bubble.content = content ∧ bubble.reasoning = bubble.reasoningOr reasoning

/-- What is under way, and what the chat shows of what has come. -/
structure Streams (before : List Msg) (c : Chat) : Prop where
  fifo : c.published.map streamHandler = c.received ++ (c.frames ++ c.inbox.map streamHandler)
  content : c.contentBuffer = c.received.flatMap shownText
  reasoning : c.reasoningBuffer = c.received.flatMap shownReasoning
  printed : ∀ raw, Frame.text raw ∈ c.frames → ∃ text, raw = reprBytes (encodeUtf8 text)
  timers : c.renderQueued = true → 0 < c.timers
  silent : c.phase = .connecting → c.msgs = before ∧ c.received = [] ∧ c.timers = 0
  shown : c.phase = .opened ∨ c.phase = .closing → ∃ bubble, c.msgs = before ++ [bubble] ∧
    BubbleShows c.contentBuffer c.reasoningBuffer c.renderQueued bubble
  unresolved : c.phase = .connecting ∨ c.phase = .opened → Frame.json .taskResolved ∉ c.received
  resolved : c.phase = .closing → ∃ earlier, c.received = earlier ++ [.json .taskResolved] ∧
    Frame.json .taskResolved ∉ earlier

theorem updateLast_concat (f : Msg → Msg) (before : List Msg) (m : Msg) : updateLast f (before ++ [m]) = before ++ [f m] := by
  induction before with
  | nil => rfl
  | cons n before ih =>
    cases before with
    | nil => rfl
    | cons k before => exact congrArg (n :: ·) ih

theorem streams_start (before : List Msg) (streaming : Bool) : Streams before (Chat.start before streaming) where
  fifo := rfl
  content := rfl
  reasoning := rfl
  printed := by rintro raw ⟨⟩
  timers := by rintro ⟨⟩
  silent := fun _ => ⟨rfl, rfl, rfl⟩
  shown := by rintro (h | h) <;> cases h
  unresolved := fun _ => List.not_mem_nil
  resolved := by rintro ⟨⟩

section Steps
variable {before : List Msg} {c : Chat} {bubble : Msg} {content reasoning : List Char} {queued : Bool}

theorem BubbleShows.flush (h : BubbleShows content reasoning queued bubble) :
    BubbleShows content reasoning false (bubble.flushed content reasoning) where
  role := h.role
  streaming := h.streaming
  part := List.prefix_refl _
  unthought := fun hempty => (if_pos hempty).trans (h.unthought hempty)
  whole := fun _ => ⟨rfl, by
    unfold Msg.flushed Msg.reasoningOr
    split_ifs <;> rfl⟩

theorem flushAssistant_msgs (hmsgs : c.msgs = before ++ [bubble]) (hstreaming : bubble.streaming = true) :
    c.flushAssistant.msgs = before ++ [bubble.flushed c.contentBuffer c.reasoningBuffer] := by
  unfold Chat.flushAssistant
  simp only
  rw [hmsgs, updateLast_concat, if_pos hstreaming]

theorem Streams.timer (h : Streams before c) (htimers : c.timers ≠ 0) :
    Streams before { c with timers := c.timers - 1 }.flushAssistant where
  fifo := h.fifo
  content := h.content
  reasoning := h.reasoning
  printed := h.printed
  timers := by rintro ⟨⟩
  silent := fun hphase => absurd (h.silent hphase).2.2 htimers
  shown := by
    intro hphase
    obtain ⟨bubble, hmsgs, hbubble⟩ := h.shown hphase
    exact ⟨_, flushAssistant_msgs (c := { c with timers := c.timers - 1 }) hmsgs hbubble.streaming, hbubble.flush⟩
  unresolved := h.unresolved
  resolved := h.resolved

theorem Streams.onOpen (h : Streams before c) (hphase : c.phase = .connecting) : Streams before c.onOpen where
  fifo := h.fifo
  content := h.content
  reasoning := h.reasoning
  printed := h.printed
  timers := h.timers
  silent := by rintro ⟨⟩
  shown := by
    intro _
    obtain ⟨hmsgs, hreceived, -⟩ := h.silent hphase
    have hcontent : c.contentBuffer = [] := by rw [h.content, hreceived]; rfl
    have hreasoning : c.reasoningBuffer = [] := by rw [h.reasoning, hreceived]; rfl
    refine ⟨⟨.assistant, [], true, none, []⟩, congrArg (· ++ _) hmsgs, rfl, rfl, List.nil_prefix, fun _ => rfl, fun _ => ?_⟩
    exact ⟨hcontent.symm, (if_pos hreasoning).symm⟩
  unresolved := fun _ => h.unresolved (Or.inl hphase)
  resolved := by rintro ⟨⟩

/-- The next frame is handled. -/
structure Handled (c : Chat) (frame : Frame) (frames : List Frame) (c' : Chat) : Prop where
  published : c'.published = c.published
  inbox : c'.inbox = c.inbox
  frames : c'.frames = frames
  received : c'.received = c.received ++ [frame]
  content : c'.contentBuffer = c.contentBuffer ++ shownText frame
  reasoning : c'.reasoningBuffer = c.reasoningBuffer ++ shownReasoning frame
  timers : (c.renderQueued = true → 0 < c.timers) → c'.renderQueued = true → 0 < c'.timers

theorem Streams.handle {frame : Frame} {frames : List Frame} {c' : Chat} (h : Streams before c) (hphase : c.phase = .opened)
    (hframes : c.frames = frame :: frames) (hhandled : Handled c frame frames c')
    (hopen : frame ≠ .json .taskResolved → c'.phase = .opened) (hclosing : frame = .json .taskResolved → c'.phase = .closing)
    (hbubble : ∀ bubble, c.msgs = before ++ [bubble] → BubbleShows c.contentBuffer c.reasoningBuffer c.renderQueued bubble →
      ∃ bubble', c'.msgs = before ++ [bubble'] ∧ BubbleShows c'.contentBuffer c'.reasoningBuffer c'.renderQueued bubble') :
    Streams before c' where
  fifo := by
    rw [hhandled.published, hhandled.received, hhandled.frames, hhandled.inbox, h.fifo, hframes]
    simp
  content := by
    rw [hhandled.content, hhandled.received, h.content]
    simp
  reasoning := by
    rw [hhandled.reasoning, hhandled.received, h.reasoning]
    simp
  printed := by
    intro raw hraw
    rw [hhandled.frames] at hraw
    exact h.printed raw (hframes ▸ List.mem_cons_of_mem _ hraw)
  timers := hhandled.timers h.timers
  silent := by
    intro hconnecting
    by_cases hframe : frame = .json .taskResolved
    · rw [hclosing hframe] at hconnecting
      cases hconnecting
    · rw [hopen hframe] at hconnecting
      cases hconnecting
  shown := by
    intro _
    obtain ⟨bubble, hmsgs, hshows⟩ := h.shown (Or.inl hphase)
    exact hbubble bubble hmsgs hshows
  unresolved := by
    intro hopened
    rw [hhandled.received]
    by_cases hframe : frame = .json .taskResolved
    · rw [hclosing hframe] at hopened
      obtain hopened | hopened := hopened <;> cases hopened
    · simp only [List.mem_append, List.mem_singleton, not_or]
      exact ⟨h.unresolved (Or.inr hphase), Ne.symm hframe⟩
  resolved := by
    intro hphase'
    by_cases hframe : frame = .json .taskResolved
    · exact ⟨c.received, by rw [hhandled.received, hframe], h.unresolved (Or.inr hphase)⟩
    · rw [hopen hframe] at hphase'
      cases hphase'

/-- More has come, and a flush is queued. -/
theorem BubbleShows.more (h : BubbleShows content reasoning queued bubble) (text thought : List Char) :
    BubbleShows (content ++ text) (reasoning ++ thought) true bubble where
  role := h.role
  streaming := h.streaming
  part := h.part.trans (List.prefix_append _ _)
  unthought := fun hempty => h.unthought (List.append_eq_nil_iff.mp hempty).1
  whole := by rintro ⟨⟩

/-- The text is shown at once. -/
theorem BubbleShows.show (h : BubbleShows content reasoning queued bubble) (text : List Char) :
    BubbleShows (content ++ text) reasoning queued { bubble with content := content ++ text } where
  role := h.role
  streaming := h.streaming
  part := List.prefix_refl _
  unthought := h.unthought
  whole := fun hqueued => ⟨rfl, (h.whole hqueued).2⟩

theorem scheduleFlush_queued (c : Chat) : c.scheduleFlush.renderQueued = true ∧
    ((c.renderQueued = true → 0 < c.timers) → 0 < c.scheduleFlush.timers) := by
  unfold Chat.scheduleFlush
  split_ifs with hqueued
  · exact ⟨hqueued, fun htimers => htimers hqueued⟩
  · exact ⟨rfl, fun _ => Nat.succ_pos _⟩

theorem scheduleFlush_rest (c : Chat) : c.scheduleFlush =
    { c with renderQueued := c.scheduleFlush.renderQueued, timers := c.scheduleFlush.timers } := by
  unfold Chat.scheduleFlush
  split_ifs <;> rfl

theorem showContent_cases (hmsgs : c.msgs = before ++ [bubble]) (hstreaming : bubble.streaming = true) :
    c.contentBuffer.all jsWhitespace = true ∧ c.showContent = c ∨
      c.showContent = { c with msgs := before ++ [{ bubble with content := c.contentBuffer }] } := by
  unfold Chat.showContent
  split_ifs with hblank
  · exact Or.inl ⟨hblank, rfl⟩
  · right
    rw [hmsgs, updateLast_concat, if_pos hstreaming]

section Receive
variable {frame : Frame} {frames : List Frame} (h : Streams before c) (hphase : c.phase = .opened)
  (hframes : c.frames = frame :: frames)
include h hphase hframes

theorem streams_showContent (hframe : frame ≠ .json .taskResolved) (hthought : shownReasoning frame = [])
    (hvisible : shownText frame ≠ [] → (c.contentBuffer ++ shownText frame).all jsWhitespace = false) :
    Streams before { c with frames := frames, received := c.received ++ [frame],
                            contentBuffer := c.contentBuffer ++ shownText frame }.showContent := by
  obtain ⟨bubble, hmsgs, hbubble⟩ := h.shown (Or.inl hphase)
  have hreasoning : c.reasoningBuffer = c.reasoningBuffer ++ shownReasoning frame := by rw [hthought, List.append_nil]
  have hcases := showContent_cases
    (c := { c with frames := frames, received := c.received ++ [frame], contentBuffer := c.contentBuffer ++ shownText frame })
    hmsgs hbubble.streaming
  obtain ⟨hblank, hsame⟩ | hshown := hcases
  · rw [hsame]
    have htext : shownText frame = [] := by
      by_contra hne
      exact absurd hblank (by rw [hvisible hne]; exact Bool.false_ne_true)
    refine h.handle hphase hframes ⟨rfl, rfl, rfl, rfl, rfl, hreasoning, fun htimers => htimers⟩ (fun _ => hphase)
      (fun hresolved => absurd hresolved hframe) fun b hb hshows => ⟨b, hb, ?_⟩
    simp only [htext, List.append_nil]
    exact hshows
  · rw [hshown]
    refine h.handle hphase hframes ⟨rfl, rfl, rfl, rfl, rfl, hreasoning, fun htimers => htimers⟩ (fun _ => hphase)
      (fun hresolved => absurd hresolved hframe) fun b hb hshows => ?_
    exact ⟨_, rfl, hbubble.show _⟩

theorem streams_scheduleFlush (hframe : frame ≠ .json .taskResolved) :
    Streams before { c with frames := frames, received := c.received ++ [frame],
                            contentBuffer := c.contentBuffer ++ shownText frame,
                            reasoningBuffer := c.reasoningBuffer ++ shownReasoning frame }.scheduleFlush := by
  obtain ⟨hqueued, htimers⟩ := scheduleFlush_queued
    { c with frames := frames, received := c.received ++ [frame], contentBuffer := c.contentBuffer ++ shownText frame,
             reasoningBuffer := c.reasoningBuffer ++ shownReasoning frame }
  rw [scheduleFlush_rest, hqueued]
  refine h.handle hphase hframes ⟨rfl, rfl, rfl, rfl, rfl, rfl, fun hbefore _ => htimers hbefore⟩ (fun _ => hphase)
    (fun hresolved => absurd hresolved hframe) fun b hb hshows => ⟨b, hb, hshows.more _ _⟩

/-- A frame that leaves the buffers alone. -/
theorem streams_pass (hframe : frame ≠ .json .taskResolved) (htext : shownText frame = []) (hthought : shownReasoning frame = [])
    {calls : List RunningCall} {streaming : Bool} {msgs : List Msg}
    (hcalls : ∀ b, c.msgs = before ++ [b] → msgs = before ++ [{ b with toolCalls := b.toolCalls ++ calls }]) :
    Streams before { c with frames := frames, received := c.received ++ [frame], msgs := msgs, streaming := streaming } := by
  refine h.handle hphase hframes ⟨rfl, rfl, rfl, rfl, ?_, ?_, fun htimers => htimers⟩ (fun _ => hphase)
    (fun hresolved => absurd hresolved hframe) fun b hb hshows => ?_
  · rw [htext, List.append_nil]
  · rw [hthought, List.append_nil]
  · exact ⟨_, hcalls b hb, hshows.1, hshows.2, hshows.3, hshows.4, hshows.5⟩

/-- **A frame is handled.** -/
theorem Streams.receive :
    Streams before ({ c with frames := frames, received := c.received ++ [frame] }.onMessage frame) := by
  have hsame : ∀ b : Msg, c.msgs = before ++ [b] → c.msgs = before ++ [{ b with toolCalls := b.toolCalls ++ [] }] := by
    intro b hb
    rw [List.append_nil]
    exact hb
  have hcall : ∀ name args (b : Msg), c.msgs = before ++ [b] →
      updateLast (fun m => { m with toolCalls := m.toolCalls ++ [⟨name, args⟩] }) c.msgs =
        before ++ [{ b with toolCalls := b.toolCalls ++ [⟨name, args⟩] }] := by
    intro name args b hb
    rw [hb, updateLast_concat]
  cases frame with
  | text raw =>
    obtain ⟨text, rfl⟩ := h.printed raw (hframes ▸ List.mem_cons_self)
    rw [Chat.onMessage, stripAnsi_eq_self (escape_not_mem_reprBytes _)]
    refine streams_showContent h hphase hframes (by rintro ⟨⟩) rfl fun _ => ?_
    exact List.all_eq_false.mpr ⟨'b', List.mem_append_right _ List.mem_cons_self, by decide⟩
  | json event =>
    cases event with
    | taskResolved =>
      exact h.handle hphase hframes
        ⟨rfl, rfl, rfl, rfl, (List.append_nil _).symm, (List.append_nil _).symm, fun htimers => htimers⟩
        (fun hne => absurd rfl hne) (fun _ => rfl) fun b hb hshows => ⟨b, hb, hshows⟩
    | status status message =>
      rw [Chat.onMessage]
      split_ifs
      · exact streams_pass h hphase hframes (by rintro ⟨⟩) rfl rfl hsame
      · simpa only [shownText, List.append_nil] using
          streams_showContent h hphase hframes (by rintro ⟨⟩) rfl fun hne => absurd rfl hne
    | reasoning text =>
      rw [Chat.onMessage]
      simpa only [shownText, shownReasoning, List.append_nil] using streams_scheduleFlush h hphase hframes (by rintro ⟨⟩)
    | token text =>
      rw [Chat.onMessage]
      simpa only [shownText, shownReasoning, List.append_nil] using streams_scheduleFlush h hphase hframes (by rintro ⟨⟩)
    | toolStart name args => exact streams_pass h hphase hframes (by rintro ⟨⟩) rfl rfl (hcall name args)
    | toolExecuting name => exact streams_pass h hphase hframes (by rintro ⟨⟩) rfl rfl (hcall name "")
    | toolApprovalRequired name => exact streams_pass h hphase hframes (by rintro ⟨⟩) rfl rfl hsame
    | toolDone name preview =>
      rw [Chat.onMessage]
      simpa only [shownText, List.append_nil] using
        streams_showContent h hphase hframes (by rintro ⟨⟩) rfl fun hne => absurd rfl hne
    | text text =>
      rw [Chat.onMessage]
      simpa only [shownText, List.append_nil] using
        streams_showContent h hphase hframes (by rintro ⟨⟩) rfl fun hne => absurd rfl hne

end Receive

theorem Streams.send (h : Streams before c) {event : LogEvent} {inbox : List LogEvent} (hinbox : c.inbox = event :: inbox) :
    Streams before { c with inbox := inbox, frames := c.frames ++ [streamHandler event] } where
  fifo := by
    rw [h.fifo, hinbox]
    simp
  content := h.content
  reasoning := h.reasoning
  printed := by
    intro raw hraw
    obtain hraw | hraw := List.mem_append.mp hraw
    · exact h.printed raw hraw
    · have hsent := List.mem_singleton.mp hraw
      cases event with
      | text text => exact ⟨text, Frame.text.inj hsent⟩
      | _ => cases hsent
  timers := h.timers
  silent := h.silent
  shown := h.shown
  unresolved := h.unresolved
  resolved := h.resolved

/-- **Every step but the close keeps track of what was published.** -/
theorem streams_step {c' : Chat} {label : ChatLabel} (h : Streams before c)
    (hlabel : label.undisturbed = true) (hclose : label ≠ .close) (hstep : chatStep c label = some c') : Streams before c' := by
  cases label with
  | listen =>
    rw [chatStep] at hstep
    split_ifs at hstep
    cases hstep
    exact ⟨h.1, h.2, h.3, h.4, h.5, h.6, h.7, h.8, h.9⟩
  | publish event =>
    rw [chatStep] at hstep
    split_ifs at hstep
    · cases hstep
      refine ⟨?_, h.2, h.3, h.4, h.5, h.6, h.7, h.8, h.9⟩
      simp only [List.map_append, h.fifo, List.append_assoc]
    · cases hstep
      exact h
  | send =>
    rw [chatStep] at hstep
    cases hinbox : c.inbox with
    | nil =>
      rw [hinbox] at hstep
      cases hstep
    | cons event inbox =>
      rw [hinbox] at hstep
      cases hstep
      exact h.send hinbox
  | opened =>
    rw [chatStep] at hstep
    split_ifs at hstep with hphase
    cases hstep
    exact h.onOpen hphase
  | receive =>
    rw [chatStep] at hstep
    cases hphase : c.phase with
    | opened =>
      cases hframes : c.frames with
      | nil =>
        rw [hphase, hframes] at hstep
        cases hstep
      | cons frame frames =>
        rw [hphase, hframes] at hstep
        cases hstep
        simpa only [hphase] using h.receive hphase hframes
    | _ =>
      rw [hphase] at hstep
      cases hstep
  | timer =>
    rw [chatStep] at hstep
    split_ifs at hstep with htimers
    cases hstep
    exact h.timer htimers
  | error =>
    cases hstep
    exact ⟨h.1, h.2, h.3, h.4, h.5, h.6, h.7, h.8, h.9⟩
  | close => exact absurd rfl hclose
  | append m => exact absurd hlabel Bool.false_ne_true
  | replace ms => exact absurd hlabel Bool.false_ne_true

/-- The bubble when its stream has ended. -/
structure Finished (content reasoning : List Char) (bubble : Msg) : Prop where
  role : bubble.role = .assistant
  streaming : bubble.streaming = false
  content : bubble.content = content
  reasoning : bubble.reasoning = if reasoning = [] then none else some reasoning

/-- **The close shows all that has come.** -/
theorem Streams.onClose (h : Streams before c) (hphase : c.phase = .opened ∨ c.phase = .closing) :
    ∃ bubble, c.onClose.msgs = before.map Msg.finished ++ [bubble] ∧ Finished c.contentBuffer c.reasoningBuffer bubble := by
  obtain ⟨bubble, hmsgs, hbubble⟩ := h.shown hphase
  have hlast : ∃ last, (if c.renderQueued then c.flushAssistant else c).msgs = before ++ [last] ∧
      BubbleShows c.contentBuffer c.reasoningBuffer false last := by
    split_ifs with hqueued
    · exact ⟨_, flushAssistant_msgs hmsgs hbubble.streaming, hbubble.flush⟩
    · rw [Bool.not_eq_true] at hqueued
      exact ⟨bubble, hmsgs, hqueued ▸ hbubble⟩
  obtain ⟨last, hlast, hshows⟩ := hlast
  have hfinished : last.finished = { last with streaming := false } := if_pos hshows.streaming
  obtain ⟨hcontent, hreasoning⟩ := hshows.whole rfl
  refine ⟨last.finished, ?_, ?_⟩
  · unfold Chat.onClose
    simp only
    rw [hlast, List.map_append, List.map_singleton]
  · rw [hfinished]
    refine ⟨hshows.role, rfl, hcontent, hreasoning.trans ?_⟩
    unfold Msg.reasoningOr
    split_ifs with hempty
    · exact hshows.unthought hempty
    · rfl

end Steps

/-! ## Runs -/

/-- What an event adds to the answer, and to the reasoning above it. -/
def answerText (event : LogEvent) : List Char := shownText (streamHandler event)

def thoughtText (event : LogEvent) : List Char := shownReasoning (streamHandler event)

theorem streams_run {before : List Msg} {streaming : Bool} {labels : List ChatLabel} {c : Chat}
    (hrun : exec chatStep (Chat.start before streaming) labels = some c)
    (hlabels : ∀ label ∈ labels, label.undisturbed = true ∧ label ≠ .close) : Streams before c :=
  exec_invariant (fun _ _ _ h hok hstep => streams_step h hok.1 hok.2 hstep) (streams_start before streaming)
    (guarded_of_forall hlabels _) hrun

/-- What came is what was published first. -/
theorem Streams.split {before : List Msg} {c : Chat} (h : Streams before c) :
    ∃ shown rest, c.published = shown ++ rest ∧ c.received = shown.map streamHandler := by
  obtain ⟨shown, rest, hpublished, hshown, -⟩ := List.map_eq_append_iff.mp h.fifo
  exact ⟨shown, rest, hpublished, hshown.symm⟩

/-- **At every moment the bubble shows a part of what came, and all of it unless a flush is queued.** -/
theorem open_stream_shows_part {before : List Msg} {streaming : Bool} {labels : List ChatLabel} {c : Chat}
    (hrun : exec chatStep (Chat.start before streaming) labels = some c)
    (hlabels : ∀ label ∈ labels, label.undisturbed = true ∧ label ≠ .close) (hopen : c.phase = .opened ∨ c.phase = .closing) :
    ∃ shown rest bubble, c.published = shown ++ rest ∧ c.msgs = before ++ [bubble] ∧
      bubble.content <+: shown.flatMap answerText ∧
      (bubble.content = shown.flatMap answerText ∨ c.renderQueued = true ∧ 0 < c.timers) := by
  have h := streams_run hrun hlabels
  obtain ⟨shown, rest, hpublished, hreceived⟩ := h.split
  obtain ⟨bubble, hmsgs, hbubble⟩ := h.shown hopen
  have hcontent : c.contentBuffer = shown.flatMap answerText := by
    rw [h.content, hreceived, List.flatMap_map]
    rfl
  refine ⟨shown, rest, bubble, hpublished, hmsgs, hcontent ▸ hbubble.part, ?_⟩
  cases hqueued : c.renderQueued with
  | true => exact Or.inr ⟨rfl, h.timers hqueued⟩
  | false => exact Or.inl ((hbubble.whole hqueued).1.trans hcontent)

/-- **However the workers, the listener and the browser take turns, the answer that is shown when the socket closes is
the text of the first events that were published, in their order, and of all events up to the end of the task if it was
the end of the task that closed it.** -/
theorem closed_stream_shows_answer {before : List Msg} {streaming : Bool} {labels : List ChatLabel} {c t : Chat}
    (hrun : exec chatStep (Chat.start before streaming) labels = some c)
    (hlabels : ∀ label ∈ labels, label.undisturbed = true ∧ label ≠ .close) (hopened : c.phase ≠ .connecting)
    (hclose : chatStep c .close = some t) :
    ∃ shown rest bubble, c.published = shown ++ rest ∧ t.msgs = before.map Msg.finished ++ [bubble] ∧
      Finished (shown.flatMap answerText) (shown.flatMap thoughtText) bubble ∧
      (c.phase = .closing → ∃ earlier, shown = earlier ++ [.taskResolved] ∧ LogEvent.taskResolved ∉ earlier) := by
  have h := streams_run hrun hlabels
  rw [chatStep] at hclose
  split_ifs at hclose with hphase
  cases hclose
  have hopen : c.phase = .opened ∨ c.phase = .closing := by
    cases hp : c.phase with
    | connecting => exact absurd hp hopened
    | opened => exact Or.inl rfl
    | closing => exact Or.inr rfl
    | closed => exact absurd hp hphase
  obtain ⟨shown, rest, hpublished, hreceived⟩ := h.split
  obtain ⟨bubble, hmsgs, hfinished⟩ := h.onClose hopen
  rw [h.content, h.reasoning, hreceived, List.flatMap_map, List.flatMap_map] at hfinished
  refine ⟨shown, rest, bubble, hpublished, hmsgs, hfinished, fun hclosing => ?_⟩
  obtain ⟨earlier, hearlier, hnot⟩ := h.resolved hclosing
  rw [hreceived] at hearlier
  obtain ⟨first, last, rfl, rfl, hlast⟩ := List.map_eq_append_iff.mp hearlier
  obtain ⟨event, rfl, hevent⟩ := List.map_eq_singleton_iff.mp hlast
  have hresolved : event = .taskResolved := by
    cases event with
    | text text => cases hevent
    | _ => exact Frame.json.inj hevent
  rw [hresolved]
  exact ⟨first, rfl, fun hmem => hnot (List.mem_map.mpr ⟨_, hmem, rfl⟩)⟩

/-- A question, and an answer of two tokens whose task ends before the second flush. -/
def greeting : List Msg := [⟨.user, "Hi".toList, false, none, []⟩]

def answeredGreeting : List ChatLabel :=
  [.listen, .opened, .publish (.status "thinking" "Analyzing..."), .publish (.token "Hel"), .send, .send, .receive, .receive,
   .publish (.token "lo"), .timer, .publish (.text "\r\n"), .publish .taskResolved, .send, .send, .send, .receive, .receive,
   .receive]

theorem greeting_is_answered : ∃ c t, exec chatStep (Chat.start greeting false) answeredGreeting = some c ∧
    c.phase = .closing ∧ chatStep c .close = some t ∧
    ∃ shown rest bubble, c.published = shown ++ rest ∧ t.msgs = greeting.map Msg.finished ++ [bubble] ∧
      Finished (shown.flatMap answerText) (shown.flatMap thoughtText) bubble ∧
      (c.phase = .closing → ∃ earlier, shown = earlier ++ [.taskResolved] ∧ LogEvent.taskResolved ∉ earlier) := by
  refine ⟨_, _, rfl, rfl, rfl, @closed_stream_shows_answer greeting false answeredGreeting _ _ rfl (by decide) (by rintro ⟨⟩) rfl⟩

end KernelRuntime.Ui
