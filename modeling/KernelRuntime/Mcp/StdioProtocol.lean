import KernelRuntime.Foundations.Execution
import KernelRuntime.Storage.Mount

/-! # Requests over the pipes of a stdio server

`MCPStdioProtocol` writes a request with a fresh id and takes the next line that carries an id as its
answer; the id itself is not compared. One request runs at a time, but the pipe outlives it: an answer
that comes after its request was abandoned waits there for the next one. -/

namespace KernelRuntime.StdioProtocol
set_option autoImplicit false

/-- A line of the standard output of the server; nothing where it does not decode, or `json.loads` does not get
through it. -/
abbrev Line := Option String

/-- What `read_line` makes of a line: it raises, skips it, or returns a JSON object. -/
inductive LineClass where
  | undecodable
  | noise
  | message (fields : Fields)
deriving DecidableEq

/-- One turn of the loop of `read_line`. What starts with a brace decodes to an object or not at all. -/
def readLine : Line → LineClass
  | none => .undecodable
  | some text =>
    let line := String.ofList (Gvfs.strip text.toList)
    if "\x7b".toList.isPrefixOf line.toList then
      match Decoder.decode line with
      | some (.obj fields) => .message fields
      | _ => .noise
    else .noise

def hasKey (fields : Fields) (key : String) : Bool := (fields.lookup key).isSome

/-- `JSONRPCResponse.is_error`. -/
def isError (fields : Fields) : Bool := decide (Fields.get fields "error" ≠ .null)

/-- The message is the response to the request with this id, and not a request of the server. -/
def Answers (id : ℕ) (fields : Fields) : Prop :=
  fields.lookup "id" = some (.int id) ∧ fields.lookup "method" = none

instance (id : ℕ) (fields : Fields) : Decidable (Answers id fields) := by
  unfold Answers
  infer_instance

/-- A value that `_send_request` returned: the `result` of the message that it took for the answer. -/
structure Returned where
  requestId : ℕ
  response : Fields
deriving DecidableEq

def Returned.value (r : Returned) : Json := Fields.get r.response "result"

/-- `requestId` is `_request_id`; the running request has its id and the number of notifications it
skipped. `unanswered` are the requests that the server has read and not answered. -/
structure State where
  requestId : ℕ
  running : Option (ℕ × ℕ)
  pipe : List Line
  unanswered : List ℕ
  returned : List Returned
deriving DecidableEq

def State.init : State := ⟨0, none, [], [], []⟩

/-! ## Steps -/

inductive Label where
  /-- A call takes the lock; the write may raise. -/
  | request (written : Bool)
  /-- The running request takes the next line from the pipe. -/
  | read
  /-- The running request ends without a line: it is cancelled, the read times out or the pipe is closed. -/
  | abandon
  /-- The running request ends in the read of a line that is longer than the limit of the stream. -/
  | overlong
  | emit (line : Line)

/-- The lines that `_send_request` reads before it gives up. -/
def lineCap : ℕ := 50

/-- A read of `_send_request`: a message without an id is skipped and counted, any other ends the request. -/
def takeLine (s : State) (id skipped : ℕ) (line : Line) : State :=
  match readLine line with
  | .undecodable => { s with running := none }
  | .noise => s
  | .message fields =>
    if hasKey fields "id" = false then
      { s with running := if skipped + 1 < lineCap then some (id, skipped + 1) else none }
    else if isError fields then { s with running := none }
    else { s with running := none, returned := s.returned ++ [⟨id, fields⟩] }

/-- The requests left unanswered by a line. A response goes to a request that was read and not answered;
anything else may come at any time. -/
def answered (unanswered : List ℕ) (line : Line) : Option (List ℕ) :=
  match readLine line with
  | .message fields =>
    if hasKey fields "id" ∧ hasKey fields "method" = false then
      (unanswered.find? fun id => decide (Answers id fields)).map unanswered.erase
    else some unanswered
  | _ => some unanswered

def step (s : State) : Label → Option State
  | .request written =>
    if s.running.isSome then none
    else if written then
      some { s with requestId := s.requestId + 1, running := some (s.requestId + 1, 0),
                    unanswered := s.unanswered ++ [s.requestId + 1] }
    else some { s with requestId := s.requestId + 1 }
  | .read =>
    match s.running, s.pipe with
    | some (id, skipped), line :: rest => some (takeLine { s with pipe := rest } id skipped line)
    | _, _ => none
  | .abandon => if s.running.isSome then some { s with running := none } else none
  | .overlong => if s.running.isSome then some { s with running := none, pipe := s.pipe.tail } else none
  | .emit line =>
    (answered s.unanswered line).map fun unanswered =>
      { s with unanswered := unanswered, pipe := s.pipe ++ [line] }

/-! ## Results and their requests -/

/-- Every value that was returned is the result of the response to its request. -/
def ResultsMatch (s : State) : Prop := ∀ r ∈ s.returned, Answers r.requestId r.response

/-- The running request does not meet a message with an id that is for somebody else: an answer left over
from a request before it, or a request of the server. Errors end it without a value. -/
def StepOk (s : State) : Label → Prop
  | .read => ∀ id skipped line rest fields, s.running = some (id, skipped) → s.pipe = line :: rest →
      readLine line = .message fields → hasKey fields "id" = true → isError fields = false →
      Answers id fields
  | _ => True

theorem step_read {s s' : State} (h : step s .read = some s') : ∃ id skipped line rest,
    s.running = some (id, skipped) ∧ s.pipe = line :: rest ∧
      s' = takeLine { s with pipe := rest } id skipped line := by
  unfold step at h
  cases hrunning : s.running with
  | none => simp [hrunning] at h
  | some r =>
    cases hpipe : s.pipe with
    | nil => simp [hrunning, hpipe] at h
    | cons line rest =>
      simp only [hrunning, hpipe, Option.some.injEq] at h
      exact ⟨r.1, r.2, line, rest, rfl, rfl, h.symm⟩

theorem returned_takeLine (s : State) (id skipped : ℕ) (line : Line) :
    (takeLine s id skipped line).returned = s.returned ∨ ∃ fields, readLine line = .message fields ∧
      hasKey fields "id" = true ∧ isError fields = false ∧
        (takeLine s id skipped line).returned = s.returned ++ [⟨id, fields⟩] := by
  unfold takeLine
  cases hline : readLine line with
  | undecodable => exact Or.inl rfl
  | noise => exact Or.inl rfl
  | message fields =>
    simp only
    by_cases hid : hasKey fields "id" = false
    · rw [if_pos hid]
      exact Or.inl rfl
    · rw [if_neg hid]
      by_cases herror : isError fields = true
      · rw [if_pos herror]
        exact Or.inl rfl
      · rw [if_neg herror]
        exact Or.inr ⟨fields, rfl, Bool.not_eq_false _ ▸ hid, Bool.not_eq_true _ ▸ herror, rfl⟩

theorem returned_of_message (s : State) (id skipped : ℕ) {line : Line} {fields : Fields}
    (hline : readLine line = .message fields) (hid : hasKey fields "id" = true)
    (herror : isError fields = false) :
    (takeLine s id skipped line).returned = s.returned ++ [⟨id, fields⟩] := by
  unfold takeLine
  simp only [hline]
  rw [if_neg (by simp [hid]), if_neg (by simp [herror])]

theorem returned_step {s s' : State} {i : Label} (hread : i ≠ .read) (h : step s i = some s') :
    s'.returned = s.returned := by
  cases i with
  | request written =>
    simp only [step] at h
    split_ifs at h
    · exact Option.some.inj h ▸ rfl
    · exact Option.some.inj h ▸ rfl
  | read => exact absurd rfl hread
  | abandon =>
    simp only [step] at h
    split_ifs at h
    exact Option.some.inj h ▸ rfl
  | overlong =>
    simp only [step] at h
    split_ifs at h
    exact Option.some.inj h ▸ rfl
  | emit line =>
    obtain ⟨unanswered, _, rfl⟩ := Option.map_eq_some_iff.mp h
    rfl

theorem ResultsMatch.step {s s' : State} {i : Label} (hs : ResultsMatch s) (hok : StepOk s i)
    (h : step s i = some s') : ResultsMatch s' := by
  by_cases hread : i = .read
  · subst hread
    obtain ⟨id, skipped, line, rest, hrunning, hpipe, rfl⟩ := step_read h
    intro r hr
    rcases returned_takeLine { s with pipe := rest } id skipped line with
      hsame | ⟨fields, hline, hid, herror, hnew⟩
    · rw [hsame] at hr
      exact hs r hr
    · rw [hnew, List.mem_append, List.mem_singleton] at hr
      rcases hr with hold | rfl
      · exact hs r hold
      · exact hok id skipped line rest fields hrunning hpipe hline hid herror
  · intro r hr
    rw [returned_step hread h] at hr
    exact hs r hr

theorem not_resultsMatch_step {s : State} {i : Label} (hbad : ¬ StepOk s i) :
    ∃ s', step s i = some s' ∧ ¬ ResultsMatch s' := by
  cases i with
  | read =>
    simp only [StepOk, not_forall] at hbad
    obtain ⟨id, skipped, line, rest, fields, hrunning, hpipe, hline, hid, herror, hforeign⟩ := hbad
    refine ⟨takeLine { s with pipe := rest } id skipped line, by simp [step, hrunning, hpipe], fun h => ?_⟩
    refine hforeign (h ⟨id, fields⟩ ?_)
    rw [returned_of_message _ id skipped hline hid herror]
    exact List.mem_append_right _ (List.mem_singleton_self _)
  | request _ => exact absurd trivial hbad
  | abandon => exact absurd trivial hbad
  | overlong => exact absurd trivial hbad
  | emit _ => exact absurd trivial hbad

/-- **Every value that is returned belongs to its request exactly when no running request reads a message
with an id that is for somebody else.** -/
theorem results_match_iff_guarded (is : List Label) :
    (∀ js ks t, is = js ++ ks → exec step State.init js = some t → ResultsMatch t) ↔
      Guarded step StepOk State.init is :=
  @always_iff_guarded _ _ _ StepOk (fun _ => True) _ (fun _ _ _ _ _ => trivial)
    (fun _ _ _ _ hs hok h => hs.step hok h) (fun _ _ _ _ hbad => not_resultsMatch_step hbad) _ trivial
    (fun _ hr => absurd hr List.not_mem_nil) is

/-! ## A pipe that is left clean -/

/-- The server sends no requests of its own, and a request ends only with its answer. -/
def Undisturbed (s : State) : Label → Prop
  | .request _ => True
  | .read => ∀ id skipped line rest, s.running = some (id, skipped) → s.pipe = line :: rest →
      readLine line ≠ .undecodable ∧ skipped + 1 < lineCap
  | .abandon => False
  | .overlong => False
  | .emit line => ∀ fields, readLine line = .message fields →
      hasKey fields "id" = true → hasKey fields "method" = false

/-- The line is a message with an id, and so ends a request. -/
def Ends (line : Line) : Prop := ∃ fields, readLine line = .message fields ∧ hasKey fields "id" = true

/-- What is outstanding is the running request's: the server owes it the answer, or the answer is the one
message with an id in the pipe. -/
inductive Outstanding (s : State) : Prop
  | idle (hrunning : s.running = none) (hunanswered : s.unanswered = []) (hpipe : ∀ line ∈ s.pipe, ¬ Ends line)
  | owed (id skipped : ℕ) (hrunning : s.running = some (id, skipped)) (hunanswered : s.unanswered = [id])
      (hpipe : ∀ line ∈ s.pipe, ¬ Ends line)
  | sent (id skipped : ℕ) (before after : List Line) (fields : Fields) (answer : Line)
      (hrunning : s.running = some (id, skipped)) (hunanswered : s.unanswered = [])
      (hpipe : s.pipe = before ++ answer :: after) (hbefore : ∀ line ∈ before, ¬ Ends line)
      (hafter : ∀ line ∈ after, ¬ Ends line) (hanswer : readLine answer = .message fields)
      (hfor : Answers id fields)

theorem takeLine_of_ends (s : State) (id skipped : ℕ) {line : Line} (h : Ends line) :
    (takeLine s id skipped line).running = none ∧ (takeLine s id skipped line).pipe = s.pipe ∧
      (takeLine s id skipped line).unanswered = s.unanswered := by
  obtain ⟨fields, hline, hid⟩ := h
  unfold takeLine
  simp only [hline]
  rw [if_neg (by simp [hid])]
  split_ifs
  · exact ⟨rfl, rfl, rfl⟩
  · exact ⟨rfl, rfl, rfl⟩

/-- Any other line leaves the request running, as long as lines remain. -/
theorem takeLine_of_not_ends {s : State} {id skipped : ℕ} {line : Line} (hrunning : s.running = some (id, skipped))
    (h : ¬ Ends line) (hdecodes : readLine line ≠ .undecodable) (hcap : skipped + 1 < lineCap) :
    ∃ skipped', (takeLine s id skipped line).running = some (id, skipped') ∧
      (takeLine s id skipped line).pipe = s.pipe ∧ (takeLine s id skipped line).unanswered = s.unanswered := by
  unfold takeLine
  cases hline : readLine line with
  | undecodable => exact absurd hline hdecodes
  | noise => exact ⟨skipped, hrunning, rfl, rfl⟩
  | message fields =>
    have hid : hasKey fields "id" = false := Bool.eq_false_iff.mpr fun hid => h ⟨fields, hline, hid⟩
    simp only
    rw [if_pos hid, if_pos hcap]
    exact ⟨skipped + 1, rfl, rfl, rfl⟩

theorem answered_of_not_ends {unanswered : List ℕ} {line : Line} (h : ¬ Ends line) :
    answered unanswered line = some unanswered := by
  unfold answered
  cases hline : readLine line with
  | undecodable => rfl
  | noise => rfl
  | message fields =>
    simp only
    rw [if_neg]
    exact fun hid => h ⟨fields, hline, hid.1⟩

theorem answered_of_ends {unanswered : List ℕ} {line : Line} {fields : Fields}
    (hline : readLine line = .message fields) (hid : hasKey fields "id" = true)
    (hmethod : hasKey fields "method" = false) : answered unanswered line =
      (unanswered.find? fun id => decide (Answers id fields)).map unanswered.erase := by
  unfold answered
  simp only [hline]
  rw [if_pos ⟨hid, hmethod⟩]

theorem not_ends_append {lines : List Line} {line : Line} (hlines : ∀ l ∈ lines, ¬ Ends l) (h : ¬ Ends line) :
    ∀ l ∈ lines ++ [line], ¬ Ends l := by
  intro l hl
  rw [List.mem_append, List.mem_singleton] at hl
  rcases hl with hl | rfl
  · exact hlines l hl
  · exact h

/-- With nothing to answer the server can only write lines that end no request. -/
theorem not_ends_of_answered_nil {line : Line} {unanswered : List ℕ}
    (hmethod : ∀ fields, readLine line = .message fields → hasKey fields "id" = true →
      hasKey fields "method" = false) (h : answered [] line = some unanswered) : ¬ Ends line := by
  rintro ⟨fields, hline, hid⟩
  rw [answered_of_ends hline hid (hmethod fields hline hid)] at h
  cases h

theorem Outstanding.emit {s s' : State} {line : Line} (hs : Outstanding s) (hok : Undisturbed s (.emit line))
    (h : step s (.emit line) = some s') : Outstanding s' := by
  obtain ⟨unanswered, hanswered, rfl⟩ := Option.map_eq_some_iff.mp h
  cases hs with
  | idle hrunning hunanswered hpipe =>
    rw [hunanswered] at hanswered
    have hline := not_ends_of_answered_nil hok hanswered
    rw [answered_of_not_ends hline] at hanswered
    exact .idle hrunning (Option.some.inj hanswered).symm (not_ends_append hpipe hline)
  | owed id skipped hrunning hunanswered hpipe =>
    by_cases hline : Ends line
    · obtain ⟨fields, hmessage, hid⟩ := hline
      rw [answered_of_ends hmessage hid (hok fields hmessage hid), hunanswered] at hanswered
      obtain ⟨id', hfound, herase⟩ := Option.map_eq_some_iff.mp hanswered
      have hid' : id' = id := List.mem_singleton.mp (List.mem_of_find?_eq_some hfound)
      subst hid'
      have hfor : Answers id' fields := by simpa using List.find?_some hfound
      refine .sent id' skipped s.pipe [] fields line hrunning ?_ rfl hpipe (fun l hl => nomatch hl) hmessage hfor
      rw [← herase]
      simp
    · rw [answered_of_not_ends hline] at hanswered
      refine .owed id skipped hrunning ?_ (not_ends_append hpipe hline)
      exact (Option.some.inj hanswered).symm.trans hunanswered
  | sent id skipped before after fields answer hrunning hunanswered hpipe hbefore hafter hanswer hfor =>
    rw [hunanswered] at hanswered
    have hline := not_ends_of_answered_nil hok hanswered
    rw [answered_of_not_ends hline] at hanswered
    refine .sent id skipped before (after ++ [line]) fields answer hrunning (Option.some.inj hanswered).symm ?_
      hbefore (not_ends_append hafter hline) hanswer hfor
    simp [hpipe]

theorem ends_of_answers {line : Line} {id : ℕ} {fields : Fields} (hline : readLine line = .message fields)
    (h : Answers id fields) : Ends line := by
  refine ⟨fields, hline, ?_⟩
  rw [hasKey, h.1]
  rfl

theorem Outstanding.read {s s' : State} (hs : Outstanding s) (hok : Undisturbed s .read)
    (h : step s .read = some s') : Outstanding s' := by
  obtain ⟨id, skipped, line, rest, hrunning, hpipe, rfl⟩ := step_read h
  obtain ⟨hdecodes, hcap⟩ := hok id skipped line rest hrunning hpipe
  cases hs with
  | idle hnone => rw [hnone] at hrunning; cases hrunning
  | owed id' skipped' hrunning' hunanswered hlines =>
    obtain ⟨rfl, rfl⟩ := Prod.mk.inj (Option.some.inj (hrunning.symm.trans hrunning'))
    rw [hpipe] at hlines
    obtain ⟨k, hkeeps, hrest, howed⟩ := takeLine_of_not_ends (s := { s with pipe := rest }) hrunning
      (hlines line List.mem_cons_self) hdecodes hcap
    refine .owed id k hkeeps (howed.trans hunanswered) ?_
    rw [hrest]
    exact fun l hl => hlines l (List.mem_cons_of_mem _ hl)
  | sent id' skipped' before after fields answer hrunning' hunanswered hsplit hbefore hafter hanswer hfor =>
    obtain ⟨rfl, rfl⟩ := Prod.mk.inj (Option.some.inj (hrunning.symm.trans hrunning'))
    rw [hpipe] at hsplit
    cases before with
    | nil =>
      obtain ⟨rfl, rfl⟩ := List.cons.inj hsplit
      obtain ⟨hnone, hrest, howed⟩ := takeLine_of_ends { s with pipe := rest } id skipped
        (ends_of_answers hanswer hfor)
      refine .idle hnone (howed.trans hunanswered) ?_
      rw [hrest]
      exact hafter
    | cons first before =>
      obtain ⟨rfl, rfl⟩ := List.cons.inj hsplit
      obtain ⟨k, hkeeps, hrest, howed⟩ := takeLine_of_not_ends (s := { s with pipe := before ++ answer :: after })
        hrunning (hbefore line List.mem_cons_self) hdecodes hcap
      exact .sent id k before after fields answer hkeeps (howed.trans hunanswered) hrest
        (fun l hl => hbefore l (List.mem_cons_of_mem _ hl)) hafter hanswer hfor

theorem Outstanding.step {s s' : State} {i : Label} (hs : Outstanding s) (hok : Undisturbed s i)
    (h : step s i = some s') : Outstanding s' := by
  cases i with
  | request written =>
    simp only [StdioProtocol.step] at h
    cases hs with
    | idle hrunning hunanswered hpipe =>
      rw [if_neg (by simp [hrunning])] at h
      split_ifs at h
      · obtain rfl := Option.some.inj h
        exact .owed (s.requestId + 1) 0 rfl (by simp [hunanswered]) hpipe
      · obtain rfl := Option.some.inj h
        exact .idle hrunning hunanswered hpipe
    | owed _ _ hrunning => simp [hrunning] at h
    | sent _ _ _ _ _ _ hrunning => simp [hrunning] at h
  | read => exact hs.read hok h
  | abandon => exact absurd hok id
  | overlong => exact absurd hok id
  | emit line => exact hs.emit hok h

theorem Outstanding.stepOk {s : State} {i : Label} (hs : Outstanding s) : StepOk s i := by
  cases i with
  | read =>
    intro id skipped line rest fields hrunning hpipe hline hid _
    have hends : Ends line := ⟨fields, hline, hid⟩
    cases hs with
    | idle hnone => rw [hnone] at hrunning; cases hrunning
    | owed _ _ _ _ hlines =>
      rw [hpipe] at hlines
      exact absurd hends (hlines line List.mem_cons_self)
    | sent id' skipped' before after fields' answer hrunning' _ hsplit hbefore _ hanswer hfor =>
      obtain ⟨rfl, rfl⟩ := Prod.mk.inj (Option.some.inj (hrunning.symm.trans hrunning'))
      rw [hpipe] at hsplit
      cases before with
      | nil =>
        obtain ⟨rfl, rfl⟩ := List.cons.inj hsplit
        obtain rfl := LineClass.message.inj (hline.symm.trans hanswer)
        exact hfor
      | cons first before =>
        obtain ⟨rfl, rfl⟩ := List.cons.inj hsplit
        exact absurd hends (hbefore line List.mem_cons_self)
  | request _ => trivial
  | abandon => trivial
  | overlong => trivial
  | emit _ => trivial

/-- **A server that sends no requests and a client that waits for every answer keep to the condition.** -/
theorem guarded_of_undisturbed {is : List Label} (h : Guarded step Undisturbed State.init is) :
    Guarded step StepOk State.init is :=
  h.imp_of_invariant (fun _ _ _ hs hok h => Outstanding.step hs hok h) (fun _ _ hs _ => Outstanding.stepOk hs)
    (Outstanding.idle rfl rfl fun _ hl => nomatch hl)

/-! ## A late answer -/

def reply (id : ℕ) (result : String) : Line :=
  some ("\x7b\"jsonrpc\": \"2.0\", \"id\": " ++ toString id ++ ", \"result\": \"" ++ result ++ "\"\x7d\n")

/-- The first request is abandoned, and its answer comes before that of the second. -/
def lateAnswer : List Label :=
  [.request true, .abandon, .request true, .emit (reply 1 "first"), .emit (reply 2 "second"), .read]

/-- Where it ends: the second request has a value, and its answer is still in the pipe. -/
def lateState : State :=
  ⟨2, none, [reply 2 "second"], [],
    [⟨2, [("jsonrpc", .str "2.0"), ("id", .int 1), ("result", .str "first")]⟩]⟩

theorem exec_lateAnswer : exec step State.init lateAnswer = some lateState := by decide +kernel

theorem late_answer_returned : ¬ ∀ (is : List Label) (t : State),
    exec step State.init is = some t → ResultsMatch t := by
  intro h
  have hanswers := h lateAnswer lateState exec_lateAnswer _ (List.mem_singleton_self _)
  exact absurd hanswers (by decide)

end KernelRuntime.StdioProtocol
