import KernelRuntime.AgentLoop.BrainEffects
import KernelRuntime.Foundations.JsonEncoder
import KernelRuntime.Foundations.KeyedFold

/-! # The reply that a stream adds up to

The deltas of a stream carry fragments of the text and of any number of calls, in any order. The calls are
kept in a dictionary by their index, which is the keyed fold of their fragments. -/

namespace KernelRuntime.AgentLoop
set_option autoImplicit false

/-- The fragments of the text. -/
def contentFragments (chunks : List (Option Delta)) : List String :=
  chunks.filterMap fun chunk => chunk.bind Delta.content

/-- The fragments of all calls. -/
def callFragments (chunks : List (Option Delta)) : List ToolCallDelta :=
  chunks.flatMap fun chunk => (chunk.map Delta.toolCalls).getD []

/-- The call that some fragments make: opened by the first, its texts joined in order. -/
structure AssembledFrom (parts : List ToolCallDelta) (call : ToolCall) : Prop where
  opened : parts.head?.map (fun first => (first.id, first.type)) = some (call.id, call.type)
  name : call.name = String.join (parts.map fun tc => tc.name.getD "")
  arguments : call.arguments = String.join (parts.map fun tc => tc.arguments.getD "")

theorem AssembledFrom.unique {parts : List ToolCallDelta} {call call' : ToolCall}
    (h : AssembledFrom parts call) (h' : AssembledFrom parts call') : call = call' := by
  have hopened := h.opened.symm.trans h'.opened
  have hname := h.name.trans h'.name.symm
  have harguments := h.arguments.trans h'.arguments.symm
  simp only [Option.some.injEq, Prod.mk.injEq] at hopened
  cases call
  cases call'
  simp_all only

/-! ## Collecting -/

/-- What a delta does to its call. -/
def extendCall (old : Option ToolCall) (tc : ToolCallDelta) : ToolCall :=
  let call := old.getD ⟨tc.id, tc.type, "", ""⟩
  { call with name := call.name ++ tc.name.getD "", arguments := call.arguments ++ tc.arguments.getD "" }

def extendEntry (old : Option (ℤ × ToolCall)) (tc : ToolCallDelta) : ℤ × ToolCall :=
  (tc.index, extendCall (old.map Prod.snd) tc)

theorem addToolCall_eq_feed (toolCalls : List (ℤ × ToolCall)) (tc : ToolCallDelta) :
    addToolCall toolCalls tc = feed Prod.fst ToolCallDelta.index extendEntry toolCalls tc :=
  assocSet_eq_upsert tc.index (fun old => extendCall old tc) toolCalls

theorem foldl_add_toolCalls (chunks : List (Option Delta)) (c : Collected) :
    (chunks.foldl (fun c chunk => (chunk.map c.add).getD c) c).toolCalls =
      (callFragments chunks).foldl (feed Prod.fst ToolCallDelta.index extendEntry) c.toolCalls := by
  induction chunks generalizing c with
  | nil => rfl
  | cons chunk chunks ih =>
    rw [List.foldl_cons, ih]
    cases chunk with
    | none => rfl
    | some delta =>
      have hadd : addToolCall = feed Prod.fst ToolCallDelta.index extendEntry :=
        funext fun toolCalls => funext fun tc => addToolCall_eq_feed toolCalls tc
      show (callFragments chunks).foldl _ (delta.toolCalls.foldl addToolCall c.toolCalls) = _
      rw [hadd, ← List.foldl_append]
      rfl

theorem join_truthyText (text : Option String) : String.join (truthyText text).toList = text.getD "" := by
  unfold truthyText
  cases text with
  | none => rfl
  | some s => by_cases hs : s = "" <;> simp [hs, Option.filter]

theorem foldl_add_content (chunks : List (Option Delta)) (c : Collected) :
    String.join (chunks.foldl (fun c chunk => (chunk.map c.add).getD c) c).content =
      String.join c.content ++ String.join (contentFragments chunks) := by
  induction chunks generalizing c with
  | nil => simp [contentFragments]
  | cons chunk chunks ih =>
    rw [List.foldl_cons, ih]
    cases chunk with
    | none => rfl
    | some delta =>
      have hfirst : String.join (c.add delta).content = String.join c.content ++ delta.content.getD "" := by
        show String.join (c.content ++ (truthyText delta.content).toList) = _
        rw [String.join_append, join_truthyText]
      show String.join (c.add delta).content ++ _ = _
      rw [hfirst, String.append_assoc]
      cases hcontent : delta.content <;> simp [contentFragments, hcontent]

theorem collect_content (chunks : List (Option Delta)) :
    String.join (collect chunks).content = String.join (contentFragments chunks) := by
  unfold collect
  rw [foldl_add_content]
  simp

theorem total_extendEntry (parts : List ToolCallDelta) {entry : ℤ × ToolCall}
    (h : total extendEntry parts = some entry) : AssembledFrom parts entry.2 := by
  induction parts using List.reverseRecOn generalizing entry with
  | nil => cases h
  | append_singleton parts tc ih =>
    rw [total_append] at h
    obtain rfl := Option.some.inj h
    cases hold : total extendEntry parts with
    | none =>
      rw [total_eq_none extendEntry hold]
      exact ⟨rfl, by simp [extendEntry, extendCall], by simp [extendEntry, extendCall]⟩
    | some old =>
      obtain ⟨hopened, hname, harguments⟩ := ih hold
      have hparts : parts ≠ [] := fun hnil => by
        rw [hnil] at hold
        cases hold
      refine ⟨?_, ?_, ?_⟩
      · rw [List.head?_append_of_ne_nil _ hparts]
        exact hopened
      · show old.2.name ++ tc.name.getD "" = _
        rw [List.map_append, String.join_append, hname]
        simp
      · show old.2.arguments ++ tc.arguments.getD "" = _
        rw [List.map_append, String.join_append, harguments]
        simp

/-- One call per index, in the order of the first fragments. -/
theorem collect_calls (chunks : List (Option Delta)) :
    List.Forall₂ (fun i call => AssembledFrom (eventsOf ToolCallDelta.index i (callFragments chunks)) call)
      ((callFragments chunks).map ToolCallDelta.index).eraseDups
      ((collect chunks).toolCalls.map Prod.snd) := by
  have hfold := forall₂_foldl_feed Prod.fst ToolCallDelta.index extendEntry (fun _ _ => rfl) (callFragments chunks)
  have hcollect := foldl_add_toolCalls chunks ⟨[], []⟩
  rw [List.forall₂_map_right_iff]
  unfold collect
  rw [hcollect]
  exact hfold.imp fun i entry h => total_extendEntry _ h.2

/-! ## The stored and the published reply -/

/-- The arguments that a call is dispatched with. -/
def DecodesTo (arguments : String) (args : Json) : Prop :=
  if arguments = "" then args = .obj [] else Decoder.decode arguments = some args

section Replies
variable {env : Env}

theorem decodesTo_of_parse {arguments : String} {args : Json} (h : parseArguments env arguments = .ok args) :
    DecodesTo arguments args := by
  have hdecoded := (jsonLoads_eq_ok.mp h).2
  unfold DecodesTo
  split_ifs at hdecoded ⊢ with hempty
  · have hbraces : Decoder.decode "\x7b\x7d" = some (.obj []) := by decide +kernel
    exact Option.some.inj (hdecoded.symm.trans hbraces)
  · exact hdecoded

theorem parse_ok {arguments : String}
    (h : arguments = "" ∨ (Decoder.decode arguments).isSome = true ∧ env.refuses arguments = false) :
    ∃ args, parseArguments env arguments = .ok args := by
  unfold parseArguments
  by_cases hempty : arguments = ""
  · rw [if_pos hempty]
    have hbraces : env.refuses "\x7b\x7d" = false := env.limits.flat _ (by decide) (by decide)
    exact ⟨.obj [], jsonLoads_eq_ok.mpr ⟨hbraces, by decide +kernel⟩⟩
  · rw [if_neg hempty]
    obtain ⟨hvalid, hloaded⟩ := h.resolve_left hempty
    obtain ⟨args, hargs⟩ := Option.isSome_iff_exists.mp hvalid
    exact ⟨args, jsonLoads_eq_ok.mpr ⟨hloaded, hargs⟩⟩

/-- The first message of a stream; a batch follows only when all arguments are loaded. -/
theorem streamResponse_opens (env : Env) (target : Target) (chunks : List (Option Delta)) {w : World}
    (hw : w.usable = true) :
    ∃ w' turns batches, streamResponse env.reliable target chunks none w = .ok () w' ∧
      Wrote env target.sessionId (assistantTurn target.taskId (String.join (contentFragments chunks))
        ((collect chunks).toolCalls.map Prod.snd) :: turns) batches [] w w' ∧
      (∀ payload, (collect chunks).toolCalls.map Prod.snd ≠ [] →
        payloadOf env ((collect chunks).toolCalls.map Prod.snd) = .ok payload →
        turns = [] ∧ batches = [batchEvent target payload]) ∧
      (∀ bad, payloadOf env ((collect chunks).toolCalls.map Prod.snd) = .error bad → batches = []) := by
  generalize hcalls : (collect chunks).toolCalls.map Prod.snd = calls
  obtain ⟨w₁, hrun₁, hstreamed⟩ := readStream_run target.taskId ⟨[], []⟩ chunks w
  change readStream target.taskId ⟨[], []⟩ chunks w = .ok (collect chunks) w₁ at hrun₁
  have h₁ : Pending env target.sessionId [] [] w w₁ := (Pending.refl hw).streamed hstreamed
  have hstream : streamResponse env.reliable target chunks none w =
      (tryCatch (processResponse env.reliable target (collect chunks).content calls) fun e =>
        reportStreamError env.reliable target e.message) w₁ := by
    unfold streamResponse
    rw [tryCatch_run, tryCatch_run, bind_run, hrun₁]
    simp only
    rw [hcalls]
  rw [← collect_content, hstream, tryCatch_run]
  rcases (processResponse_opens (collect chunks).content calls h₁.usable).cases with
    ⟨_, w', hrun, turns, batches, hwrote, hbatch, hbad⟩ | ⟨e, w₂, hrun, hrefused, h₂⟩
  · rw [hrun]
    exact ⟨w', turns, batches, rfl, h₁.wrote hwrote, hbatch, hbad⟩
  · -- the message of the calls is in the unit of work that the report of the error commits
    rw [hrun]
    have hreport : Ends (reportStreamError env.reliable target e.message) w₂ _ fun _ _ => False :=
      reportStreamError_ends e.message h₂.usable
    rcases hreport.cases with ⟨_, w', hrun', hwrote⟩ | ⟨_, _, _, hfalse⟩
    · refine ⟨w', _, [], hrun', (h₁.trans h₂).wrote hwrote, fun payload _ hpayload => ?_, fun _ _ => rfl⟩
      obtain ⟨tc, hbad⟩ := hrefused
      rw [hpayload] at hbad
      cases hbad
    · exact hfalse.elim

end Replies

/-- **A stream stores the joined text with one assembled call per index; and when the arguments are empty or
JSON that `json.loads` gets through, it publishes these calls in one batch.** -/
theorem streamResponse_assembles (env : Env) (target : Target) (chunks : List (Option Delta)) {w : World}
    (hw : w.usable = true) :
    ∃ calls : List ToolCall,
      List.Forall₂ (fun i call => AssembledFrom (eventsOf ToolCallDelta.index i (callFragments chunks)) call)
        ((callFragments chunks).map ToolCallDelta.index).eraseDups calls ∧
      ∃ w' turns batches, streamResponse env.reliable target chunks none w = .ok () w' ∧
        Wrote env target.sessionId
          (assistantTurn target.taskId (String.join (contentFragments chunks)) calls :: turns) batches [] w w' ∧
        (calls ≠ [] → (∀ call ∈ calls, call.arguments = "" ∨
            (Decoder.decode call.arguments).isSome = true ∧ env.refuses call.arguments = false) →
          turns = [] ∧ ∃ payload, batches = [batchEvent target payload] ∧
            List.Forall₂ (fun call spec => spec.id = call.id ∧ spec.name = call.name ∧
              DecodesTo call.arguments spec.args) calls payload) := by
  refine ⟨_, collect_calls chunks, ?_⟩
  obtain ⟨w', turns, batches, hrun, hwrote, hbatch, -⟩ := streamResponse_opens env target chunks hw
  refine ⟨w', turns, batches, hrun, hwrote, fun hne hvalid => ?_⟩
  obtain ⟨payload, hpayload⟩ := (payloadOf_isOk_iff env _).mpr fun call hcall => parse_ok (hvalid call hcall)
  obtain ⟨hturns, hbatches⟩ := hbatch payload hne hpayload
  refine ⟨hturns, payload, hbatches, (payloadOf_eq_ok hpayload).imp fun call spec h => ?_⟩
  exact ⟨h.1, h.2.1, decodesTo_of_parse h.2.2⟩

def readArguments : String := "\x7b\"filepath\": \"a.txt\"\x7d"

/-- Two calls whose fragments alternate, around an empty chunk; the second has no arguments. -/
def alternatingChunks : List (Option Delta) :=
  [some ⟨none, some "Look", [⟨7, some "call_a", some "function", some "read_", none⟩]⟩,
    some ⟨none, some "ing", [⟨2, some "call_b", some "function", some "git_status", none⟩,
      ⟨7, none, none, some "file", some "\x7b\"filepath\": "⟩]⟩,
    none,
    some ⟨none, none, [⟨7, none, none, none, some "\"a.txt\"\x7d"⟩]⟩]

theorem alternating_assembles : ∃ w',
    streamResponse localEnv.reliable ⟨some "t1", "s1", "acme"⟩ alternatingChunks none
      (World.start [localSession "auto"]) = .ok () w' ∧
    w'.executionQueue.map (fun m => m.data.tools) =
      [[⟨some "call_a", "read_file", .obj [("filepath", .str "a.txt")]⟩, ⟨some "call_b", "git_status", .obj []⟩]] := by
  have hw : (World.start [localSession "auto"]).usable = true := rfl
  obtain ⟨calls, hcalls, w', turns, batches, hrun, hwrote, hbatch⟩ :=
    streamResponse_assembles localEnv ⟨some "t1", "s1", "acme"⟩ alternatingChunks hw
  refine ⟨w', hrun, ?_⟩
  have hindexes : ((callFragments alternatingChunks).map ToolCallDelta.index).eraseDups = [7, 2] := by decide
  rw [hindexes] at hcalls
  obtain ⟨read, rest, hread, hrest, rfl⟩ := List.forall₂_cons_left_iff.mp hcalls
  obtain ⟨status, rest, hstatus, hnil, rfl⟩ := List.forall₂_cons_left_iff.mp hrest
  obtain rfl := List.forall₂_nil_left_iff.mp hnil
  have hcallA : AssembledFrom (eventsOf ToolCallDelta.index 7 (callFragments alternatingChunks))
      ⟨some "call_a", some "function", "read_file", readArguments⟩ := ⟨by decide, by decide, by decide⟩
  have hcallB : AssembledFrom (eventsOf ToolCallDelta.index 2 (callFragments alternatingChunks))
      ⟨some "call_b", some "function", "git_status", ""⟩ := ⟨by decide, by decide, by decide⟩
  obtain rfl := hread.unique hcallA
  obtain rfl := hstatus.unique hcallB
  have hread : Decoder.decode readArguments = some (.obj [("filepath", .str "a.txt")]) := by decide +kernel
  obtain ⟨-, payload, rfl, hpayload⟩ := hbatch (List.cons_ne_nil _ _) (by simp [hread, localEnv, Limits.unlimited])
  obtain ⟨spec, rest, ⟨hid, hname, hargs⟩, hrest, rfl⟩ := List.forall₂_cons_left_iff.mp hpayload
  obtain ⟨spec', rest, ⟨hid', hname', hargs'⟩, hnil, rfl⟩ := List.forall₂_cons_left_iff.mp hrest
  obtain rfl := List.forall₂_nil_left_iff.mp hnil
  have hdecoded : spec.args = .obj [("filepath", .str "a.txt")] :=
    (Option.some.inj (hread.symm.trans hargs)).symm
  have hempty : spec'.args = .obj [] := hargs'
  obtain ⟨id, name, args⟩ := spec
  obtain ⟨id', name', args'⟩ := spec'
  simp only at hid hname hid' hname' hdecoded hempty
  rw [hwrote.executionQueue, hid, hname, hid', hname', hdecoded, hempty]
  rfl

/-! ## Arguments beyond the limits of the interpreter -/

/-- The least number of 4301 digits. -/
@[irreducible] def digitLimit : ℕ := 10 ^ 4300

/-- The machine with the limit that the interpreter has by default. -/
def limitedEnv : Env := { localEnv with limits := Encoder.digitLimits 4300 (by decide) }

def longNumber : String := Encoder.dumps [("timeout", .int digitLimit)]

theorem decode_longNumber : Decoder.decode longNumber = some (.obj [("timeout", .int digitLimit)]) :=
  Encoder.decode_dumps (List.nodup_singleton _)

theorem refuses_longNumber : limitedEnv.refuses longNumber = true := by
  refine Encoder.refuses_dumps (by decide) "timeout" ?_
  unfold digitLimit
  exact Nat.le_refl _

def bashCall (arguments : String) : ToolCall := ⟨some "call_1", some "function", "bash_execute", arguments⟩

/-- One call, in one fragment. -/
def bashChunks (arguments : String) : List (Option Delta) :=
  [some ⟨none, none, [⟨0, some "call_1", some "function", some "bash_execute", some arguments⟩]⟩]

theorem assembled_bash {arguments : String} {calls : List ToolCall}
    (h : List.Forall₂ (fun i call => AssembledFrom
        (eventsOf ToolCallDelta.index i (callFragments (bashChunks arguments))) call)
      ((callFragments (bashChunks arguments)).map ToolCallDelta.index).eraseDups calls) :
    calls = [bashCall arguments] := by
  have hindexes : ((callFragments (bashChunks arguments)).map ToolCallDelta.index).eraseDups = [0] := rfl
  rw [hindexes] at h
  obtain ⟨call, rest, hcall, hnil, rfl⟩ := List.forall₂_cons_left_iff.mp h
  obtain rfl := List.forall₂_nil_left_iff.mp hnil
  have hname : String.join ["bash_execute"] = "bash_execute" := by decide
  have harguments : String.join [arguments] = arguments := by simp
  exact congrArg (fun call => [call]) (hcall.unique ⟨rfl, hname.symm, harguments.symm⟩)

theorem payloadOf_refused {env : Env} {tc : ToolCall} (hne : tc.arguments ≠ "")
    (h : env.refuses tc.arguments = true) : payloadOf env [tc] = .error (tc, .refused) := by
  have hparse : parseArguments env tc.arguments = .error .refused := by
    unfold parseArguments jsonLoads
    rw [if_neg hne, if_pos h]
  unfold payloadOf
  rw [hparse]

theorem longNumber_ne_empty : longNumber ≠ "" := fun hempty => by
  have hnone : Decoder.decode "" = none := by decide +kernel
  have hdecoded := decode_longNumber
  rw [hempty, hnone] at hdecoded
  cases hdecoded

/-- Valid arguments with a long number end the task without a batch. -/
theorem longNumber_no_batch : ¬ ∀ (env : Env) (target : Target) (chunks : List (Option Delta)) (w : World),
    w.usable = true → ∃ calls : List ToolCall,
      List.Forall₂ (fun i call => AssembledFrom (eventsOf ToolCallDelta.index i (callFragments chunks)) call)
        ((callFragments chunks).map ToolCallDelta.index).eraseDups calls ∧
      (calls ≠ [] → (∀ call ∈ calls, call.arguments = "" ∨ (Decoder.decode call.arguments).isSome = true) →
        ∃ payload, (finalState (streamResponse env.reliable target chunks none) w).executionQueue =
          w.executionQueue ++ [⟨w.nextMessage, batchEvent target payload, 0⟩]) := by
  intro h
  have hw : (World.start [localSession "auto"]).usable = true := rfl
  obtain ⟨calls, hcalls, hbatch⟩ := h limitedEnv ⟨some "t1", "s1", "acme"⟩ (bashChunks longNumber) _ hw
  obtain rfl := assembled_bash hcalls
  obtain ⟨payload, hqueue⟩ := hbatch (List.cons_ne_nil _ _) (by simp [bashCall, decode_longNumber])
  obtain ⟨w', turns, batches, hrun, hwrote, -, hbad⟩ :=
    streamResponse_opens limitedEnv ⟨some "t1", "s1", "acme"⟩ (bashChunks longNumber) hw
  rw [assembled_bash (collect_calls (bashChunks longNumber))] at hbad
  have hrefused : payloadOf limitedEnv [bashCall longNumber] = .error (bashCall longNumber, .refused) :=
    payloadOf_refused longNumber_ne_empty refuses_longNumber
  rw [(run_eq_ok hrun).1, hwrote.executionQueue, hbad _ hrefused] at hqueue
  simp at hqueue

end KernelRuntime.AgentLoop
