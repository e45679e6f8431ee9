import KernelRuntime.Tools.ShellCommands

/-! # Arguments between quotes

The commands of the database tool and of the API tool put their arguments into double quotes, and the address of
the API tool into single quotes. What is between them is not escaped. -/

namespace KernelRuntime.ShellCommands
open Shell
open GitTools (WriteCall CommitCall)
open DatabaseQuery (Query)
open ApiTest (Request)
set_option autoImplicit false

/-! ## Queries -/

inductive QuerySlot where
  | connectionId
  | sql

def queryShape : List (Slot QuerySlot) :=
  words ["psql"] ++ fixed [.wordStart, .substStart] ++ words ["cat"] ++
    fixed (.wordStart :: lits "/secrets/".toList) ++ [.argument .connectionId] ++
    fixed [.wordEnd, .substEnd, .wordEnd] ++ words ["-c"] ++ wordOf .sql ++ words ["--csv"] ++
    fixed [.wordStart, .lit '2', .wordEndRedirect] ++ op ">&" ++ words ["1"]

def queryValue (upper : String → String) (q : Query) : QuerySlot → List Char
  | .connectionId => q.connectionId.toList
  | .sql => (DatabaseQuery.sqlText upper q).toList

theorem query_connection (text more : List Char) (R : List Event) :
    run .start ("psql \"$(cat /secrets/".toList ++ (text ++ (")\" -c \"".toList ++ more))) =
        some (simple ["psql"] ++ [.wordStart, .substStart] ++ simple ["cat"] ++ .wordStart :: lits "/secrets/".toList ++
          (lits text ++ ([.wordEnd, .substEnd, .wordEnd] ++ simple ["-c"] ++ [.wordStart] ++ R))) ↔
      bare text = true ∧ run ⟨.double, .nothing, []⟩ more = some R := by
  have hstart : reads .start "psql \"$(cat /secrets/".toList =
      some (simple ["psql"] ++ [.wordStart, .substStart] ++ simple ["cat"] ++ .wordStart :: lits "/secrets/".toList,
        inWord [.subst true]) := by decide +kernel
  have hnext : reads (inWord [.subst true]) ")\" -c \"".toList =
      some ([.wordEnd, .substEnd, .wordEnd] ++ simple ["-c"] ++ [.wordStart], ⟨.double, .nothing, []⟩) := by
    decide +kernel
  have hparen : ")\" -c \"".toList ++ more = ')' :: ("\" -c \"".toList ++ more) := rfl
  rw [run_of_reads_iff hstart, hparen, inWord, run_bare_iff (by decide), ← hparen]
  exact and_congr_right fun _ => run_of_reads_iff hnext more R

theorem queryCommand_reads_iff (upper : String → String) (q : Query) :
    lex (DatabaseQuery.command upper q).toList = some (fill (queryValue upper q) queryShape) ↔
      bare q.connectionId.toList = true ∧ doubleLiteral (DatabaseQuery.sqlText upper q).toList = true := by
  have htext : (DatabaseQuery.command upper q).toList = "psql \"$(cat /secrets/".toList ++ (q.connectionId.toList ++
      (")\" -c \"".toList ++ ((DatabaseQuery.sqlText upper q).toList ++ '"' :: ' ' :: "--csv 2>&1".toList))) := by
    have hquote : "\" --csv 2>&1".toList = '"' :: ' ' :: "--csv 2>&1".toList := rfl
    unfold DatabaseQuery.command
    simp only [String.toList_append, List.append_assoc, hquote, -String.reduceToList]
  have hshape : fill (queryValue upper q) queryShape =
      simple ["psql"] ++ [.wordStart, .substStart] ++ simple ["cat"] ++ .wordStart :: lits "/secrets/".toList ++
        (lits q.connectionId.toList ++ ([.wordEnd, .substEnd, .wordEnd] ++ simple ["-c"] ++ [.wordStart] ++
          (lits (DatabaseQuery.sqlText upper q).toList ++ ([.wordEnd] ++ (simple ["--csv"] ++
            [.wordStart, .lit '2', .wordEndRedirect] ++ operator ">&".toList ++ simple ["1"]))))) := by
    unfold queryShape
    simp only [fill_append, fill_words, fill_op, fill_fixed, fill_wordOf, fill_argument, -String.reduceToList]
    simp only [queryValue, word_eq, List.append_assoc, List.cons_append, List.nil_append, -String.reduceToList]
  have hend : run ⟨.word, .nothing, []⟩ (' ' :: "--csv 2>&1".toList) = some ([.wordEnd] ++ (simple ["--csv"] ++
      [.wordStart, .lit '2', .wordEndRedirect] ++ operator ">&".toList ++ simple ["1"])) := by decide +kernel
  rw [htext, hshape, lex, query_connection, run_double_iff (by decide), hend]
  simp

/-! ## Requests -/

inductive RequestSlot where
  | method
  | headerName (i : ℕ)
  | headerValue (i : ℕ)
  | body
  | endpoint

/-- `n` headers, the first of them with the number `i`. -/
def headersShape (i : ℕ) : ℕ → List (Slot RequestSlot)
  | 0 => []
  | n + 1 =>
    words ["-H"] ++ [.fixed .wordStart, .argument (.headerName i)] ++ fixed (lits ": ".toList) ++
      [.argument (.headerValue i), .fixed .wordEnd] ++ headersShape (i + 1) n

def requestShape (headers : ℕ) (body : Bool) : List (Slot RequestSlot) :=
  words ["curl", "-s", "-w", "\\nHTTP_CODE:%\x7bhttp_code\x7d", "-X"] ++ wordOf .method ++ headersShape 0 headers ++
    (if body then words ["-d"] ++ wordOf .body else []) ++ wordOf .endpoint

def requestValue (upper : String → String) (r : Request) : RequestSlot → List Char
  | .method => (upper r.method).toList
  | .headerName i => (r.headers[i]?.map fun header => header.1.toList).getD []
  | .headerValue i => (r.headers[i]?.map fun header => header.2.toList).getD []
  | .body => (r.body.getD "").toList
  | .endpoint => r.endpoint.toList

/-- An empty body is not sent. -/
def hasBody (r : Request) : Bool := r.body.any fun text => decide (text ≠ "")

def headerLine (header : String × String) : List Char := header.1.toList ++ (": ".toList ++ header.2.toList)

def headerEvents (header : String × String) : List Event := simple ["-H"] ++ word (headerLine header)

theorem fill_headersShape (value : RequestSlot → List Char) (i : ℕ) (headers : List (String × String))
    (hname : ∀ j, value (.headerName (i + j)) = (headers[j]?.map fun header => header.1.toList).getD [])
    (hvalue : ∀ j, value (.headerValue (i + j)) = (headers[j]?.map fun header => header.2.toList).getD []) :
    fill value (headersShape i headers.length) = headers.flatMap headerEvents := by
  induction headers generalizing i with
  | nil => rfl
  | cons header headers ih =>
    have hrest := ih (i + 1) (fun j => by rw [Nat.add_assoc, Nat.add_comm 1 j, hname]; rfl)
      (fun j => by rw [Nat.add_assoc, Nat.add_comm 1 j, hvalue]; rfl)
    have hfirst : value (.headerName i) = header.1.toList := hname 0
    have hsecond : value (.headerValue i) = header.2.toList := hvalue 0
    rw [List.length_cons, headersShape, fill_append, hrest, List.flatMap_cons]
    congr 1
    simp only [fill_append, fill_words, fill_fixed, -String.reduceToList]
    simp [fill, hfirst, hsecond, headerEvents, headerLine, word, lits_append, -String.reduceToList]

theorem headerArgs_cons (header : String × String) (headers : List (String × String)) (rest : List Char) :
    (ApiTest.headerArgs (header :: headers)).toList ++ ' ' :: rest =
      "-H \"".toList ++ (headerLine header ++ '"' :: ' ' ::
        if headers = [] then rest else (ApiTest.headerArgs headers).toList ++ ' ' :: rest) := by
  have hquote : "\"".toList = ['"'] := rfl
  have hblank : " ".toList = [' '] := rfl
  unfold ApiTest.headerArgs headerLine
  rw [String.toList_intercalate, String.toList_intercalate]
  cases headers with
  | nil =>
    simp [ApiTest.headerArg, List.intercalate, hquote, -String.reduceToList]
  | cons header' headers =>
    simp [ApiTest.headerArg, List.intercalate, hquote, hblank, -String.reduceToList]

theorem headers_read_iff (headers : List (String × String)) (rest : List Char) (R : List Event) :
    run (between []) ((ApiTest.headerArgs headers).toList ++ ' ' :: rest) =
        some (headers.flatMap headerEvents ++ R) ↔
      (∀ header ∈ headers, doubleLiteral (headerLine header) = true) ∧ run (between []) rest = some R := by
  have hreads : reads (between []) "-H \"".toList = some (simple ["-H"] ++ [.wordStart], ⟨.double, .nothing, []⟩) := by
    decide +kernel
  induction headers with
  | nil =>
    have hnone : (ApiTest.headerArgs []).toList = [] := rfl
    rw [hnone, List.nil_append, between, run_gap_blank]
    simp
  | cons header headers ih =>
    rw [headerArgs_cons, List.flatMap_cons, headerEvents, List.append_assoc, List.append_assoc, between,
      run_quoted_iff hreads, List.forall_mem_cons, and_assoc]
    refine and_congr_right fun _ => ?_
    split_ifs with hnil
    · subst hnil
      simp
    · exact ih

theorem body_read_iff (r : Request) (rest : List Char) (R : List Event) :
    run (between []) ((ApiTest.bodyArg r.body).toList ++ ' ' :: rest) =
        some ((if hasBody r then simple ["-d"] ++ word (r.body.getD "").toList else []) ++ R) ↔
      (hasBody r = true → doubleLiteral (r.body.getD "").toList = true) ∧ run (between []) rest = some R := by
  have hreads : reads (between []) "-d \"".toList = some (simple ["-d"] ++ [.wordStart], ⟨.double, .nothing, []⟩) := by
    decide +kernel
  have hnone : ("".toList ++ ' ' :: rest) = ' ' :: rest := rfl
  unfold ApiTest.bodyArg hasBody
  cases r.body with
  | none =>
    rw [between, hnone, run_gap_blank]
    simp
  | some text =>
    by_cases htext : text = ""
    · subst htext
      simp only [if_true]
      rw [between, hnone, run_gap_blank]
      simp
    · have hquote : "\"".toList = ['"'] := rfl
      simp only [htext, if_false, Option.any_some, ne_eq, not_false_eq_true, decide_true, if_true, true_implies,
        Option.getD_some, String.toList_append, List.append_assoc, hquote, List.cons_append, List.nil_append,
        -String.reduceToList]
      exact run_quoted_iff hreads

theorem endpoint_read_iff (text : List Char) :
    run (between []) ('\'' :: (text ++ "'".toList)) = some (word text) ↔ '\'' ∉ text := by
  have hstep : run (between []) ('\'' :: (text ++ "'".toList)) =
      (run inSingle (text ++ ['\''])).map ([.wordStart] ++ ·) := run_cons_of_step _ _ rfl
  rw [hstep, word, map_cons_eq_some_iff, inSingle, run_single_iff]
  simp

theorem requestCommand_reads_iff (py : ApiTest.TextMethods) (r : Request)
    (hmethod : bareWord (py.upper r.method).toList = true) :
    lex (ApiTest.command py r).toList =
        some (fill (requestValue py.upper r) (requestShape r.headers.length (hasBody r))) ↔
      (∀ header ∈ r.headers, doubleLiteral (headerLine header) = true) ∧
        (hasBody r = true → doubleLiteral (r.body.getD "").toList = true) ∧ '\'' ∉ r.endpoint.toList := by
  have htext : (ApiTest.command py r).toList = "curl -s -w '\\nHTTP_CODE:%\x7bhttp_code\x7d' -X ".toList ++
      ((py.upper r.method).toList ++ ' ' :: ((ApiTest.headerArgs r.headers).toList ++ ' ' ::
        ((ApiTest.bodyArg r.body).toList ++ ' ' :: '\'' :: (r.endpoint.toList ++ "'".toList)))) := by
    have hblank : " ".toList = [' '] := rfl
    have hquote : " '".toList = [' ', '\''] := rfl
    unfold ApiTest.command
    simp only [String.toList_append, List.append_assoc, hblank, hquote, List.cons_append, List.nil_append,
      -String.reduceToList]
  have hheaders : fill (requestValue py.upper r) (headersShape 0 r.headers.length) =
      r.headers.flatMap headerEvents :=
    fill_headersShape _ 0 r.headers (fun j => by rw [Nat.zero_add]; rfl) (fun j => by rw [Nat.zero_add]; rfl)
  have hshape : fill (requestValue py.upper r) (requestShape r.headers.length (hasBody r)) =
      simple ["curl", "-s", "-w", "\\nHTTP_CODE:%\x7bhttp_code\x7d", "-X"] ++ (word (py.upper r.method).toList ++
        (r.headers.flatMap headerEvents ++
          ((if hasBody r then simple ["-d"] ++ word (r.body.getD "").toList else []) ++
            word r.endpoint.toList))) := by
    unfold requestShape
    simp only [fill_append, fill_words, fill_wordOf, hheaders, List.append_assoc, -String.reduceToList]
    cases hasBody r <;> rfl
  have hstart : reads .start "curl -s -w '\\nHTTP_CODE:%\x7bhttp_code\x7d' -X ".toList =
      some (simple ["curl", "-s", "-w", "\\nHTTP_CODE:%\x7bhttp_code\x7d", "-X"], between []) := by decide +kernel
  rw [htext, hshape, lex, run_of_reads_iff hstart, between, run_bareWord hmethod, ← between]
  have hdrop {o : Option (List Event)} {es R : List Event} : o.map (es ++ ·) = some (es ++ R) ↔ o = some R := by
    cases o <;> simp
  rw [hdrop, headers_read_iff, body_read_iff, endpoint_read_iff]

/-! ## Every tool -/

/-- A call of a tool whose arguments go into a shell command. -/
inductive ToolCall where
  | write (call : WriteCall)
  | commit (sessionId : String) (call : CommitCall)
  | query (q : Query)
  | request (r : Request)

/-- The runtime of the tools. -/
structure Runtime where
  hash : String → ℤ
  py : ApiTest.TextMethods

namespace ToolCall
variable (rt : Runtime)

def command : ToolCall → String
  | .write call => GitTools.writeCommand rt.hash call
  | .commit sessionId call => GitTools.commitCommand sessionId call
  | .query q => DatabaseQuery.command rt.py.upper q
  | .request r => ApiTest.command rt.py r

/-- The words and operators that the command is to have: those of its shape, with every argument as it is in one
word. -/
def tokens : ToolCall → List Event
  | .write call => fill (writeValue rt.hash call) writeShape
  | .commit sessionId call => fill (commitValue sessionId call) (commitShape call.branchName.isSome call.push)
  | .query q => fill (queryValue rt.py.upper q) queryShape
  | .request r => fill (requestValue rt.py.upper r) (requestShape r.headers.length (hasBody r))

/-- The method of a request is a word. -/
def MethodIsWord : ToolCall → Prop
  | .request r => bareWord (rt.py.upper r.method).toList = true
  | _ => True

/-- Every argument stands for itself where it is put. -/
def Literal : ToolCall → Prop
  | .write call => bareWord (call.branchName rt.hash).toList = true ∧ bareWord call.filepath.toList = true
  | .commit sessionId call =>
    bare sessionId.toList = true ∧ ∀ branch ∈ call.branchName, bareWord branch.toList = true
  | .query q =>
    bare q.connectionId.toList = true ∧ doubleLiteral (DatabaseQuery.sqlText rt.py.upper q).toList = true
  | .request r =>
    (∀ header ∈ r.headers, doubleLiteral (headerLine header) = true) ∧
      (hasBody r = true → doubleLiteral (r.body.getD "").toList = true) ∧ '\'' ∉ r.endpoint.toList

end ToolCall

/-- **A command has the words and operators of its shape exactly if each argument stands for itself in its place.** -/
theorem command_tokens_iff (rt : Runtime) (call : ToolCall) (hmethod : call.MethodIsWord rt) :
    lex (call.command rt).toList = some (call.tokens rt) ↔ call.Literal rt := by
  cases call with
  | write call => exact writeCommand_reads_iff rt.hash call
  | commit sessionId call => exact commitCommand_reads_iff sessionId call
  | query q => exact queryCommand_reads_iff rt.py.upper q
  | request r => exact requestCommand_reads_iff rt.py r hmethod

def sampleRuntime : Runtime := ⟨fun _ => 7, ApiTest.sampleMethods⟩

theorem command_tokens_plain :
    lex (ToolCall.command sampleRuntime (.write ⟨"src/a.py", "it's", none⟩)).toList =
      some (ToolCall.tokens sampleRuntime (.write ⟨"src/a.py", "it's", none⟩)) :=
  (command_tokens_iff sampleRuntime (.write ⟨"src/a.py", "it's", none⟩) trivial).mpr ⟨by decide +kernel, by decide +kernel⟩

/-- A path with a blank is two words. -/
theorem path_with_blank : ¬ ∀ (rt : Runtime) (call : ToolCall), call.MethodIsWord rt →
    lex (call.command rt).toList = some (call.tokens rt) := by
  intro h
  exact absurd (h sampleRuntime (.write ⟨"my notes.txt", "", some "main"⟩) trivial) (by decide +kernel)

end KernelRuntime.ShellCommands
