import Mathlib.Data.List.Infix
import Mathlib.Tactic.Common

/-! # Token recognition of the POSIX shell

A text is read character by character: words, with the quotes removed, the operators between them, and the
substitutions `$(...)` with the words and operators inside. A text with a parameter or arithmetic expansion, a
backquote or a here-document is not read. Tilde and pathname expansion come after token recognition; the
characters of a pattern are literal here. -/

namespace KernelRuntime.Shell
set_option autoImplicit false

inductive Event where
  | wordStart
  | lit (c : Char)
  | wordEnd
  /-- The end of a word that a redirection follows directly: a number names the descriptor. -/
  | wordEndRedirect
  | operator (c : Char)
  /-- One more character of an operator. -/
  | operatorNext (c : Char)
  | substStart
  | substEnd
deriving DecidableEq

inductive Mode where
  | gap
  | operator (op : List Char)
  | word
  | single
  | double
  | comment
deriving DecidableEq

/-- A character that is read and whose meaning the next one decides. -/
inductive Pending where
  | nothing
  | backslash
  | dollar
deriving DecidableEq

/-- An open parenthesis: of a group, or of a substitution inside or outside double quotes. -/
inductive Frame where
  | group
  | subst (quoted : Bool)
deriving DecidableEq

structure State where
  mode : Mode
  pending : Pending
  frames : List Frame
deriving DecidableEq

def State.start : State := ⟨.gap, .nothing, []⟩

def isBlank (c : Char) : Bool := c = ' ' || c = '\t'

def operatorChars : List Char := ['&', '|', ';', '<', '>', '(', ')', '\n']

/-- The operators of more than one character. -/
def longOperators : List (List Char) :=
  ["&&".toList, "||".toList, ";;".toList, "<&".toList, ">&".toList, "<>".toList, ">>".toList, ">|".toList]

/-- `$` and one of these begin an expansion or a substitution. -/
def expands (c : Char) : Bool := c.isAlphanum || c ∈ "_@*#?-$!\x7b(".toList

/-- A backslash in double quotes quotes these. -/
def escapable (c : Char) : Bool := c ∈ ['$', '`', '"', '\\', '\n']

def startWord : Mode → List Event
  | .word => []
  | _ => [.wordStart]

def endWord (next : Char) : Mode → List Event
  | .word => [if next = '<' ∨ next = '>' then .wordEndRedirect else .wordEnd]
  | _ => []

/-- The closing parenthesis of what was opened last. -/
def closeParen : List Frame → List Event × State
  | .subst quoted :: frames => ([.substEnd], ⟨if quoted then .double else .word, .nothing, frames⟩)
  | .group :: frames => ([.operator ')'], ⟨.operator [')'], .nothing, frames⟩)
  | [] => ([.operator ')'], ⟨.operator [')'], .nothing, []⟩)

/-- A character outside quotes that begins a token, goes on with a word, or separates two. -/
def unquoted (mode : Mode) (frames : List Frame) (c : Char) : Option (List Event × State) :=
  if isBlank c then some (endWord c mode, ⟨.gap, .nothing, frames⟩)
  else if c = '#' ∧ mode ≠ .word then some ([], ⟨.comment, .nothing, frames⟩)
  else if c = ')' then some (endWord c mode ++ (closeParen frames).1, (closeParen frames).2)
  else if c = '(' then some (endWord c mode ++ [.operator c], ⟨.operator [c], .nothing, .group :: frames⟩)
  else if c ∈ operatorChars then some (endWord c mode ++ [.operator c], ⟨.operator [c], .nothing, frames⟩)
  else if c = '\'' then some (startWord mode, ⟨.single, .nothing, frames⟩)
  else if c = '"' then some (startWord mode, ⟨.double, .nothing, frames⟩)
  else if c = '\\' then some ([], ⟨mode, .backslash, frames⟩)
  else if c = '$' then some (startWord mode, ⟨.word, .dollar, frames⟩)
  else if c = '`' then none
  else some (startWord mode ++ [.lit c], ⟨.word, .nothing, frames⟩)

/-- A character where nothing is pending. -/
def fresh (mode : Mode) (frames : List Frame) (c : Char) : Option (List Event × State) :=
  match mode with
  | .single => some (if c = '\'' then ([], ⟨.word, .nothing, frames⟩) else ([.lit c], ⟨.single, .nothing, frames⟩))
  | .double =>
    if c = '"' then some ([], ⟨.word, .nothing, frames⟩)
    else if c = '\\' then some ([], ⟨.double, .backslash, frames⟩)
    else if c = '$' then some ([], ⟨.double, .dollar, frames⟩)
    else if c = '`' then none
    else some ([.lit c], ⟨.double, .nothing, frames⟩)
  | .comment =>
    if c = '\n' then some ([.operator c], ⟨.operator [c], .nothing, frames⟩)
    else some ([], ⟨.comment, .nothing, frames⟩)
  | .operator op =>
    -- arithmetic and here-documents
    if op ++ [c] = "$((".toList ∨ op ++ [c] = "<<".toList then none
    else if op ++ [c] ∈ longOperators then some ([.operatorNext c], ⟨.operator (op ++ [c]), .nothing, frames⟩)
    else unquoted mode frames c
  | _ => unquoted mode frames c

def step (s : State) (c : Char) : Option (List Event × State) :=
  match s.pending with
  | .nothing => fresh s.mode s.frames c
  | .backslash =>
    if s.mode = .double then
      if c = '\n' then some ([], ⟨.double, .nothing, s.frames⟩)
      else if escapable c then some ([.lit c], ⟨.double, .nothing, s.frames⟩)
      else some ([.lit '\\', .lit c], ⟨.double, .nothing, s.frames⟩)
    else if c = '\n' then some ([], ⟨s.mode, .nothing, s.frames⟩)
    else some (startWord s.mode ++ [.lit c], ⟨.word, .nothing, s.frames⟩)
  | .dollar =>
    if c = '(' then
      some ([.substStart], ⟨.operator ['$', '('], .nothing, .subst (decide (s.mode = .double)) :: s.frames⟩)
    else if expands c then none
    else (fresh s.mode s.frames c).map fun r => (.lit '$' :: r.1, r.2)

/-- What is left at the end of the text; no quote, substitution or backslash is open. -/
def finish (s : State) : Option (List Event) :=
  if s.frames ≠ [] ∨ s.pending = .backslash ∨ s.mode = .single ∨ s.mode = .double then none
  else some ((if s.pending = .dollar then [.lit '$'] else []) ++ endWord ' ' s.mode)

def run (s : State) : List Char → Option (List Event)
  | [] => finish s
  | c :: cs => (step s c).bind fun r => (run r.2 cs).map (r.1 ++ ·)

/-- The words and operators of a text. -/
def lex (text : List Char) : Option (List Event) := run .start text

/-- A part of a text: its events, and the state behind it. -/
def reads (s : State) : List Char → Option (List Event × State)
  | [] => some ([], s)
  | c :: cs => (step s c).bind fun r => (reads r.2 cs).map fun r' => (r.1 ++ r'.1, r'.2)

theorem run_append (s : State) (text rest : List Char) :
    run s (text ++ rest) = (reads s text).bind fun r => (run r.2 rest).map (r.1 ++ ·) := by
  induction text generalizing s with
  | nil => simp [reads]
  | cons c cs ih =>
    rw [List.cons_append, run, reads]
    cases hstep : step s c with
    | none => rfl
    | some r =>
      rw [Option.bind_some, Option.bind_some, ih]
      cases reads r.2 cs with
      | none => rfl
      | some r' => simp [Option.map_map, Function.comp_def]

/-- A text whose reading is known is read away. -/
theorem run_of_reads {s s' : State} {text : List Char} {es : List Event} (h : reads s text = some (es, s'))
    (rest : List Char) : run s (text ++ rest) = (run s' rest).map (es ++ ·) := by
  rw [run_append, h, Option.bind_some]

theorem run_of_reads_iff {s s' : State} {text : List Char} {es : List Event} (h : reads s text = some (es, s'))
    (rest : List Char) (es' : List Event) : run s (text ++ rest) = some (es ++ es') ↔ run s' rest = some es' := by
  rw [run_of_reads h]
  cases run s' rest with
  | none => simp
  | some es'' => simp

/-! ## What tokens look like -/

/-- The events of a literal text inside a word. -/
def lits (text : List Char) : List Event := text.map .lit

@[simp] theorem lits_nil : lits [] = [] := rfl

@[simp] theorem lits_cons (c : Char) (cs : List Char) : lits (c :: cs) = .lit c :: lits cs := rfl

theorem lits_append (text text' : List Char) : lits (text ++ text') = lits text ++ lits text' :=
  List.map_append

/-- A word that is literal from its start to its end. -/
def word (text : List Char) : List Event := .wordStart :: (lits text ++ [.wordEnd])

theorem word_eq (text : List Char) : word text = [.wordStart] ++ (lits text ++ [.wordEnd]) := rfl

/-- An operator that a blank or an operator precedes. -/
def operator (op : List Char) : List Event := (op.take 1).map .operator ++ (op.drop 1).map .operatorNext

end KernelRuntime.Shell
