import KernelRuntime.Foundations.ShellWords

/-! # Commands with places for arguments

A shape is what the shell is meant to read: words, operators and substitutions that are the same for all
arguments, and the places inside words at which an argument stands literally. -/

namespace KernelRuntime.Shell
set_option autoImplicit false

inductive Slot (α : Type) where
  | fixed (e : Event)
  | argument (a : α)

/-- Words that are the same for all arguments. -/
def simple (ws : List String) : List Event := ws.flatMap fun w => word w.toList

section Shapes
variable {α : Type}

/-- The shape with its arguments put in. -/
def fill (value : α → List Char) : List (Slot α) → List Event
  | [] => []
  | .fixed e :: shape => e :: fill value shape
  | .argument a :: shape => lits (value a) ++ fill value shape

def fixed (es : List Event) : List (Slot α) := es.map .fixed

def words (ws : List String) : List (Slot α) := fixed (simple ws)

def op (text : String) : List (Slot α) := fixed (operator text.toList)

/-- An argument that is a word. -/
def wordOf (a : α) : List (Slot α) := [.fixed .wordStart, .argument a, .fixed .wordEnd]

variable (value : α → List Char)

@[simp] theorem fill_nil : fill value [] = [] := rfl

@[simp] theorem fill_append (shape shape' : List (Slot α)) :
    fill value (shape ++ shape') = fill value shape ++ fill value shape' := by
  induction shape with
  | nil => rfl
  | cons slot shape ih =>
    cases slot with
    | fixed e => rw [List.cons_append, fill, fill, ih, List.cons_append]
    | argument a => rw [List.cons_append, fill, fill, ih, List.append_assoc]

@[simp] theorem fill_fixed (es : List Event) : fill value (fixed es) = es := by
  induction es with
  | nil => rfl
  | cons e es ih => exact congrArg (e :: ·) ih

@[simp] theorem fill_words (ws : List String) : fill value (words ws) = simple ws :=
  fill_fixed value _

@[simp] theorem fill_op (text : String) : fill value (op text) = operator text.toList := fill_fixed value _

@[simp] theorem fill_argument (a : α) : fill value [.argument a] = lits (value a) :=
  List.append_nil _

@[simp] theorem fill_wordOf (a : α) : fill value (wordOf a) = word (value a) := by
  simp [wordOf, fill, word]

end Shapes

variable {frames : List Frame} {c : Char} {text rest mid : List Char} {R es : List Event} {s : State}

/-! ## A text in its place -/

/-- A word between blanks. -/
theorem run_word_iff (hmid : mid = ' ' :: c :: rest) (hmem : c ∉ gapChars)
    (hgap : ∀ rest es, run ⟨.gap, .nothing, frames⟩ (c :: rest) = some (.wordStart :: es) → ∃ es', es = .lit c :: es')
    (hreads : reads ⟨.word, .nothing, frames⟩ mid = some (.wordEnd :: es, s)) (more : List Char) :
    run ⟨.gap, .nothing, frames⟩ (text ++ (mid ++ more)) = some (word text ++ (es ++ R)) ↔
      bareWord text = true ∧ run s more = some R := by
  have htail : mid ++ more = ' ' :: c :: (rest ++ more) := by rw [hmid]; rfl
  have hends : EndsWord frames (mid ++ more) (es ++ R) := htail ▸ endsWord_blank hmem (hgap (rest ++ more))
  have hshape : word text ++ (es ++ R) = .wordStart :: (lits text ++ .wordEnd :: (es ++ R)) := by simp [word]
  rw [hshape, run_bareWord_iff hends ⟨' ', _, htail, by decide⟩]
  exact and_congr_right fun _ => run_of_reads_iff hreads more R

/-- The last word of a substitution. -/
theorem run_word_paren_iff (hmid : mid = ')' :: rest)
    (hreads : reads ⟨.word, .nothing, frames⟩ mid = some (.wordEnd :: es, s)) (more : List Char) :
    run ⟨.gap, .nothing, frames⟩ (text ++ (mid ++ more)) = some (word text ++ (es ++ R)) ↔
      bareWord text = true ∧ run s more = some R := by
  have htail : mid ++ more = ')' :: (rest ++ more) := by rw [hmid]; rfl
  have hends : EndsWord frames (mid ++ more) (es ++ R) := htail ▸ endsWord_paren
  have hshape : word text ++ (es ++ R) = .wordStart :: (lits text ++ .wordEnd :: (es ++ R)) := by simp [word]
  rw [hshape, run_bareWord_iff hends ⟨')', _, htail, by decide⟩]
  exact and_congr_right fun _ => run_of_reads_iff hreads more R

/-- A text in single quotes whose single quotes were replaced. -/
theorem run_escaped_iff (hmid : mid = '\'' :: rest) (hreads : reads ⟨.word, .nothing, frames⟩ rest = some (es, s))
    (more : List Char) :
    run ⟨.single, .nothing, frames⟩ (escapeSingle text ++ (mid ++ more)) = some (lits text ++ (es ++ R)) ↔
      run s more = some R := by
  rw [hmid, List.cons_append, run_escapeSingle, ← run_of_reads_iff hreads more R]
  cases run ⟨.word, .nothing, frames⟩ (rest ++ more) with
  | none => simp
  | some events => simp

theorem run_bare_end (htext : bare text = true) :
    run ⟨.word, .nothing, []⟩ text = some (lits text ++ [.wordEnd]) := by
  induction text with
  | nil => rfl
  | cons d text ih =>
    obtain ⟨hd, hrest⟩ : bareChar d text.head? = true ∧ bare text = true := by simpa [bare] using htext
    by_cases hdollar : d = '$'
    · subst hdollar
      have hstep : run ⟨.word, .nothing, []⟩ ('$' :: text) = run ⟨.word, .dollar, []⟩ text := by
        rw [run_cons_of_step [] ⟨.word, .dollar, []⟩ rfl]
        simp
      rw [hstep]
      cases text with
      | nil => rfl
      | cons x text =>
        have hx : expands x = false := by
          simp only [bareChar, bne_self_eq_false, Bool.false_or, Bool.and_eq_true] at hd
          simpa using hd.2
        rw [run_dollar .word hx, ih hrest]
        rfl
    · have hbare : bareChar d none = true := by simpa [bareChar, hdollar] using hd
      rw [fresh_word_bare hbare hdollar, ih hrest]
      rfl

/-- A word at the end of a command. -/
theorem run_bareWord_end (htext : bareWord text = true) : run ⟨.gap, .nothing, []⟩ text = some (word text) := by
  cases text with
  | nil => cases htext
  | cons c text =>
    obtain ⟨hblank, hhash, hoperator, hback, hbare⟩ := bareChar_of_bareWord htext
    rw [run_gap_of_word hblank hhash hoperator hback, run_bare_end hbare]
    rfl

/-- A character of words begins one. -/
theorem gap_of_bare (hc : bareChar c none = true) (hhash : c ≠ '#') (hdollar : c ≠ '$') (rest : List Char)
    (es : List Event) (h : run ⟨.gap, .nothing, frames⟩ (c :: rest) = some (.wordStart :: es)) :
    ∃ es', es = .lit c :: es' := by
  have hword : bareWord [c] = true := by
    simp only [bareWord, bare, List.head?_nil, hc]
    simp [hhash]
  obtain ⟨hblank, _, hoperator, hback, _⟩ := bareChar_of_bareWord hword
  rw [run_gap_of_word hblank hhash hoperator hback, fresh_word_bare hc hdollar, Option.map_map,
    Option.map_eq_some_iff] at h
  obtain ⟨es', _, heq⟩ := h
  exact ⟨es', (List.cons.inj heq).2.symm⟩

/-- An operator begins none. -/
theorem gap_of_operator (hc : c = '&') (rest : List Char) (es : List Event)
    (h : run ⟨.gap, .nothing, frames⟩ (c :: rest) = some (.wordStart :: es)) : ∃ es', es = .lit c :: es' := by
  subst hc
  rw [run_cons_of_step [.operator '&'] ⟨.operator ['&'], .nothing, frames⟩ rfl] at h
  obtain ⟨es', _, heq⟩ := Option.map_eq_some_iff.mp h
  cases heq

/-- A word that is known to be one, and a blank. -/
theorem run_bareWord (htext : bareWord text = true) (rest : List Char) :
    run ⟨.gap, .nothing, frames⟩ (text ++ ' ' :: rest) =
      (run ⟨.gap, .nothing, frames⟩ rest).map (word text ++ ·) := by
  cases text with
  | nil => cases htext
  | cons c text =>
    obtain ⟨hblank, hhash, hoperator, hback, hbare⟩ := bareChar_of_bareWord htext
    rw [List.cons_append, run_gap_of_word hblank hhash hoperator hback, ← List.cons_append, run_bare hbare (by decide),
      run_cons_of_step [.wordEnd] ⟨.gap, .nothing, frames⟩ rfl, Option.map_map, Option.map_map]
    simp [Function.comp_def, word]

/-- A word in double quotes, and a blank. -/
theorem run_quoted_iff {front : List Char}
    (hreads : reads ⟨.gap, .nothing, frames⟩ front = some (es ++ [.wordStart], ⟨.double, .nothing, frames⟩)) :
    run ⟨.gap, .nothing, frames⟩ (front ++ (text ++ '"' :: ' ' :: rest)) = some (es ++ (word text ++ R)) ↔
      doubleLiteral text = true ∧ run ⟨.gap, .nothing, frames⟩ rest = some R := by
  have hshape : es ++ (word text ++ R) = es ++ [.wordStart] ++ (lits text ++ .wordEnd :: R) := by simp [word]
  rw [hshape, run_of_reads_iff hreads, run_double_iff (by decide),
    run_cons_of_step [.wordEnd] ⟨.gap, .nothing, frames⟩ rfl, map_cons_eq_some_iff]
  simp

end KernelRuntime.Shell
