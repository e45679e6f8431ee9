import KernelRuntime.Foundations.ShellLexer
import KernelRuntime.Foundations.TextReplace

/-! # Texts that the shell takes literally

Which texts, put in a place of a command, come out of token recognition as they are: outside quotes, in double
quotes and in single quotes, and with their single quotes replaced. A text that is not of this kind changes what
is read: once a character was not taken literally, what is read stays behind what would have to be read. -/

namespace KernelRuntime.Shell
set_option autoImplicit false

/-- `$` is literal where what follows begins no expansion. -/
def literalDollar (next : Option Char) : Bool := !next.any expands

def bareChar (c : Char) (next : Option Char) : Bool :=
  !isBlank c && !decide (c ∈ operatorChars) && !decide (c ∈ "'\"\\`".toList) && (c != '$' || literalDollar next)

/-- A text that stands for itself inside a word without quotes. -/
def bare : List Char → Bool
  | [] => true
  | c :: cs => bareChar c cs.head? && bare cs

/-- A text that is a word. -/
def bareWord (text : List Char) : Bool := bare text && !text.isEmpty && text.head? != some '#'

def doubleChar (c : Char) (next : Option Char) : Bool :=
  c != '"' && c != '`' && (c != '\\' || next.any fun x => !escapable x) && (c != '$' || literalDollar next)

/-- A text that stands for itself between double quotes. -/
def doubleLiteral : List Char → Bool
  | [] => true
  | c :: cs => doubleChar c cs.head? && doubleLiteral cs

/-- `text.replace("'", "'\"'\"'")`. -/
def escapeSingle (text : List Char) : List Char := replaceAll ['\''] "'\"'\"'".toList text

/-- What may follow a text outside quotes: a character that is no quote and goes on with no expansion. -/
def follows (c : Char) : Bool := !decide (c ∈ "\"'\\\n$".toList) && !expands c

variable {frames : List Frame} {c : Char} {text rest : List Char} {R : List Event}

/-! ## One character -/

theorem run_cons_of_step {s : State} (es : List Event) (s' : State) (h : step s c = some (es, s')) :
    run s (c :: rest) = (run s' rest).map (es ++ ·) := by
  rw [run, h, Option.bind_some]

theorem map_cons_eq_some_iff {e e' : Event} {o : Option (List Event)} :
    o.map ([e] ++ ·) = some (e' :: R) ↔ e = e' ∧ o = some R := by
  cases o <;> simp

/-- A `$` that begins no expansion. -/
theorem run_dollar (mode : Mode) (hc : expands c = false) :
    run ⟨mode, .dollar, frames⟩ (c :: rest) = (run ⟨mode, .nothing, frames⟩ (c :: rest)).map ([.lit '$'] ++ ·) := by
  have hparen : c ≠ '(' := by rintro rfl; revert hc; decide
  have hstep : step ⟨mode, .dollar, frames⟩ c = (fresh mode frames c).map fun r => (.lit '$' :: r.1, r.2) := by
    simp only [step, if_neg hparen, hc, Bool.false_eq_true, if_false]
  have hfresh : step ⟨mode, .nothing, frames⟩ c = fresh mode frames c := rfl
  rw [run, run, hstep, hfresh]
  cases fresh mode frames c with
  | none => rfl
  | some r => simp [Option.map_map, Function.comp_def]

/-- A `$` that begins one is not literal. -/
theorem run_dollar_ne (mode : Mode) (hc : expands c = true) :
    run ⟨mode, .dollar, frames⟩ (c :: rest) ≠ some (.lit '$' :: R) := by
  intro h
  rw [run] at h
  by_cases hparen : c = '('
  · simp [step, hparen] at h
  · simp [step, hparen, hc] at h

theorem fresh_single_ne (hc : c ≠ '\'') :
    run ⟨.single, .nothing, frames⟩ (c :: rest) = (run ⟨.single, .nothing, frames⟩ rest).map ([.lit c] ++ ·) :=
  run_cons_of_step _ _ (by simp [step, fresh, hc])

theorem fresh_word_bare (hc : bareChar c none = true) (hdollar : c ≠ '$') :
    run ⟨.word, .nothing, frames⟩ (c :: rest) = (run ⟨.word, .nothing, frames⟩ rest).map ([.lit c] ++ ·) := by
  simp only [bareChar, Bool.and_eq_true, Bool.not_eq_true', decide_eq_false_iff_not] at hc
  obtain ⟨⟨⟨hblank, hoperator⟩, hquote⟩, _⟩ := hc
  have hclose : c ≠ ')' := by rintro rfl; exact hoperator (by decide)
  have hopen : c ≠ '(' := by rintro rfl; exact hoperator (by decide)
  have hquotes : c ≠ '\'' ∧ c ≠ '"' ∧ c ≠ '\\' ∧ c ≠ '`' := by simpa using hquote
  refine run_cons_of_step _ _ ?_
  simp [step, fresh, unquoted, hblank, hoperator, hclose, hopen, hquotes, hdollar, startWord]

theorem fresh_double_literal (hc : c ≠ '"') (hback : c ≠ '\\') (hdollar : c ≠ '$') (htick : c ≠ '`') :
    run ⟨.double, .nothing, frames⟩ (c :: rest) = (run ⟨.double, .nothing, frames⟩ rest).map ([.lit c] ++ ·) :=
  run_cons_of_step _ _ (by simp [step, fresh, hc, hback, hdollar, htick])

/-! ## Falling behind -/

/-- Where the lexer is inside a word. -/
inductive Place where
  | word
  | wordBackslash
  | wordDollar
  | single
  | double
  | doubleBackslash
  | doubleDollar

def Place.state (frames : List Frame) : Place → State
  | .word => ⟨.word, .nothing, frames⟩
  | .wordBackslash => ⟨.word, .backslash, frames⟩
  | .wordDollar => ⟨.word, .dollar, frames⟩
  | .single => ⟨.single, .nothing, frames⟩
  | .double => ⟨.double, .nothing, frames⟩
  | .doubleBackslash => ⟨.double, .backslash, frames⟩
  | .doubleDollar => ⟨.double, .dollar, frames⟩

/-- A character that leaves the lexer inside the word, what it makes of it, and where it is then. -/
inductive Moves (c : Char) : Place → List Event → Place → Prop
  | openSingle : c = '\'' → Moves c .word [] .single
  | openDouble : c = '"' → Moves c .word [] .double
  | backslash : c = '\\' → Moves c .word [] .wordBackslash
  | dollar : c = '$' → Moves c .word [] .wordDollar
  | bare : bareChar c none = true → c ≠ '$' → Moves c .word [.lit c] .word
  | joined : c = '\n' → Moves c .wordBackslash [] .word
  | quoted : Moves c .wordBackslash [.lit c] .word
  | afterDollar {es : List Event} {p : Place} : Moves c .word es p → Moves c .wordDollar (.lit '$' :: es) p
  | closeSingle : c = '\'' → Moves c .single [] .word
  | inSingle : c ≠ '\'' → Moves c .single [.lit c] .single
  | closeDouble : c = '"' → Moves c .double [] .word
  | doubleBackslash : c = '\\' → Moves c .double [] .doubleBackslash
  | doubleDollar : c = '$' → Moves c .double [] .doubleDollar
  | inDouble : doubleChar c none = true → c ≠ '$' → Moves c .double [.lit c] .double
  | doubleJoined : c = '\n' → Moves c .doubleBackslash [] .double
  | escaped : Moves c .doubleBackslash [.lit c] .double
  | unescaped : c ≠ '"' → Moves c .doubleBackslash [.lit '\\', .lit c] .double
  | afterDoubleDollar {es : List Event} {p : Place} :
      Moves c .double es p → Moves c .doubleDollar (.lit '$' :: es) p

/-- Something that is no literal character; the literal ones before it are fewer than `n`. -/
def Breaks (n : ℕ) (es : List Event) : Prop :=
  ∃ before e after, es = before ++ e :: after ∧ (∀ c, e ≠ .lit c) ∧ before.length < n

theorem breaks_cons {n : ℕ} {e : Event} {es : List Event} (he : ∀ c, e ≠ .lit c) (hn : 0 < n) : Breaks n (e :: es) :=
  ⟨[], e, es, rfl, he, hn⟩

theorem endWord_breaks (c : Char) (es : List Event) : Breaks 1 (endWord c .word ++ es) := by
  refine breaks_cons (fun x => ?_) (by decide)
  split <;> nofun

theorem unquoted_word_cases {es : List Event} {s' : State} (h : unquoted .word frames c = some (es, s')) :
    Breaks 1 es ∨ ∃ p : Place, s' = p.state frames ∧ Moves c .word es p := by
  unfold unquoted at h
  split_ifs at h with hblank hcomment hclose hopen hoperator hsingle hdouble hback hdollar htick
  all_goals obtain ⟨rfl, rfl⟩ := Prod.mk.inj (Option.some.inj h)
  · left
    simpa using endWord_breaks c []
  · exact absurd rfl hcomment.2
  · exact .inl (endWord_breaks c _)
  · exact .inl (endWord_breaks c _)
  · exact .inl (endWord_breaks c _)
  · exact .inr ⟨.single, rfl, .openSingle hsingle⟩
  · exact .inr ⟨.double, rfl, .openDouble hdouble⟩
  · exact .inr ⟨.wordBackslash, rfl, .backslash hback⟩
  · exact .inr ⟨.wordDollar, rfl, .dollar hdollar⟩
  · refine .inr ⟨.word, rfl, .bare ?_ hdollar⟩
    simp [bareChar, hblank, hoperator, hsingle, hdouble, hback, hdollar, htick]

theorem fresh_double_cases {es : List Event} {s' : State} (h : fresh .double frames c = some (es, s')) :
    ∃ p : Place, s' = p.state frames ∧ Moves c .double es p := by
  unfold fresh at h
  simp only at h
  split_ifs at h with hclose hback hdollar htick
  all_goals obtain ⟨rfl, rfl⟩ := Prod.mk.inj (Option.some.inj h)
  · exact ⟨.word, rfl, .closeDouble hclose⟩
  · exact ⟨.doubleBackslash, rfl, .doubleBackslash hback⟩
  · exact ⟨.doubleDollar, rfl, .doubleDollar hdollar⟩
  · exact ⟨.double, rfl, .inDouble (by simp [doubleChar, hclose, hback, hdollar, htick]) hdollar⟩

/-- How many literal characters have to be missing at a place for all of what comes next to be taken from them.
The numbers are what is asked for in addition in single quotes, in double quotes and behind a backslash. -/
def need (single double backslash : ℕ) : Place → ℕ
  | .word => 1
  | .wordBackslash => 1 + backslash
  | .wordDollar => 2
  | .single => 1 + single
  | .double => 1 + double
  | .doubleBackslash => 2 + double
  | .doubleDollar => 2 + double

variable {x y z : ℕ} {p p' : Place} {es : List Event} {kind : List Char}

theorem need_pos : 0 < need x y z p := by
  cases p with
  | word | wordDollar => exact Nat.succ_pos _
  | wordBackslash | single | double | doubleBackslash | doubleDollar => simp only [need]; omega

theorem step_place {s' : State} (h : step (p.state frames) c = some (es, s')) :
    Breaks (need x y z p) es ∨ ∃ p' : Place, s' = p'.state frames ∧ Moves c p es p' := by
  cases p with
  | word => exact unquoted_word_cases h
  | wordBackslash =>
    simp only [Place.state, step, reduceCtorEq, if_false] at h
    split_ifs at h with hnewline
    all_goals obtain ⟨rfl, rfl⟩ := Prod.mk.inj (Option.some.inj h)
    · exact .inr ⟨.word, rfl, .joined hnewline⟩
    · exact .inr ⟨.word, rfl, .quoted⟩
  | single =>
    simp only [Place.state, step, fresh] at h
    split_ifs at h with hclose
    all_goals obtain ⟨rfl, rfl⟩ := Prod.mk.inj (Option.some.inj h)
    · exact .inr ⟨.word, rfl, .closeSingle hclose⟩
    · exact .inr ⟨.single, rfl, .inSingle hclose⟩
  | double => exact .inr (fresh_double_cases h)
  | doubleBackslash =>
    simp only [Place.state, step, if_true] at h
    split_ifs at h with hnewline hescapable
    all_goals obtain ⟨rfl, rfl⟩ := Prod.mk.inj (Option.some.inj h)
    · exact .inr ⟨.double, rfl, .doubleJoined hnewline⟩
    · exact .inr ⟨.double, rfl, .escaped⟩
    · exact .inr ⟨.double, rfl, .unescaped (by rintro rfl; exact hescapable (by decide))⟩
  | wordDollar =>
    simp only [Place.state, step] at h
    split_ifs at h with hparen hexpands
    · obtain ⟨rfl, rfl⟩ := Prod.mk.inj (Option.some.inj h)
      exact .inl (breaks_cons nofun need_pos)
    · obtain ⟨⟨es', s''⟩, hfresh, hr⟩ := Option.map_eq_some_iff.mp h
      obtain ⟨rfl, rfl⟩ := Prod.mk.inj hr
      rcases unquoted_word_cases hfresh with ⟨before, e, after, rfl, he, hlength⟩ | ⟨p', rfl, hmoves⟩
      · exact .inl ⟨.lit '$' :: before, e, after, rfl, he, Nat.succ_lt_succ hlength⟩
      · exact .inr ⟨p', rfl, .afterDollar hmoves⟩
  | doubleDollar =>
    simp only [Place.state, step] at h
    split_ifs at h with hparen hexpands
    · obtain ⟨rfl, rfl⟩ := Prod.mk.inj (Option.some.inj h)
      exact .inl (breaks_cons nofun need_pos)
    · obtain ⟨⟨es', s''⟩, hfresh, hr⟩ := Option.map_eq_some_iff.mp h
      obtain ⟨rfl, rfl⟩ := Prod.mk.inj hr
      obtain ⟨p', rfl, hmoves⟩ := fresh_double_cases hfresh
      exact .inr ⟨p', rfl, .afterDoubleDollar hmoves⟩

/-- The characters that a place may hold back. -/
def quoteChars : List Char := ['"', '\'', '\\', '\n', '$']

theorem Moves.mem (h : Moves c p es p') : c ∈ quoteChars ∨ .lit c ∈ es := by
  induction h with
  | openSingle hc | openDouble hc | backslash hc | dollar hc | joined hc | closeSingle hc | closeDouble hc
  | doubleBackslash hc | doubleDollar hc | doubleJoined hc => exact .inl (hc ▸ by decide)
  | bare | quoted | inSingle | inDouble | escaped | unescaped => exact .inr (by simp)
  | afterDollar _ ih | afterDoubleDollar _ ih => exact ih.imp_right (List.mem_cons_of_mem _)

/-- A character more is missing where nothing was made of it. -/
theorem Moves.need_le (hx : x ≤ 1) (hy : y ≤ 1) (hz : z ≤ 1) (h : Moves c p es p') :
    es.length + need x y z p' ≤ need x y z p + 1 := by
  induction h with
  | afterDollar _ ih | afterDoubleDollar _ ih =>
    simp only [need, List.length_cons] at ih ⊢
    omega
  | _ =>
    simp only [need, List.length_cons, List.length_nil]
    omega

/-- Nothing is missing in addition behind the quote that would have closed the text. -/
theorem Moves.need_of_double (h : Moves '"' p es p') : es.length + need 0 0 0 p' ≤ need 1 0 1 p := by
  generalize hc : '"' = c at h
  induction h with
  | afterDollar _ ih | afterDoubleDollar _ ih =>
    simp only [need, List.length_cons] at ih ⊢
    omega
  | bare hbare => exact absurd (hc ▸ hbare) (by decide)
  | inDouble hliteral => exact absurd (hc ▸ hliteral) (by decide)
  | unescaped hne => exact absurd hc.symm hne
  | backslash hc' | dollar hc' | doubleBackslash hc' | doubleDollar hc' => exact absurd (hc.trans hc') (by decide)
  | _ => simp [need]

theorem Moves.need_of_single (h : Moves '\'' p es p') : es.length + need 0 0 0 p' ≤ need 0 1 1 p := by
  generalize hc : '\'' = c at h
  induction h with
  | afterDollar _ ih | afterDoubleDollar _ ih =>
    simp only [need, List.length_cons] at ih ⊢
    omega
  | bare hbare => exact absurd (hc ▸ hbare) (by decide)
  | inSingle hne => exact absurd hc.symm hne
  | backslash hc' | dollar hc' | doubleBackslash hc' | doubleDollar hc' => exact absurd (hc.trans hc') (by decide)
  | _ => simp [need]

theorem Moves.need_of_blank (h : Moves ' ' p es p') : es.length + need 0 0 0 p' ≤ need 1 1 1 p := by
  generalize hc : ' ' = c at h
  cases h with
  | afterDollar h =>
    cases h with
    | bare hbare => exact absurd (hc ▸ hbare) (by decide)
    | openSingle hc' | openDouble hc' | backslash hc' | dollar hc' => exact absurd (hc.trans hc') (by decide)
  | afterDoubleDollar h => cases h <;> simp [need]
  | bare hbare => exact absurd (hc ▸ hbare) (by decide)
  | openSingle hc' | openDouble hc' | backslash hc' | dollar hc' => exact absurd (hc.trans hc') (by decide)
  | _ => simp [need]

/-- Literal characters are still missing; they are of some kind, as the quotes are, and as many as the place
asks for. -/
structure Behind (kind : List Char) (x y z : ℕ) (p : Place) (missing : List Char) : Prop where
  quotes : quoteChars ⊆ kind
  mem : missing ⊆ kind
  enough : need x y z p ≤ missing.length

theorem Breaks.not_prefix {n : ℕ} (missing : List Char) (h : Breaks n es) (hn : n ≤ missing.length)
    {es' R' : List Event} : es ++ es' ≠ lits missing ++ R' := by
  obtain ⟨before, e, after, rfl, he, hlength⟩ := h
  intro heq
  have hindex : before.length < (lits missing).length := by
    rw [lits, List.length_map]
    omega
  have hget := congrArg (·[before.length]?) heq
  simp only [List.append_assoc, List.getElem?_append_left hindex] at hget
  rw [List.getElem?_append_right (Nat.le_refl _), Nat.sub_self, lits, List.getElem?_map] at hget
  obtain ⟨c, _, hc⟩ := Option.map_eq_some_iff.mp hget.symm
  exact he c hc.symm

/-- What is made of a character is taken from what is missing. -/
theorem Behind.moves {missing : List Char} (h : Behind kind x y z p missing) (hmoves : Moves c p es p')
    (hlength : es.length ≤ missing.length) {es' : List Event} (heq : es ++ es' = lits missing ++ R) :
    c ∈ kind ∧ ∃ left, missing.length = es.length + left.length ∧ left ⊆ kind ∧ es' = lits left ++ R := by
  have hes : es = lits (missing.take es.length) := by
    have htake := congrArg (List.take es.length) heq
    rw [List.take_left, List.take_append_of_le_length (by simpa [lits] using hlength)] at htake
    exact htake.trans (by rw [lits, lits, List.map_take])
  have hrest : es' = lits (missing.drop es.length) ++ R := by
    have hdrop := congrArg (List.drop es.length) heq
    rw [List.drop_left, List.drop_append_of_le_length (by simpa [lits] using hlength)] at hdrop
    exact hdrop.trans (by rw [lits, lits, List.map_drop])
  refine ⟨?_, missing.drop es.length, by rw [List.length_drop]; omega, fun c hc => ?_, hrest⟩
  · refine hmoves.mem.elim (fun hc => h.quotes hc) fun hc => ?_
    rw [hes, lits, List.mem_map] at hc
    obtain ⟨c', hc', he⟩ := hc
    obtain rfl : c' = c := by simpa using he
    exact h.mem (List.mem_of_mem_take hc')
  · exact h.mem (List.mem_of_mem_drop hc)

variable {missing : List Char}

theorem run_cons_eq_some {s : State} {es : List Event} (h : run s (c :: rest) = some es) :
    ∃ es₁ s' es₂, step s c = some (es₁, s') ∧ run s' rest = some es₂ ∧ es = es₁ ++ es₂ := by
  obtain ⟨⟨es₁, s'⟩, hstep, h⟩ := Option.bind_eq_some_iff.mp h
  obtain ⟨es₂, hrun, h⟩ := Option.map_eq_some_iff.mp h
  exact ⟨es₁, s', es₂, hstep, hrun, h.symm⟩

/-- One character more: it is one of those that may be missing, and what is missing then is enough again. -/
theorem Behind.next (hx : x ≤ 1) (hy : y ≤ 1) (hz : z ≤ 1) (h : Behind kind x y z p missing)
    (hrun : run (p.state frames) (c :: rest) = some (lits missing ++ R)) :
    c ∈ kind ∧ ∃ p' es left, Moves c p es p' ∧ missing.length = es.length + left.length ∧ left ⊆ kind ∧
      run (p'.state frames) rest = some (lits left ++ R) := by
  obtain ⟨es, s', es', hstep, hrest, heq⟩ := run_cons_eq_some hrun
  rcases step_place (x := x) (y := y) (z := z) hstep with hbreaks | ⟨p', rfl, hmoves⟩
  · exact absurd heq.symm (hbreaks.not_prefix missing h.enough)
  · have hneed := hmoves.need_le hx hy hz
    have hpos : 0 < need x y z p' := need_pos
    have henough := h.enough
    obtain ⟨hc, left, hleft, hquotes, rfl⟩ := h.moves hmoves (by omega) heq.symm
    exact ⟨hc, p', es, left, hmoves, hleft, hquotes, hrest⟩

theorem Behind.step (hx : x ≤ 1) (hy : y ≤ 1) (hz : z ≤ 1) (h : Behind kind x y z p missing)
    (hrun : run (p.state frames) (c :: rest) = some (lits missing ++ .lit c :: R)) :
    ∃ p' missing', Behind kind x y z p' missing' ∧ run (p'.state frames) rest = some (lits missing' ++ R) := by
  obtain ⟨hc, p', es, left, hmoves, hleft, hquotes, hrest⟩ := h.next hx hy hz hrun
  have hneed := hmoves.need_le hx hy hz
  have henough := h.enough
  refine ⟨p', left ++ [c], ⟨h.quotes, fun c' hc' => ?_, ?_⟩, ?_⟩
  · rcases List.mem_append.mp hc' with hc' | hc'
    · exact hquotes hc'
    · exact List.mem_singleton.mp hc' ▸ hc
  · rw [List.length_append, List.length_singleton]
    omega
  · simpa [lits_append] using hrest

/-- It stays so through a text that would have to be literal. -/
theorem Behind.run (hx : x ≤ 1) (hy : y ≤ 1) (hz : z ≤ 1) (h : Behind kind x y z p missing) (text : List Char)
    (hrun : Shell.run (p.state frames) (text ++ rest) = some (lits missing ++ (lits text ++ R))) :
    ∃ p' missing', Behind kind x y z p' missing' ∧ Shell.run (p'.state frames) rest = some (lits missing' ++ R) := by
  induction text generalizing p missing with
  | nil => exact ⟨p, missing, h, hrun⟩
  | cons c text ih =>
    obtain ⟨p', missing', h', hrun'⟩ := h.step hx hy hz hrun
    exact ih h' hrun'

/-- A character of another kind cannot be taken from what is missing. -/
theorem Behind.not_cons (h : Behind kind 0 0 0 p missing) (hc : c ∉ kind) :
    Shell.run (p.state frames) (c :: rest) ≠ some (lits missing ++ R) := fun hrun =>
  hc (h.next (Nat.zero_le 1) (Nat.zero_le 1) (Nat.zero_le 1) hrun).1

theorem Behind.not_closeDouble (h : Behind kind 1 0 1 p missing) (hc : c ∉ kind) :
    Shell.run (p.state frames) ('"' :: c :: rest) ≠ some (lits missing ++ R) := by
  intro hrun
  obtain ⟨_, p', es, left, hmoves, hleft, hmem, hrest⟩ :=
    h.next (Nat.le_refl 1) (Nat.zero_le 1) (Nat.le_refl 1) hrun
  have hneed := hmoves.need_of_double
  have henough := h.enough
  have hbehind : Behind kind 0 0 0 p' left := ⟨h.quotes, hmem, by omega⟩
  exact hbehind.not_cons hc hrest

theorem Behind.not_closeSingle (h : Behind kind 0 1 1 p missing) :
    Shell.run (p.state frames) ['\''] ≠ some (lits missing ++ R) := by
  intro hrun
  obtain ⟨_, p', es, left, hmoves, hleft, _, hrest⟩ :=
    h.next (Nat.zero_le 1) (Nat.le_refl 1) (Nat.le_refl 1) hrun
  have hneed := hmoves.need_of_single
  have henough := h.enough
  have hleft : need 0 0 0 p' ≤ left.length := by omega
  rw [Shell.run] at hrest
  cases left with
  | nil => cases p' <;> simp [need] at hleft
  | cons c left =>
    cases left with
    | nil => cases p' <;> simp [need, finish, Place.state, endWord] at hleft hrest
    | cons c' left => cases p' <;> simp [finish, Place.state, endWord] at hrest

theorem Behind.not_blank (h : Behind kind 1 1 1 p missing) (hc : c ∉ kind) :
    Shell.run (p.state frames) (' ' :: c :: rest) ≠ some (lits missing ++ R) := by
  intro hrun
  obtain ⟨_, p', es, left, hmoves, hleft, hmem, hrest⟩ :=
    h.next (Nat.le_refl 1) (Nat.le_refl 1) (Nat.le_refl 1) hrun
  have hneed := hmoves.need_of_blank
  have henough := h.enough
  have hbehind : Behind kind 0 0 0 p' left := ⟨h.quotes, hmem, by omega⟩
  exact hbehind.not_cons hc hrest

/-! ## Texts outside quotes -/

theorem expands_of_follows (hc : follows c = true) : expands c = false := by
  simp only [follows, Bool.and_eq_true, Bool.not_eq_true'] at hc
  exact hc.2

@[simp] theorem literalDollar_some (x : Char) : literalDollar (some x) = !expands x := by simp [literalDollar]

/-- `$` in a word, before a text that some character follows. -/
theorem run_word_dollar (htext : literalDollar text.head? = true) (hc : follows c = true) :
    run ⟨.word, .nothing, frames⟩ ('$' :: (text ++ c :: rest)) =
      (run ⟨.word, .nothing, frames⟩ (text ++ c :: rest)).map ([.lit '$'] ++ ·) := by
  have hstep : run ⟨.word, .nothing, frames⟩ ('$' :: (text ++ c :: rest)) =
      run ⟨.word, .dollar, frames⟩ (text ++ c :: rest) := by
    rw [run_cons_of_step [] ⟨.word, .dollar, frames⟩ rfl]
    simp
  rw [hstep]
  cases text with
  | nil => exact run_dollar .word (expands_of_follows hc)
  | cons x text => exact run_dollar .word (by simpa using htext)

theorem run_bare (htext : bare text = true) (hc : follows c = true) :
    run ⟨.word, .nothing, frames⟩ (text ++ c :: rest) =
      (run ⟨.word, .nothing, frames⟩ (c :: rest)).map (lits text ++ ·) := by
  induction text with
  | nil => simp
  | cons d text ih =>
    obtain ⟨hd, htext⟩ : bareChar d text.head? = true ∧ bare text = true := by
      simpa [bare] using htext
    have hstep : run ⟨.word, .nothing, frames⟩ (d :: (text ++ c :: rest)) =
        (run ⟨.word, .nothing, frames⟩ (text ++ c :: rest)).map ([.lit d] ++ ·) := by
      by_cases hdollar : d = '$'
      · subst hdollar
        refine run_word_dollar ?_ hc
        simp only [bareChar, bne_self_eq_false, Bool.false_or, Bool.and_eq_true] at hd
        exact hd.2
      · refine fresh_word_bare ?_ hdollar
        simpa [bareChar, hdollar] using hd
    rw [List.cons_append, hstep, ih htext, Option.map_map]
    rfl

/-- Behind a `$` in a word comes no expansion, if it was literal. -/
theorem literalDollar_of_run {mode : Mode} (hc : expands c = false)
    (h : run ⟨mode, .dollar, frames⟩ (text ++ c :: rest) = some (.lit '$' :: R)) :
    literalDollar text.head? = true ∧ run ⟨mode, .nothing, frames⟩ (text ++ c :: rest) = some R := by
  cases text with
  | nil =>
    rw [List.nil_append, run_dollar mode hc] at h
    exact ⟨rfl, (map_cons_eq_some_iff.mp h).2⟩
  | cons x text =>
    by_cases hx : expands x = true
    · exact absurd h (run_dollar_ne mode hx)
    · rw [List.cons_append, run_dollar mode (Bool.eq_false_iff.mpr hx)] at h
      exact ⟨by simp [hx], (map_cons_eq_some_iff.mp h).2⟩

theorem not_quote_of_follows (hc : follows c = true) : c ∉ quoteChars := by
  simp only [follows, Bool.and_eq_true, Bool.not_eq_true', decide_eq_false_iff_not] at hc
  simpa [quoteChars] using hc.1

theorem not_behind_of_run {p : Place} {d : Char} (hd : d ∈ quoteChars) (hp : need 0 0 0 p = 1)
    (hc : follows c = true) :
    run (p.state frames) (text ++ c :: rest) ≠ some (.lit d :: (lits text ++ R)) := by
  intro h
  have hbehind : Behind quoteChars 0 0 0 p [d] :=
    ⟨List.Subset.refl _, fun x hx => List.mem_singleton.mp hx ▸ hd, hp.le⟩
  obtain ⟨p', missing, hbehind', hrun⟩ := hbehind.run (Nat.zero_le 1) (Nat.zero_le 1) (Nat.zero_le 1) text h
  exact hbehind'.not_cons (not_quote_of_follows hc) hrun

/-- **A text outside quotes is read literally only if it stands for itself.** -/
theorem bare_of_run (hc : follows c = true)
    (h : run ⟨.word, .nothing, frames⟩ (text ++ c :: rest) = some (lits text ++ R)) : bare text = true := by
  induction text with
  | nil => rfl
  | cons d text ih =>
    obtain ⟨es, s', es', hstep, hrun, heq⟩ := run_cons_eq_some h
    rcases unquoted_word_cases hstep with hbreaks | ⟨p, rfl, hmoves⟩
    · exact absurd heq.symm (hbreaks.not_prefix [d] (Nat.le_refl 1))
    · cases hmoves with
      | openSingle hd =>
        obtain rfl : _ = es' := heq
        exact absurd hrun (not_behind_of_run (p := .single) (hd ▸ by decide) rfl hc)
      | openDouble hd =>
        obtain rfl : _ = es' := heq
        exact absurd hrun (not_behind_of_run (p := .double) (hd ▸ by decide) rfl hc)
      | backslash hd =>
        obtain rfl : _ = es' := heq
        exact absurd hrun (not_behind_of_run (p := .wordBackslash) (hd ▸ by decide) rfl hc)
      | dollar hd =>
        subst hd
        obtain rfl : _ = es' := heq
        obtain ⟨hdollar, hrun'⟩ := literalDollar_of_run (expands_of_follows hc) hrun
        simp only [bare, bareChar, hdollar, ih hrun']
        decide
      | bare hbare hdollar =>
        obtain ⟨_, rfl⟩ := List.cons.inj heq
        have hbare' : bareChar d text.head? = true := by simpa [bareChar, hdollar] using hbare
        simp [bare, hbare', ih hrun]

theorem run_bare_iff (hc : follows c = true) :
    run ⟨.word, .nothing, frames⟩ (text ++ c :: rest) = some (lits text ++ R) ↔
      bare text = true ∧ run ⟨.word, .nothing, frames⟩ (c :: rest) = some R := by
  constructor
  · intro h
    have htext := bare_of_run hc h
    rw [run_bare htext hc, Option.map_eq_some_iff] at h
    obtain ⟨es, hrun, heq⟩ := h
    exact ⟨htext, List.append_cancel_left heq ▸ hrun⟩
  · rintro ⟨htext, hrun⟩
    rw [run_bare htext hc, hrun]
    rfl

end KernelRuntime.Shell
