import KernelRuntime.Foundations.ShellQuoting

/-! # Texts that the shell takes as words

A text at the start of a word must not be empty, begin with a blank or look like a comment. Texts in double
quotes and in single quotes. -/

namespace KernelRuntime.Shell
set_option autoImplicit false

variable {frames : List Frame} {c : Char} {text rest : List Char} {R : List Event}

/-! ## Words without quotes -/

/-- The characters that a text at the start of a word may lose. -/
def gapChars : List Char := quoteChars ++ [' ', '\t']

theorem quoteChars_subset : quoteChars ⊆ gapChars := List.subset_append_left _ _

/-- What can follow a word: nothing that makes one of what is missing, whether the lexer is inside a word, between
words or behind a backslash. -/
structure EndsWord (frames : List Frame) (tail : List Char) (R : List Event) : Prop where
  behind : ∀ (p : Place) (missing : List Char), Behind gapChars 1 1 1 p missing →
    run (p.state frames) tail ≠ some (lits missing ++ .wordEnd :: R)
  gap : ∀ missing ⊆ gapChars, run ⟨.gap, .nothing, frames⟩ tail ≠ some (.wordStart :: (lits missing ++ .wordEnd :: R))
  backslash : ∀ missing ⊆ gapChars, '\\' ∈ missing →
    run ⟨.gap, .backslash, frames⟩ tail ≠ some (.wordStart :: (lits missing ++ .wordEnd :: R))

theorem run_comment_ne : run ⟨.comment, .nothing, frames⟩ text ≠ some (.wordStart :: R) := by
  induction text with
  | nil => simp [run, finish, endWord]
  | cons c text ih =>
    by_cases hc : c = '\n'
    · simp [run, step, fresh, hc]
    · have hstep : step ⟨.comment, .nothing, frames⟩ c = some ([], ⟨.comment, .nothing, frames⟩) := by
        simp [step, fresh, hc]
      rw [run_cons_of_step _ _ hstep]
      simpa using ih

/-- A character between words: it ends no word, starts a comment, quotes what follows, or begins a word as it would
go on with one. -/
theorem gap_cases {es : List Event} {s' : State} (h : unquoted .gap frames c = some (es, s')) :
    (isBlank c = true ∧ es = [] ∧ s' = ⟨.gap, .nothing, frames⟩) ∨
    (c = '#' ∧ es = [] ∧ s' = ⟨.comment, .nothing, frames⟩) ∨
    (∃ e more, es = e :: more ∧ e ≠ .wordStart) ∨
    (c = '\\' ∧ es = [] ∧ s' = ⟨.gap, .backslash, frames⟩) ∨
    ∃ p es', p ≠ .wordBackslash ∧ c ≠ '#' ∧ es = .wordStart :: es' ∧ s' = p.state frames ∧ Moves c .word es' p := by
  unfold unquoted at h
  split_ifs at h with hblank hcomment hclose hopen hoperator hsingle hdouble hback hdollar htick
  all_goals obtain ⟨rfl, rfl⟩ := Prod.mk.inj (Option.some.inj h)
  · exact .inl ⟨hblank, rfl, rfl⟩
  · exact .inr (.inl ⟨hcomment.1, rfl, rfl⟩)
  · refine .inr (.inr (.inl ?_))
    cases frames with
    | nil => exact ⟨_, _, rfl, nofun⟩
    | cons frame frames => cases frame <;> exact ⟨_, _, rfl, nofun⟩
  · exact .inr (.inr (.inl ⟨_, _, rfl, nofun⟩))
  · exact .inr (.inr (.inl ⟨_, _, rfl, nofun⟩))
  all_goals have hhash : c ≠ '#' := fun hc => hcomment ⟨hc, nofun⟩
  · exact .inr (.inr (.inr (.inr ⟨.single, [], nofun, hhash, rfl, rfl, .openSingle hsingle⟩)))
  · exact .inr (.inr (.inr (.inr ⟨.double, [], nofun, hhash, rfl, rfl, .openDouble hdouble⟩)))
  · exact .inr (.inr (.inr (.inl ⟨hback, rfl, rfl⟩)))
  · exact .inr (.inr (.inr (.inr ⟨.wordDollar, [], nofun, hhash, rfl, rfl, .dollar hdollar⟩)))
  · refine .inr (.inr (.inr (.inr ⟨.word, [.lit c], nofun, hhash, rfl, rfl, .bare ?_ hdollar⟩)))
    simp [bareChar, hblank, hoperator, hsingle, hdouble, hback, hdollar, htick]

theorem bareChar_not_gap (hc : bareChar c none = true) (hdollar : c ≠ '$') : c ∉ gapChars := by
  intro hmem
  have hcases : c = '"' ∨ c = '\'' ∨ c = '\\' ∨ c = '\n' ∨ c = '$' ∨ c = ' ' ∨ c = '\t' := by
    simpa [gapChars, quoteChars] using hmem
  rcases hcases with rfl | rfl | rfl | rfl | rfl | rfl | rfl <;> first | exact hdollar rfl | exact absurd hc (by decide)

variable {tail : List Char}

/-- A text whose beginning is missing inside a word is not made up for. -/
theorem EndsWord.not_behind (h : EndsWord frames tail R) {p : Place} {missing : List Char}
    (hbehind : Behind gapChars 1 1 1 p missing) (text : List Char) :
    run (p.state frames) (text ++ tail) ≠ some (lits missing ++ (lits text ++ .wordEnd :: R)) := by
  intro hrun
  obtain ⟨p', missing', hbehind', hrun'⟩ :=
    hbehind.run (Nat.le_refl 1) (Nat.le_refl 1) (Nat.le_refl 1) text hrun
  exact h.behind p' missing' hbehind' hrun'

/-- A text whose beginning was lost between words is not made up for. -/
theorem EndsWord.not_lost (h : EndsWord frames tail R) (text missing : List Char) (hmem : missing ⊆ gapChars)
    (hmissing : 1 ≤ missing.length) :
    run ⟨.gap, .nothing, frames⟩ (text ++ tail) ≠
        some (.wordStart :: (lits missing ++ (lits text ++ .wordEnd :: R))) ∧
      ('\\' ∈ missing → run ⟨.gap, .backslash, frames⟩ (text ++ tail) ≠
        some (.wordStart :: (lits missing ++ (lits text ++ .wordEnd :: R)))) := by
  induction text generalizing missing with
  | nil => exact ⟨h.gap missing hmem, h.backslash missing hmem⟩
  | cons c text ih =>
    have hmore (hc : c ∈ gapChars) : missing ++ [c] ⊆ gapChars :=
      List.append_subset.mpr ⟨hmem, fun x hx => List.mem_singleton.mp hx ▸ hc⟩
    have hassoc : lits missing ++ (lits (c :: text) ++ .wordEnd :: R) =
        lits (missing ++ [c]) ++ (lits text ++ .wordEnd :: R) := by simp [lits_append]
    have hlength : (missing ++ [c]).length = missing.length + 1 := by simp
    constructor
    · intro hrun
      rw [hassoc] at hrun
      obtain ⟨es, s', es', hstep, hrun, heq⟩ := run_cons_eq_some hrun
      rcases gap_cases hstep with ⟨hblank, rfl, rfl⟩ | ⟨_, rfl, rfl⟩ | ⟨e, more, rfl, he⟩ | ⟨hback, rfl, rfl⟩ |
        ⟨p, es₁, hp, hhash, rfl, rfl, hmoves⟩
      · have hc : c ∈ gapChars := by
          simp only [isBlank, Bool.or_eq_true, decide_eq_true_eq] at hblank
          rcases hblank with rfl | rfl <;> decide
        obtain rfl : _ = es' := heq
        exact (ih _ (hmore hc) (by omega)).1 hrun
      · obtain rfl : _ = es' := heq
        exact run_comment_ne hrun
      · exact he (List.cons.inj heq).1.symm
      · obtain rfl : _ = es' := heq
        exact (ih _ (hmore (hback ▸ by decide)) (by omega)).2 (hback ▸ by simp) hrun
      · have heq' := (List.cons.inj heq).2
        rcases hmoves.mem with hc | hc
        · have hes : es₁ = [] := by
            cases hmoves with
            | bare hbare hdollar => exact absurd (quoteChars_subset hc) (bareChar_not_gap hbare hdollar)
            | _ => rfl
          subst hes
          obtain rfl : _ = es' := heq'
          have hneed : need 1 1 1 p = 2 := by
            cases hmoves with
            | backslash => exact absurd rfl hp
            | _ => rfl
          exact h.not_behind ⟨quoteChars_subset, hmore (quoteChars_subset hc), by omega⟩ text hrun
        · cases hmoves with
          | bare hbare hdollar =>
            obtain ⟨first, left, rfl⟩ := List.exists_cons_of_length_pos hmissing
            obtain ⟨hfirst, _⟩ := List.cons.inj heq'
            obtain rfl : first = c := Event.lit.inj hfirst
            exact bareChar_not_gap hbare hdollar (hmem List.mem_cons_self)
          | _ => cases hc
    · intro _ hrun
      rw [hassoc] at hrun
      obtain ⟨es, s', es', hstep, hrun, heq⟩ := run_cons_eq_some hrun
      simp only [step, reduceCtorEq, if_false] at hstep
      split_ifs at hstep with hnewline
      all_goals obtain ⟨rfl, rfl⟩ := Prod.mk.inj (Option.some.inj hstep)
      · obtain rfl : _ = es' := heq
        exact (ih _ (hmore (hnewline ▸ by decide)) (by omega)).1 hrun
      · obtain ⟨first, left, rfl⟩ := List.exists_cons_of_length_pos hmissing
        obtain ⟨hfirst, heq'⟩ := List.cons.inj (List.cons.inj heq).2
        obtain rfl : first = c := Event.lit.inj hfirst
        obtain rfl : _ = es' := heq'
        have hc : first ∈ gapChars := hmem List.mem_cons_self
        have hleft : left ++ [first] ⊆ gapChars := fun x hx => hmore hc (List.mem_cons_of_mem _ hx)
        exact h.not_behind (p := .word) ⟨quoteChars_subset, hleft, by simp [need]⟩ text hrun

/-- A character that begins a word is read there as it is inside one. -/
theorem run_gap_of_word (hblank : isBlank c = false) (hhash : c ≠ '#') (hoperator : c ∉ operatorChars)
    (hback : c ≠ '\\') :
    run ⟨.gap, .nothing, frames⟩ (c :: rest) =
      (run ⟨.word, .nothing, frames⟩ (c :: rest)).map ([.wordStart] ++ ·) := by
  have hclose : c ≠ ')' := by rintro rfl; exact hoperator (by decide)
  have hopen : c ≠ '(' := by rintro rfl; exact hoperator (by decide)
  have hstep : step ⟨.gap, .nothing, frames⟩ c =
      (step ⟨.word, .nothing, frames⟩ c).map fun r => (.wordStart :: r.1, r.2) := by
    simp only [step, fresh, unquoted, hblank, hhash, hoperator, hback, hclose, hopen, startWord, false_and, if_false,
      Bool.false_eq_true]
    split_ifs <;> rfl
  rw [run, run, hstep]
  cases step ⟨.word, .nothing, frames⟩ c with
  | none => rfl
  | some r => simp [Option.map_map, Function.comp_def]

theorem bareChar_of_bareWord (h : bareWord (c :: text) = true) :
    isBlank c = false ∧ c ≠ '#' ∧ c ∉ operatorChars ∧ c ≠ '\\' ∧ bare (c :: text) = true := by
  simp only [bareWord, Bool.and_eq_true] at h
  obtain ⟨⟨hbare, _⟩, hhash⟩ := h
  have hchar : bareChar c text.head? = true := by
    simp only [bare, Bool.and_eq_true] at hbare
    exact hbare.1
  simp only [bareChar, Bool.and_eq_true, Bool.not_eq_true', decide_eq_false_iff_not] at hchar
  obtain ⟨⟨⟨hblank, hoperator⟩, hquote⟩, _⟩ := hchar
  refine ⟨hblank, by simpa using hhash, hoperator, ?_, hbare⟩
  rintro rfl
  exact hquote (by decide)

/-- What begins no word loses its first character, or ends something. -/
theorem EndsWord.not_gap (h : EndsWord frames tail R) (hc : isBlank c = true ∨ c = '#' ∨ c ∈ operatorChars ∨ c = '\\') :
    run ⟨.gap, .nothing, frames⟩ (c :: (text ++ tail)) ≠ some (.wordStart :: (lits (c :: text) ++ .wordEnd :: R)) := by
  intro hrun
  obtain ⟨es, s', es', hstep, hrun, heq⟩ := run_cons_eq_some hrun
  have hlost (hc : c ∈ gapChars) := h.not_lost text [c] (fun x hx => List.mem_singleton.mp hx ▸ hc) (Nat.le_refl 1)
  rcases gap_cases hstep with ⟨hblank, rfl, rfl⟩ | ⟨_, rfl, rfl⟩ | ⟨e, more, rfl, he⟩ | ⟨hback, rfl, rfl⟩ |
    ⟨p, es₁, hp, hhash, rfl, rfl, hmoves⟩
  · have hc : c ∈ gapChars := by
      simp only [isBlank, Bool.or_eq_true, decide_eq_true_eq] at hblank
      rcases hblank with rfl | rfl <;> decide
    obtain rfl : _ = es' := heq
    exact (hlost hc).1 hrun
  · obtain rfl : _ = es' := heq
    exact run_comment_ne hrun
  · exact he (List.cons.inj heq).1.symm
  · obtain rfl : _ = es' := heq
    exact (hlost (hback ▸ by decide)).2 (hback ▸ List.mem_cons_self) hrun
  · have hchar : c = '\'' ∨ c = '"' ∨ c = '$' ∨ bareChar c none = true := by
      cases hmoves with
      | openSingle hc' => exact .inl hc'
      | openDouble hc' => exact .inr (.inl hc')
      | backslash => exact absurd rfl hp
      | dollar hc' => exact .inr (.inr (.inl hc'))
      | bare hbare => exact .inr (.inr (.inr hbare))
    rcases hchar with rfl | rfl | rfl | hbare
    · exact absurd hc (by decide)
    · exact absurd hc (by decide)
    · exact absurd hc (by decide)
    · simp only [bareChar, Bool.and_eq_true, Bool.not_eq_true', decide_eq_false_iff_not] at hbare
      obtain ⟨⟨⟨hblank, hoperator⟩, hquote⟩, _⟩ := hbare
      rcases hc with hc | hc | hc | rfl
      · rw [hblank] at hc
        cases hc
      · exact hhash hc
      · exact hoperator hc
      · exact hquote (by decide)

/-- **A text at the start of a word is read literally exactly if it is a word of its own.** -/
theorem run_bareWord_iff (h : EndsWord frames tail R) (htail : ∃ c rest, tail = c :: rest ∧ follows c = true) :
    run ⟨.gap, .nothing, frames⟩ (text ++ tail) = some (.wordStart :: (lits text ++ .wordEnd :: R)) ↔
      bareWord text = true ∧ run ⟨.word, .nothing, frames⟩ tail = some (.wordEnd :: R) := by
  obtain ⟨x, rest, rfl, hx⟩ := htail
  cases text with
  | nil => exact iff_of_false (h.gap [] (List.nil_subset _)) fun hword => by simp [bareWord] at hword
  | cons c text =>
    by_cases hc : isBlank c = true ∨ c = '#' ∨ c ∈ operatorChars ∨ c = '\\'
    · refine iff_of_false (h.not_gap hc) fun hword => ?_
      obtain ⟨hblank, hhash, hoperator, hback, _⟩ := bareChar_of_bareWord hword.1
      rcases hc with hc | hc | hc | hc
      · rw [hblank] at hc
        cases hc
      · exact hhash hc
      · exact hoperator hc
      · exact hback hc
    · simp only [not_or, Bool.not_eq_true] at hc
      obtain ⟨hblank, hhash, hoperator, hback⟩ := hc
      rw [List.cons_append, run_gap_of_word hblank hhash hoperator hback, map_cons_eq_some_iff, ← List.cons_append,
        run_bare_iff hx]
      simp [bareWord, hhash]

/-! ## What follows a word -/

theorem need_mono {p : Place} : need 0 0 0 p ≤ need 1 1 1 p := by
  cases p <;> simp [need]

theorem Behind.weaken {kind missing : List Char} {p : Place} (h : Behind kind 1 1 1 p missing) :
    Behind kind 0 0 0 p missing :=
  ⟨h.quotes, h.mem, need_mono.trans h.enough⟩

theorem run_gap_backslash (hc : c ≠ '\n') : run ⟨.gap, .backslash, frames⟩ (c :: rest) =
    (run ⟨.word, .nothing, frames⟩ rest).map ([.wordStart, .lit c] ++ ·) :=
  run_cons_of_step _ _ (by simp [step, hc, startWord])

theorem endsWord_paren : EndsWord frames (')' :: rest) R where
  behind _ _ h := h.weaken.not_cons (by decide)
  gap missing _ hrun := by
    obtain ⟨es, s', es', hstep, _, heq⟩ := run_cons_eq_some hrun
    have hgap : unquoted .gap frames ')' = some (es, s') := hstep
    rcases gap_cases hgap with ⟨hblank, _⟩ | ⟨hhash, _⟩ | ⟨e, more, rfl, he⟩ | ⟨hback, _⟩ | ⟨p, es₁, _, _, _, _, hmoves⟩
    · exact absurd hblank (by decide)
    · exact absurd hhash (by decide)
    · exact he (List.cons.inj heq).1.symm
    · exact absurd hback (by decide)
    · cases hmoves with
      | bare hbare => exact absurd hbare (by decide)
      | openSingle hc | openDouble hc | backslash hc | dollar hc => exact absurd hc (by decide)
  backslash missing hmem hback hrun := by
    rw [run_gap_backslash (by decide)] at hrun
    obtain ⟨es, _, heq⟩ := Option.map_eq_some_iff.mp hrun
    obtain ⟨first, left, rfl⟩ := List.exists_cons_of_ne_nil (List.ne_nil_of_mem hback)
    obtain ⟨hfirst, _⟩ := List.cons.inj (List.cons.inj heq).2
    obtain rfl : ')' = first := Event.lit.inj hfirst
    exact absurd (hmem List.mem_cons_self) (by decide)

theorem run_gap_blank : run ⟨.gap, .nothing, frames⟩ (' ' :: rest) = run ⟨.gap, .nothing, frames⟩ rest := by
  rw [run_cons_of_step [] ⟨.gap, .nothing, frames⟩ rfl]
  simp

/-- A blank, and a character that begins another word or an operator. -/
theorem endsWord_blank (hmem : c ∉ gapChars)
    (hgap : ∀ es, run ⟨.gap, .nothing, frames⟩ (c :: rest) = some (.wordStart :: es) → ∃ es', es = .lit c :: es') :
    EndsWord frames (' ' :: c :: rest) R where
  behind _ _ h := h.not_blank hmem
  gap missing hmissing hrun := by
    rw [run_gap_blank] at hrun
    obtain ⟨es', heq⟩ := hgap _ hrun
    cases missing with
    | nil => cases heq
    | cons first left =>
      obtain rfl : first = c := Event.lit.inj (List.cons.inj heq).1
      exact hmem (hmissing List.mem_cons_self)
  backslash missing hmissing hback hrun := by
    rw [run_gap_backslash (by decide)] at hrun
    obtain ⟨es, hrun, heq⟩ := Option.map_eq_some_iff.mp hrun
    obtain ⟨first, left, rfl⟩ := List.exists_cons_of_ne_nil (List.ne_nil_of_mem hback)
    obtain ⟨hfirst, hes⟩ := List.cons.inj (List.cons.inj heq).2
    obtain rfl : ' ' = first := Event.lit.inj hfirst
    obtain rfl : es = _ := hes
    have hleft : '\\' ∈ left := by simpa using hback
    have hbehind : Behind gapChars 0 0 0 .word left :=
      ⟨quoteChars_subset, fun x hx => hmissing (List.mem_cons_of_mem _ hx),
        List.length_pos_of_ne_nil (List.ne_nil_of_mem hleft)⟩
    exact hbehind.not_cons hmem hrun

/-! ## Texts in double quotes -/

/-- A backslash in double quotes that quotes nothing. -/
theorem run_double_backslash (hc : escapable c = false) : run ⟨.double, .nothing, frames⟩ ('\\' :: c :: rest) =
    (run ⟨.double, .nothing, frames⟩ (c :: rest)).map ([.lit '\\'] ++ ·) := by
  have hchars : c ≠ '$' ∧ c ≠ '`' ∧ c ≠ '"' ∧ c ≠ '\\' ∧ c ≠ '\n' := by simpa [escapable] using hc
  obtain ⟨hdollar, htick, hclose, hback, hnewline⟩ := hchars
  rw [run_cons_of_step [] ⟨.double, .backslash, frames⟩ rfl,
    run_cons_of_step [.lit '\\', .lit c] ⟨.double, .nothing, frames⟩
      (by simp [step, hnewline, hc]), fresh_double_literal hclose hback hdollar htick]
  simp [Option.map_map, Function.comp_def]

theorem run_double_dollar (htext : literalDollar text.head? = true) :
    run ⟨.double, .nothing, frames⟩ ('$' :: (text ++ '"' :: rest)) =
      (run ⟨.double, .nothing, frames⟩ (text ++ '"' :: rest)).map ([.lit '$'] ++ ·) := by
  have hstep : run ⟨.double, .nothing, frames⟩ ('$' :: (text ++ '"' :: rest)) =
      run ⟨.double, .dollar, frames⟩ (text ++ '"' :: rest) := by
    rw [run_cons_of_step [] ⟨.double, .dollar, frames⟩ rfl]
    simp
  rw [hstep]
  cases text with
  | nil => exact run_dollar .double (by decide)
  | cons x text => exact run_dollar .double (by simpa using htext)

theorem run_doubleLiteral (htext : doubleLiteral text = true) :
    run ⟨.double, .nothing, frames⟩ (text ++ '"' :: rest) =
      (run ⟨.word, .nothing, frames⟩ rest).map (lits text ++ ·) := by
  induction text with
  | nil => exact run_cons_of_step _ _ rfl
  | cons d text ih =>
    obtain ⟨hd, htext⟩ : doubleChar d text.head? = true ∧ doubleLiteral text = true := by
      simpa [doubleLiteral] using htext
    have hstep : run ⟨.double, .nothing, frames⟩ (d :: (text ++ '"' :: rest)) =
        (run ⟨.double, .nothing, frames⟩ (text ++ '"' :: rest)).map ([.lit d] ++ ·) := by
      simp only [doubleChar, Bool.and_eq_true, Bool.or_eq_true, bne_iff_ne] at hd
      obtain ⟨⟨⟨hclose, htick⟩, hback⟩, hdollar⟩ := hd
      by_cases hd : d = '$'
      · subst hd
        exact run_double_dollar (hdollar.resolve_left fun h => h rfl)
      · by_cases hd' : d = '\\'
        · subst hd'
          have hnext := hback.resolve_left fun h => h rfl
          cases text with
          | nil => cases hnext
          | cons x text => exact run_double_backslash (by simpa using hnext)
        · exact fresh_double_literal hclose hd' hd htick
    rw [List.cons_append, hstep, ih htext, Option.map_map]
    rfl

/-- **A text in double quotes is read literally only if it stands for itself there.** -/
theorem doubleLiteral_of_run (hc : c ∉ quoteChars)
    (h : run ⟨.double, .nothing, frames⟩ (text ++ '"' :: c :: rest) = some (lits text ++ R)) :
    doubleLiteral text = true := by
  -- a text that follows a lost character
  have behind (p : Place) (missing : List Char) {text : List Char} (hbehind : Behind quoteChars 1 0 1 p missing) :
      run (p.state frames) (text ++ '"' :: c :: rest) ≠ some (lits missing ++ (lits text ++ R)) := by
    intro hrun
    obtain ⟨p', missing', hbehind', hrun'⟩ :=
      hbehind.run (Nat.le_refl 1) (Nat.zero_le 1) (Nat.le_refl 1) text hrun
    exact hbehind'.not_closeDouble hc hrun'
  induction text with
  | nil => rfl
  | cons d text ih =>
    obtain ⟨es, s', es', hstep, hrun, heq⟩ := run_cons_eq_some h
    obtain ⟨p, rfl, hmoves⟩ := fresh_double_cases hstep
    cases hmoves with
    | closeDouble hd =>
      obtain rfl : _ = es' := heq
      have hmem : [d] ⊆ quoteChars := fun x hx => List.mem_singleton.mp hx ▸ hd ▸ by decide
      exact absurd hrun (behind .word _ ⟨List.Subset.refl _, hmem, Nat.le_refl 1⟩)
    | doubleBackslash hd =>
      subst hd
      obtain rfl : _ = es' := heq
      cases text with
      | nil =>
        obtain ⟨es₁, s₁, es₂, hstep, _, heq⟩ := run_cons_eq_some hrun
        obtain ⟨rfl, rfl⟩ := Prod.mk.inj (Option.some.inj hstep)
        exact absurd (List.cons.inj heq).1 (by decide)
      | cons x text =>
        by_cases hx : escapable x = true
        · obtain ⟨es₁, s₁, es₂, hstep, hrun, heq⟩ := run_cons_eq_some hrun
          simp only [Place.state, step, if_true, hx] at hstep
          split_ifs at hstep with hnewline
          all_goals obtain ⟨rfl, rfl⟩ := Prod.mk.inj (Option.some.inj hstep)
          · subst hnewline
            obtain rfl : _ = es₂ := heq
            exact absurd hrun (behind .double ['\\', '\n']
              ⟨List.Subset.refl _, by decide, by decide⟩)
          · obtain ⟨hfirst, rfl⟩ := List.cons.inj heq
            obtain rfl : '\\' = x := Event.lit.inj hfirst
            exact absurd hrun (behind .double ['\\'] ⟨List.Subset.refl _, by decide, by decide⟩)
        · have hstep : run ⟨.double, .nothing, frames⟩ ('\\' :: x :: (text ++ '"' :: c :: rest)) =
              some (.lit '\\' :: (lits (x :: text) ++ R)) := h
          rw [run_double_backslash (Bool.eq_false_iff.mpr hx)] at hstep
          have hrun' := (map_cons_eq_some_iff.mp hstep).2
          have hchar : doubleChar '\\' (x :: text).head? = true := by simp [doubleChar, hx]
          rw [doubleLiteral, hchar, ih hrun']
          rfl
    | doubleDollar hd =>
      subst hd
      obtain rfl : _ = es' := heq
      obtain ⟨hdollar, hrun'⟩ := literalDollar_of_run (by decide) hrun
      simp [doubleLiteral, doubleChar, hdollar, ih hrun']
    | inDouble hliteral hdollar =>
      obtain ⟨_, rfl⟩ := List.cons.inj heq
      have hchar : doubleChar d text.head? = true := by
        simp only [doubleChar, Option.any_none, Bool.or_false, Bool.and_eq_true] at hliteral
        simp [doubleChar, hliteral, hdollar]
      rw [doubleLiteral, hchar, ih hrun]
      rfl

theorem run_double_iff (hc : c ∉ quoteChars) :
    run ⟨.double, .nothing, frames⟩ (text ++ '"' :: c :: rest) = some (lits text ++ R) ↔
      doubleLiteral text = true ∧ run ⟨.word, .nothing, frames⟩ (c :: rest) = some R := by
  constructor
  · intro h
    have htext := doubleLiteral_of_run hc h
    rw [run_doubleLiteral htext, Option.map_eq_some_iff] at h
    obtain ⟨es, hrun, heq⟩ := h
    exact ⟨htext, List.append_cancel_left heq ▸ hrun⟩
  · rintro ⟨htext, hrun⟩
    rw [run_doubleLiteral htext, hrun]
    rfl

/-! ## Texts in single quotes -/

theorem run_single (htext : '\'' ∉ text) :
    run ⟨.single, .nothing, frames⟩ (text ++ '\'' :: rest) =
      (run ⟨.word, .nothing, frames⟩ rest).map (lits text ++ ·) := by
  induction text with
  | nil => exact run_cons_of_step _ _ rfl
  | cons d text ih =>
    obtain ⟨hd, htext⟩ := not_or.mp (mt List.mem_cons.mpr htext)
    rw [List.cons_append, fresh_single_ne (Ne.symm hd), ih htext, Option.map_map]
    rfl

/-- **A text in single quotes at the end of a command is read literally exactly if it holds no single quote.** -/
theorem run_single_iff :
    run ⟨.single, .nothing, []⟩ (text ++ ['\'']) = some (lits text ++ [.wordEnd]) ↔ '\'' ∉ text := by
  refine ⟨fun h => ?_, fun htext => by rw [run_single htext]; rfl⟩
  induction text with
  | nil => exact List.not_mem_nil
  | cons d text ih =>
    by_cases hd : d = '\''
    · subst hd
      have hrun : run (Place.word.state []) (text ++ ['\'']) = some (lits ['\''] ++ (lits text ++ [.wordEnd])) := by
        rw [List.cons_append, run_cons_of_step [] (Place.word.state []) rfl] at h
        simpa using h
      have hbehind : Behind quoteChars 0 1 1 .word ['\''] := ⟨List.Subset.refl _, by decide, by decide⟩
      obtain ⟨p', missing, hbehind', hrun'⟩ :=
        hbehind.run (Nat.zero_le 1) (Nat.le_refl 1) (Nat.le_refl 1) text hrun
      exact absurd hrun' hbehind'.not_closeSingle
    · rw [List.cons_append, fresh_single_ne hd] at h
      exact mt List.mem_cons.mp (not_or.mpr ⟨Ne.symm hd, ih (map_cons_eq_some_iff.mp h).2⟩)

theorem run_requote : run ⟨.single, .nothing, frames⟩ ("'\"'\"'".toList ++ rest) =
    (run ⟨.single, .nothing, frames⟩ rest).map ([.lit '\''] ++ ·) :=
  run_of_reads (by rfl) rest

/-- **A text whose single quotes were replaced is read as it was.** -/
theorem run_escapeSingle (text rest : List Char) :
    run ⟨.single, .nothing, frames⟩ (escapeSingle text ++ '\'' :: rest) =
      (run ⟨.word, .nothing, frames⟩ rest).map (lits text ++ ·) := by
  unfold escapeSingle
  induction text using replace_induction (List.cons_ne_nil '\'' []) with
  | nil => exact run_cons_of_step _ _ rfl
  | hit text ih =>
    rw [replaceAll_append (List.cons_ne_nil _ _), List.append_assoc, run_requote, ih, Option.map_map]
    rfl
  | miss d text hmiss ih =>
    have hd : d ≠ '\'' := by
      rintro rfl
      exact hmiss ⟨text, rfl⟩
    rw [replaceAll_cons _ hmiss, List.cons_append, fresh_single_ne hd, ih, Option.map_map]
    rfl

end KernelRuntime.Shell
