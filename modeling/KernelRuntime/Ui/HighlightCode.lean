import KernelRuntime.Foundations.TextReplace
import KernelRuntime.Ui.RenderContent
import KernelRuntime.Ui.SpanMarkup

/-! # Highlighting code

`highlightCode` escapes the code and colors keywords, quoted texts, builtins and comments: four regular expressions, each
over all that the ones before it have written. -/

namespace KernelRuntime.Ui
set_option autoImplicit false

/-! ## The regular expressions -/

def escapeHtml (code : List Char) : List Char :=
  replaceAll ['>'] "&gt;".toList (replaceAll ['<'] "&lt;".toList (replaceAll ['&'] "&amp;".toList code))

/-- The alternatives of `\b(…|…)\b`. -/
structure Keywords where
  words : List (List Char)
  plain : (words.all fun word => !word.isEmpty && word.all isWordChar) = true

def wordAt (words : List (List Char)) (prev : Option Char) (s : List Char) : Option (ℕ × Unit) :=
  if prev.any isWordChar then none
  else
    (words.find? fun word => word.isPrefixOf s && !(s.drop word.length).head?.any isWordChar).map fun word =>
      (word.length, ())

/-- What a dot does not match, and what `$` matches in front of. -/
def isLineEnd (c : Char) : Bool := decide (c ∈ ['\n', '\r', '\u2028', '\u2029'])

/-- The quote and the text up to the next one on the line: `(["'])(.*?)\1`. -/
def quoteAt (quotes : List Char) : List Char → Option (ℕ × Char × List Char)
  | [] => none
  | q :: s =>
    if q ∈ quotes then (lazyUntil (fun c => !isLineEnd c) [q] s).map fun body => (body.length + 2, q, body) else none

/-- `(#.*)$`. -/
def commentAt (mark s : List Char) : Option (ℕ × Unit) :=
  if mark.isPrefixOf s then
    some (mark.length + ((s.drop mark.length).takeWhile fun c => !isLineEnd c).length, ())
  else none

theorem wordAt_eq_some {k : Keywords} {prev : Option Char} {s : List Char} {n : ℕ} {b : Unit}
    (h : wordAt k.words prev s = some (n, b)) :
    ∃ word ∈ k.words, word ≠ [] ∧ (∀ c ∈ word, isWordChar c = true) ∧ n = word.length ∧ s.take n = word ∧
      s.takeWhile isWordChar = word := by
  unfold wordAt at h
  split_ifs at h
  obtain ⟨word, hfind, heq⟩ := Option.map_eq_some_iff.mp h
  obtain ⟨rfl, -⟩ := Prod.mk.inj heq
  have hword := List.mem_of_find?_eq_some hfind
  have hfound := List.find?_some hfind
  rw [Bool.and_eq_true, List.isPrefixOf_iff_prefix] at hfound
  obtain ⟨⟨rest, rfl⟩, hend⟩ := hfound
  have hplain := List.all_eq_true.mp k.plain word hword
  rw [Bool.and_eq_true, List.all_eq_true] at hplain
  refine ⟨word, hword, by simpa using hplain.1, hplain.2, rfl, List.take_left, ?_⟩
  rw [List.drop_left] at hend
  rw [List.takeWhile_append_of_pos hplain.2]
  cases rest with
  | nil => rw [List.takeWhile_nil, List.append_nil]
  | cons c rest =>
    have hc : ¬ isWordChar c = true := by simpa using hend
    rw [List.takeWhile_cons_of_neg hc, List.append_nil]

theorem quoteAt_eq_some {quotes s body : List Char} {n : ℕ} {q : Char} (h : quoteAt quotes s = some (n, q, body)) :
    q ∈ quotes ∧ n = body.length + 2 ∧ q ∉ body ∧ ∃ rest, s = q :: (body ++ q :: rest) := by
  cases s with
  | nil => cases h
  | cons c s =>
    rw [quoteAt] at h
    split_ifs at h with hc
    obtain ⟨body', hbody, heq⟩ := Option.map_eq_some_iff.mp h
    obtain ⟨rfl, hcaptures⟩ := Prod.mk.inj heq
    obtain ⟨rfl, rfl⟩ := Prod.mk.inj hcaptures
    obtain ⟨⟨rest, rfl⟩, -⟩ := lazyUntil_eq_some hbody
    exact ⟨hc, rfl, not_mem_of_lazyUntil hbody, rest, rfl⟩

theorem quoteAt_text {quotes s body : List Char} {n : ℕ} {q : Char} (h : quoteAt quotes s = some (n, q, body)) :
    s.take n = q :: (body ++ [q]) := by
  obtain ⟨-, rfl, -, rest, rfl⟩ := quoteAt_eq_some h
  rw [List.take_succ_cons, List.append_cons, List.take_left' (by rw [List.length_append, List.length_singleton])]

theorem commentAt_eq_some {mark s : List Char} {n : ℕ} {b : Unit} (h : commentAt mark s = some (n, b)) :
    ∃ body rest, s = mark ++ body ++ rest ∧ n = (mark ++ body).length ∧
      (rest = [] ∨ ∃ c rest', rest = c :: rest' ∧ isLineEnd c = true) := by
  unfold commentAt at h
  split_ifs at h with hmark
  obtain ⟨rfl, -⟩ := Prod.mk.inj (Option.some.inj h)
  obtain ⟨s, rfl⟩ := List.isPrefixOf_iff_prefix.mp hmark
  rw [List.drop_left]
  refine ⟨s.takeWhile fun c => !isLineEnd c, s.dropWhile fun c => !isLineEnd c, ?_, List.length_append.symm, ?_⟩
  · rw [List.append_assoc, List.takeWhile_append_dropWhile]
  · have hend := List.head?_dropWhile_not (fun c => !isLineEnd c) s
    cases hrest : s.dropWhile fun c => !isLineEnd c with
    | nil => exact Or.inl rfl
    | cons c rest =>
      rw [hrest] at hend
      exact Or.inr ⟨c, rest, rfl, by simpa using hend⟩

def wordRegex (k : Keywords) : Matcher Char Unit where
  matchAt := wordAt k.words
  pos h := by
    obtain ⟨word, -, hne, -, rfl, -⟩ := wordAt_eq_some h
    exact List.length_pos_of_ne_nil hne
  le h := by
    obtain ⟨word, -, -, -, rfl, htake, -⟩ := wordAt_eq_some h
    have hlength := congrArg List.length htake
    rw [List.length_take] at hlength
    omega

def quoteRegex (quotes : List Char) : Matcher Char (Char × List Char) where
  matchAt _ s := quoteAt quotes s
  pos h := by
    obtain ⟨-, rfl, -⟩ := quoteAt_eq_some h
    omega
  le h := by
    obtain ⟨-, rfl, -, rest, rfl⟩ := quoteAt_eq_some h
    simp only [List.length_cons, List.length_append]
    omega

theorem quoteRegex_matchAt (quotes : List Char) (prev : Option Char) (s : List Char) :
    (quoteRegex quotes).matchAt prev s = quoteAt quotes s := rfl

/-! ## Languages -/

/-- What begins a comment. -/
def marks : List (List Char) := ["#".toList, "//".toList]

def commentRegex (mark : List Char) (hmark : mark ∈ marks) : Matcher Char Unit where
  matchAt _ s := commentAt mark s
  pos h := by
    obtain ⟨body, rest, -, rfl, -⟩ := commentAt_eq_some h
    have hpos : 0 < mark.length := by
      obtain rfl | rfl : mark = _ ∨ mark = _ := by simpa [marks] using hmark
      · decide
      · decide
    rw [List.length_append]
    omega
  le h := by
    obtain ⟨body, rest, rfl, rfl, -⟩ := commentAt_eq_some h
    exact (List.prefix_append _ _).length_le

/-- No word in a tag or an entity is one of these. -/
def foreign (words : List (List Char)) : Bool :=
  (markup ++ brokenTags).all fun chunk => chunk.tails.all fun back =>
    back.isEmpty || !words.contains (back.takeWhile isWordChar) && !back.all isWordChar

/-- What the regular expressions for a language are made of. -/
structure Language where
  keywords : Keywords
  keywordClass : List Char
  quotes : List Char
  builtins : Option Keywords
  mark : List Char
  keywordClass_mem : keywordClass ∈ createdClasses
  quotes_subset : quotes ⊆ ['"', '\'', '`']
  quotes_double : '"' ∈ quotes
  builtins_foreign : ∀ k, builtins = some k → foreign k.words = true
  mark_mem : mark ∈ marks

namespace Language
variable (l : Language)

def colorKeywords (text : List Char) : List Char :=
  (wordRegex l.keywords).replace (fun word _ => span l.keywordClass word) none text

/-- The text comes back in double quotes. -/
def colorQuoted (text : List Char) : List Char :=
  (quoteRegex l.quotes).replace (fun _ captures => span "text-emerald-400".toList ('"' :: (captures.2 ++ ['"']))) none text

def colorBuiltins (text : List Char) : List Char :=
  match l.builtins with
  | some k => (wordRegex k).replace (fun word _ => span "text-cyan-400".toList word) none text
  | none => text

def colorComments (text : List Char) : List Char :=
  (commentRegex l.mark l.mark_mem).replace (fun comment _ => span "text-slate-500".toList comment) none text

def highlight (text : List Char) : List Char :=
  l.colorComments (l.colorBuiltins (l.colorQuoted (l.colorKeywords text)))

end Language

/-! ## What the passes leave alone -/

theorem escapeHtml_eq (code : List Char) : escapeHtml code = escaped code := by
  unfold escapeHtml escaped
  rw [replaceAll_single, replaceAll_single, replaceAll_single, List.flatMap_assoc, List.flatMap_assoc]
  congr 1
  funext c
  by_cases hc : c ∈ specialChars
  · obtain rfl | rfl | rfl : c = '&' ∨ c = '<' ∨ c = '>' := by simpa [specialChars] using hc
    · decide
    · decide
    · decide
  · rw [escapeChar_of_not_mem hc]
    simp only [specialChars, List.mem_cons, List.not_mem_nil, or_false, not_or] at hc
    simp [hc]

/-- The tokens of the highlighter. -/
def OwnToken (t : Token) : Prop := ∀ cls, t = .opened cls → cls ∈ createdClasses

theorem not_mem_of_isWordChar {c : Char} (h : isWordChar c = true) : c ∉ specialChars := by
  intro hc
  obtain rfl | rfl | rfl : c = '&' ∨ c = '<' ∨ c = '>' := by simpa [specialChars] using hc
  · exact absurd h (by decide)
  · exact absurd h (by decide)
  · exact absurd h (by decide)

/-- No match begins in a piece of markup. -/
def Spares {β : Type} (m : Matcher Char β) (chunk : List Char) : Prop :=
  ∀ front back, chunk = front ++ back → back ≠ [] → ∀ prev rest, m.matchAt prev (back ++ rest) = none

theorem inside_of_spares {β : Type} {m : Matcher Char β} {t : Token} (ht : OwnToken t) (h : ∀ chunk ∈ markup, Spares m chunk)
    (front back : List Char) (hchars : t.chars = front ++ back) (hfront : front ≠ []) (hback : back ≠ [])
    (prev : Option Char) (rest : List Char) : m.matchAt prev (back ++ rest) = none := by
  obtain hmem | ⟨c, -, -, hc⟩ := t.chars_cases ht
  · exact h _ hmem front back hchars hback prev rest
  · have hlength := congrArg List.length (hc.symm.trans hchars)
    have hfrontpos := List.length_pos_of_ne_nil hfront
    have hbackpos := List.length_pos_of_ne_nil hback
    rw [List.length_singleton, List.length_append] at hlength
    omega

theorem spares_word {k : Keywords} (hforeign : foreign k.words = true) {chunk : List Char} (hchunk : chunk ∈ markup ++ brokenTags) :
    Spares (wordRegex k) chunk := by
  intro front back hsplit hback prev rest
  by_contra hsome
  obtain ⟨⟨n, b⟩, hmatch⟩ := Option.ne_none_iff_exists'.mp hsome
  obtain ⟨word, hword, -, -, -, -, hrun⟩ := wordAt_eq_some (k := k) hmatch
  have hchecks := List.all_eq_true.mp (List.all_eq_true.mp hforeign chunk hchunk) back
    ((List.mem_tails _ _).mpr ⟨front, hsplit.symm⟩)
  obtain ⟨hout, hend⟩ : back.takeWhile isWordChar ∉ k.words ∧ ∃ c ∈ back, isWordChar c = false := by
    simpa [hback] using hchecks
  have hnot : ¬ (back.takeWhile isWordChar).length = back.length := by
    intro hlength
    obtain ⟨c, hc, hother⟩ := hend
    have hall : (back.takeWhile isWordChar).all isWordChar = true := List.all_takeWhile
    rw [(List.takeWhile_prefix isWordChar).eq_of_length hlength] at hall
    rw [List.all_eq_true.mp hall c hc] at hother
    cases hother
  rw [List.takeWhile_append, if_neg hnot] at hrun
  exact hout (hrun ▸ hword)

set_option maxRecDepth 4000 in
theorem spares_comment {mark : List Char} (hmark : mark ∈ marks) {chunk : List Char} (hchunk : chunk ∈ markup ++ brokenTags) :
    Spares (commentRegex mark hmark) chunk := by
  have hall : (marks.all fun mark => (markup ++ brokenTags).all fun chunk => chunk.tails.all fun back =>
      back.isEmpty || !back.isPrefixOf mark && !mark.isPrefixOf back) = true := by decide
  intro front back hsplit hback prev rest
  have hchecks := List.all_eq_true.mp (List.all_eq_true.mp (List.all_eq_true.mp hall mark hmark) chunk hchunk) back
    ((List.mem_tails _ _).mpr ⟨front, hsplit.symm⟩)
  have hnot : ¬ mark.isPrefixOf (back ++ rest) = true := by
    intro hprefix
    rcases List.prefix_or_prefix_of_prefix (List.isPrefixOf_iff_prefix.mp hprefix) (List.prefix_append back rest) with h | h
    · simp [hback, List.isPrefixOf_iff_prefix.mpr h] at hchecks
    · simp [hback, List.isPrefixOf_iff_prefix.mpr h] at hchecks
  exact if_neg hnot

/-- The characters that are only written alone: a line end, and a quote outside the tags. -/
theorem alone_of_not_mem_markup {x : Char} (hx : ∀ chunk ∈ markup, x ∉ chunk) {t : Token} (ht : OwnToken t)
    (hmem : x ∈ t.chars) : t.chars = [x] := by
  obtain hmarkup | ⟨c, -, -, hc⟩ := t.chars_cases ht
  · exact absurd hmem (hx _ hmarkup)
  · rw [hc] at hmem ⊢
    rw [List.mem_singleton.mp hmem]

set_option maxRecDepth 4000 in
theorem lineEnd_not_in_markup {x : Char} (hx : isLineEnd x = true) : ∀ chunk ∈ markup ++ brokenTags, x ∉ chunk := by
  have hall : ((markup ++ brokenTags).all fun chunk => chunk.all fun c => !isLineEnd c) = true := by decide
  intro chunk hchunk hmem
  have hother := List.all_eq_true.mp (List.all_eq_true.mp hall chunk hchunk) x hmem
  rw [hx] at hother
  cases hother

theorem wraps_word {k : Keywords} (hforeign : foreign k.words = true) : Wraps (wordRegex k) OwnToken where
  created _ ht := ht
  inside _ ht := inside_of_spares ht fun _ hchunk => spares_word hforeign (List.mem_append_left _ hchunk)
  whole prev tokens n b _ hmatch := by
    obtain ⟨word, -, -, hplain, -, htake, -⟩ := wordAt_eq_some (k := k) hmatch
    rw [htake]
    exact split_plain (fun c hc => not_mem_of_isWordChar (hplain c hc)) (htake ▸ (List.take_append_drop n _).symm)

theorem wraps_comment {mark : List Char} (hmark : mark ∈ marks) : Wraps (commentRegex mark hmark) OwnToken where
  created _ ht := ht
  inside _ ht := inside_of_spares ht fun _ hchunk => spares_comment hmark (List.mem_append_left _ hchunk)
  whole prev tokens n b htokens hmatch := by
    obtain ⟨body, rest, hsplit, rfl, hrest⟩ := commentAt_eq_some hmatch
    rw [hsplit, List.take_left]
    obtain rfl | ⟨c, back, rfl, hc⟩ := hrest
    · exact ⟨tokens, [], (List.append_nil _).symm, by rw [hsplit, List.append_nil]⟩
    · obtain ⟨seg, t, tail, htokens, -, hseg⟩ := split_at
        (fun t ht => alone_of_not_mem_markup
          (fun chunk hchunk => lineEnd_not_in_markup hc chunk (List.mem_append_left _ hchunk)) (htokens t ht)) hsplit
      exact ⟨seg, t :: tail, htokens, hseg⟩

theorem quote_not_in_entity {q : Char} (hq : q ∈ ['"', '\'', '`']) : ∀ c ∈ specialChars, q ∉ escapeChar c := by
  have hall : (['"', '\'', '`'].all fun q => specialChars.all fun c => !(escapeChar c).contains q) = true := by
    decide
  intro c hc
  have hother := List.all_eq_true.mp (List.all_eq_true.mp hall q hq) c hc
  simpa using hother

/-- A quoted text in a text without tags. -/
theorem wraps_quote {quotes : List Char} (hquotes : quotes ⊆ ['"', '\'', '`']) :
    Wraps (quoteRegex quotes) fun t => ∃ c, t = .char c where
  created t ht cls hcls := by
    obtain ⟨c, rfl⟩ := ht
    cases hcls
  inside t ht front back hchars hfront hback prev rest := by
    obtain ⟨c, rfl⟩ := ht
    by_cases hc : c ∈ specialChars
    · cases back with
      | nil => exact absurd rfl hback
      | cons x back =>
        have hx : x ∉ quotes := fun hx => quote_not_in_entity (hquotes hx) c hc
          (show x ∈ (Token.char c).chars from hchars ▸ List.mem_append_right _ List.mem_cons_self)
        exact if_neg hx
    · have hlength := congrArg List.length ((escapeChar_of_not_mem hc).symm.trans hchars)
      have hfrontpos := List.length_pos_of_ne_nil hfront
      have hbackpos := List.length_pos_of_ne_nil hback
      rw [List.length_singleton, List.length_append] at hlength
      omega
  whole prev tokens n captures htokens hmatch := by
    obtain ⟨q, body⟩ := captures
    obtain ⟨hq, rfl, -, rest, hsplit⟩ := quoteAt_eq_some hmatch
    obtain ⟨seg, t, tail, rfl, ht, hseg⟩ := split_at
      (fun t ht hmem => by
        obtain ⟨c, rfl⟩ := htokens t ht
        by_cases hc : c ∈ specialChars
        · exact absurd hmem (quote_not_in_entity (hquotes hq) c hc)
        · have hone := escapeChar_of_not_mem hc
          rw [Token.chars, hone] at hmem ⊢
          rw [List.mem_singleton.mp hmem]) (show spell tokens = (q :: body) ++ q :: rest from hsplit)
    refine ⟨seg ++ [t], tail, by rw [List.append_assoc, List.singleton_append], ?_⟩
    rw [quoteAt_text hmatch, spell_append, hseg, spell_cons, ht]
    rfl

/-! ## Code without keywords, quoted with double quotes -/

theorem marks_chars_colorQuoted (l : Language) (code : List Char)
    (hdouble : ∀ hit ∈ (quoteRegex l.quotes).hits none (escaped code), hit.captures.1 = '"') :
    ∃ tokens, spell tokens = l.colorQuoted (escaped code) ∧ Marks (chars code) tokens := by
  have htext := Matcher.forall_hits (m := quoteRegex l.quotes)
    (P := fun text captures => text = captures.1 :: (captures.2 ++ [captures.1]))
    (fun prev s n captures h => quoteAt_text h) none (escaped code)
  rw [← spell_chars] at hdouble htext
  unfold Language.colorQuoted
  rw [← spell_chars]
  refine (wraps_quote l.quotes_subset).exists_marks emerald_mem none (fun t ht => ?_) fun hit hhit => ?_
  · obtain ⟨c, -, rfl⟩ := List.mem_map.mp ht
    exact ⟨c, rfl⟩
  · rw [htext hit hhit, hdouble hit hhit]

theorem marks_colorBuiltins (l : Language) {tokens : List Token} (h : Created tokens) :
    ∃ tokens', spell tokens' = l.colorBuiltins (spell tokens) ∧ Marks tokens tokens' := by
  unfold Language.colorBuiltins
  cases hk : l.builtins with
  | some k =>
    exact (wraps_word (l.builtins_foreign k hk)).exists_marks cyan_mem none
      (fun _ ht cls hcls => h cls (hcls ▸ ht)) fun _ _ => rfl
  | none => exact ⟨tokens, rfl, h, fun _ hd => hd, rfl⟩

theorem marks_colorComments (l : Language) {tokens : List Token} (h : Created tokens) :
    ∃ tokens', spell tokens' = l.colorComments (spell tokens) ∧ Marks tokens tokens' :=
  (wraps_comment l.mark_mem).exists_marks slate_mem none (fun _ ht cls hcls => h cls (hcls ▸ ht)) fun _ _ => rfl

theorem shows_highlight (l : Language) {code : List Char} (hplain : (wordRegex l.keywords).hits none (escaped code) = [])
    (hdouble : ∀ hit ∈ (quoteRegex l.quotes).hits none (escaped code), hit.captures.1 = '"') :
    Shows (l.highlight (escaped code)) code := by
  have hkeywords : l.colorKeywords (escaped code) = escaped code := Matcher.replace_eq_self hplain
  obtain ⟨quoted, hquoted, hq⟩ := marks_chars_colorQuoted l code hdouble
  obtain ⟨named, hnamed, hn⟩ := marks_colorBuiltins l hq.created
  obtain ⟨tokens, htokens, hc⟩ := marks_colorComments l hn.created
  have hmarks := (hq.trans hn).trans hc
  refine ⟨tokens, ?_, hmarks.created, hmarks.balanced 0 ?_, ?_⟩
  · rw [htokens, hnamed, hquoted]
    unfold Language.highlight
    rw [hkeywords]
  · have hchars := balanced_chars 0 code []
    rw [List.append_nil] at hchars
    exact hchars
  · rw [hmarks.text, textOf_chars]

theorem shows_escaped (code : List Char) : Shows (escaped code) code := by
  have hchars := balanced_chars 0 code []
  rw [List.append_nil] at hchars
  exact ⟨chars code, spell_chars code, created_chars code, hchars, textOf_chars code⟩

/-! ## Quotes that are lost -/

set_option maxRecDepth 4000 in
theorem count_span {q : Char} (hq : q ∈ ['\'', '`']) {cls : List Char} (hcls : cls ∈ createdClasses) (text : List Char) :
    (span cls text).count q = text.count q := by
  have hall : (createdClasses.all fun cls => ['\'', '`'].all fun q =>
      !(openTag cls).contains q && !closeTag.contains q) = true := by decide
  have hchecks := List.all_eq_true.mp (List.all_eq_true.mp hall cls hcls) q hq
  obtain ⟨hopen, hclose⟩ : q ∉ openTag cls ∧ q ∉ closeTag := by simpa using hchecks
  unfold span
  rw [List.count_append, List.count_append, List.count_eq_zero_of_not_mem hopen, List.count_eq_zero_of_not_mem hclose,
    Nat.zero_add, Nat.add_zero]

theorem count_textOf_le {q : Char} (hq : q ∉ specialChars) (tokens : List Token) :
    (textOf tokens).count q ≤ (spell tokens).count q := by
  induction tokens with
  | nil => exact Nat.le_refl 0
  | cons t tokens ih =>
    rw [spell_cons, List.count_append]
    cases t with
    | opened cls => exact Nat.le_add_left_of_le ih
    | closed => exact Nat.le_add_left_of_le ih
    | char c =>
      rw [textOf_char, List.count_cons]
      have hone : (if c == q then 1 else 0) ≤ (Token.char c).chars.count q := by
        by_cases hc : c = q
        · rw [hc, Token.chars, escapeChar_of_not_mem hq]
          simp
        · simp [hc]
      omega

theorem count_escaped_le {q : Char} (hq : q ∈ ['"', '\'', '`']) (code : List Char) : (escaped code).count q ≤ code.count q := by
  induction code with
  | nil => exact Nat.le_refl 0
  | cons c code ih =>
    rw [escaped, List.flatMap_cons, List.count_append, List.count_cons]
    have hone : (escapeChar c).count q ≤ if c == q then 1 else 0 := by
      by_cases hc : c ∈ specialChars
      · rw [List.count_eq_zero_of_not_mem (quote_not_in_entity hq c hc)]
        exact Nat.zero_le _
      · rw [escapeChar_of_not_mem hc, List.count_singleton]
    exact (Nat.add_le_add hone ih).trans (Nat.le_of_eq (Nat.add_comm _ _))

section Quotes
variable {l : Language} {q : Char} (hq : q ∈ ['\'', '`'])
include hq

theorem count_colorKeywords_le (text : List Char) : (l.colorKeywords text).count q ≤ text.count q :=
  Matcher.count_replace_le (fun _ _ _ _ _ => (count_span hq l.keywordClass_mem _).le) none text

theorem count_colorBuiltins_le (text : List Char) : (l.colorBuiltins text).count q ≤ text.count q := by
  unfold Language.colorBuiltins
  cases l.builtins with
  | some k => exact Matcher.count_replace_le (fun _ _ _ _ _ => (count_span hq cyan_mem _).le) none text
  | none => exact Nat.le_refl _

theorem count_colorComments_le (text : List Char) : (l.colorComments text).count q ≤ text.count q :=
  Matcher.count_replace_le (fun _ _ _ _ _ => (count_span hq slate_mem _).le) none text

/-- A quote of another kind becomes a double quote. -/
theorem count_colorQuoted_lt {text : List Char} (hlost : ∃ hit ∈ (quoteRegex l.quotes).hits none text, hit.captures.1 = q) :
    (l.colorQuoted text).count q < text.count q := by
  have hne : q ≠ '"' := by
    rintro rfl
    exact absurd hq (by decide)
  have hcount : ∀ captures : Char × List Char,
      (span "text-emerald-400".toList ('"' :: (captures.2 ++ ['"']))).count q = captures.2.count q := by
    intro captures
    rw [count_span hq emerald_mem]
    simp [hne.symm]
  refine Matcher.count_replace_lt (fun prev s n captures hmatch => ?_) ?_
  · rw [hcount, quoteAt_text hmatch, List.count_cons, List.count_append]
    omega
  · obtain ⟨hit, hhit, rfl⟩ := hlost
    refine ⟨hit, hhit, ?_⟩
    have htext := Matcher.forall_hits (m := quoteRegex l.quotes)
      (P := fun text captures => text = captures.1 :: (captures.2 ++ [captures.1]))
      (fun prev s n captures h => quoteAt_text h) none text hit hhit
    rw [hcount, htext, List.count_cons_self, List.count_append]
    omega

end Quotes

/-- Where the HTML shows the code, every quoted text in the pass over the quotes is in double quotes. -/
theorem double_of_shows {l : Language} {code : List Char} (h : Shows (l.highlight (escaped code)) code) :
    ∀ hit ∈ (quoteRegex l.quotes).hits none (l.colorKeywords (escaped code)), hit.captures.1 = '"' := by
  intro hit hhit
  by_contra hne
  have hquote : hit.captures.1 ∈ l.quotes :=
    Matcher.forall_hits (m := quoteRegex l.quotes) (P := fun _ captures => captures.1 ∈ l.quotes)
      (fun prev s n captures hmatch => (quoteAt_eq_some hmatch).1) none _ hit hhit
  have hany := l.quotes_subset hquote
  have hq : hit.captures.1 ∈ ['\'', '`'] := (List.mem_cons.mp hany).resolve_left hne
  obtain ⟨tokens, hspell, -, -, htext⟩ := h
  have hplain : hit.captures.1 ∉ specialChars := by
    intro hspecial
    simp only [specialChars, List.mem_cons, List.not_mem_nil, or_false] at hspecial hq
    rcases hq with hq | hq <;> rw [hq] at hspecial <;> revert hspecial <;> decide
  have hshown := count_textOf_le hplain tokens
  rw [htext, hspell] at hshown
  unfold Language.highlight at hshown
  have hcomments := count_colorComments_le (l := l) hq (l.colorBuiltins (l.colorQuoted (l.colorKeywords (escaped code))))
  have hbuiltins := count_colorBuiltins_le (l := l) hq (l.colorQuoted (l.colorKeywords (escaped code)))
  have hquoted := count_colorQuoted_lt (l := l) hq ⟨hit, hhit, rfl⟩
  have hkeywords := count_colorKeywords_le (l := l) hq (escaped code)
  have hescaped := count_escaped_le hany code
  omega

/-! ## Tags that are broken -/

def tagStart : List Char := "<span class=".toList

def inQuotes (_ : List Char) (captures : Char × List Char) : List Char :=
  span "text-emerald-400".toList ('"' :: (captures.2 ++ ['"']))

theorem quote_not_in_tagStart {q : Char} (hq : q ∈ ['"', '\'', '`']) : q ∉ tagStart := by
  have hall : (['"', '\'', '`'].all fun q => !tagStart.contains q) = true := by decide
  simpa using List.all_eq_true.mp hall q hq

/-- The pieces of the tags. -/
theorem tag_pieces : "<span class=\"".toList = tagStart ++ ['"'] ∧ "\">".toList = ['"', '>'] ∧
    "<span class=\"<".toList = tagStart ++ ['"', '<'] ∧ closeTag = '<' :: "/span>".toList := by
  decide

set_option maxRecDepth 4000 in
theorem class_plain {cls : List Char} (hcls : cls ∈ createdClasses) :
    '"' ∉ cls ∧ ∀ c ∈ cls, (!isLineEnd c) = true := by
  have hall : (createdClasses.all fun cls => !cls.contains '"' && cls.all fun c => !isLineEnd c) = true := by decide
  have hchecks := List.all_eq_true.mp hall cls hcls
  rw [Bool.and_eq_true, List.all_eq_true] at hchecks
  exact ⟨by simpa using hchecks.1, hchecks.2⟩

/-- The text before the first quote. -/
theorem append_cons_inj {x : Char} {s t s' t' : List Char} (hs : x ∉ s) (hs' : x ∉ s') (h : s ++ x :: t = s' ++ x :: t') :
    s = s' ∧ t = t' := by
  induction s generalizing s' with
  | nil =>
    cases s' with
    | nil => exact ⟨rfl, (List.cons.inj h).2⟩
    | cons y s' => exact absurd ((List.cons.inj h).1 ▸ List.mem_cons_self) hs'
  | cons y s ih =>
    cases s' with
    | nil => exact absurd ((List.cons.inj h).1 ▸ List.mem_cons_self) hs
    | cons z s' =>
      obtain ⟨rfl, hrest⟩ := List.cons.inj h
      obtain ⟨rfl, rfl⟩ := ih (mt (List.mem_cons_of_mem _) hs) (mt (List.mem_cons_of_mem _) hs') hrest
      exact ⟨rfl, rfl⟩

/-- The value of a class is taken for a quoted text, or the end of one. -/
theorem broken_of_attribute {quotes cls : List Char} (hsubset : quotes ⊆ ['"', '\'', '`']) (hmem : '"' ∈ quotes)
    (hcls : cls ∈ createdClasses) (rest u : List Char) (prev : Option Char)
    (hdouble : ∀ hit ∈ (quoteRegex quotes).hits prev (u ++ (tagStart ++ '"' :: (cls ++ '"' :: rest))), hit.captures.1 = '"') :
    ∃ broken ∈ brokenTags,
      broken <:+: (quoteRegex quotes).replace inQuotes prev (u ++ (tagStart ++ '"' :: (cls ++ '"' :: rest))) := by
  induction hlength : u.length using Nat.strongRecOn generalizing u prev with
  | ind length ih =>
    cases u with
    | nil =>
      have hmatch : (quoteRegex quotes).matchAt (lastOr prev tagStart) ('"' :: (cls ++ '"' :: rest)) =
          some (cls.length + 2, '"', cls) := by
        rw [quoteRegex_matchAt, quoteAt, if_pos hmem, lazyUntil_append (class_plain hcls).1 (class_plain hcls).2, Option.map_some]
      rw [List.nil_append, Matcher.replace_append inQuotes _ fun front back hsplit hback => ?_]
      · rw [Matcher.replace_hit hmatch]
        refine ⟨"<span class=<".toList, by decide, List.IsPrefix.isInfix ?_⟩
        unfold inQuotes span openTag
        simp only [List.append_assoc]
        exact ⟨_, rfl⟩
      · cases back with
        | nil => exact absurd rfl hback
        | cons c back =>
          refine if_neg fun hc => quote_not_in_tagStart (hsubset hc) ?_
          rw [hsplit]
          exact List.mem_append_right _ List.mem_cons_self
    | cons c u =>
      rw [List.length_cons] at hlength
      cases hmatch : (quoteRegex quotes).matchAt prev (c :: u ++ (tagStart ++ '"' :: (cls ++ '"' :: rest))) with
      | none =>
        rw [List.cons_append] at hmatch hdouble ⊢
        unfold Matcher.hits at hdouble
        rw [Matcher.cut_miss hmatch] at hdouble
        obtain ⟨broken, hbroken, hin⟩ := ih u.length (by omega) u _ hdouble rfl
        rw [Matcher.replace_miss hmatch]
        exact ⟨broken, hbroken, hin.trans (List.suffix_cons _ _).isInfix⟩
      | some found =>
        obtain ⟨n, q, body⟩ := found
        unfold Matcher.hits at hdouble
        rw [Matcher.cut_hit hmatch] at hdouble
        obtain ⟨hfirst, hrest⟩ := List.forall_mem_cons.mp hdouble
        obtain rfl : q = '"' := hfirst
        have hquoted := hmatch
        rw [quoteRegex_matchAt] at hquoted
        obtain ⟨-, rfl, hbody, behind, hsplit⟩ := quoteAt_eq_some hquoted
        rw [List.cons_append] at hsplit
        obtain ⟨rfl, htail⟩ := List.cons.inj hsplit
        rw [Matcher.replace_hit hmatch]
        by_cases hquote : '"' ∈ u
        · -- the quoted text ends before the tag
          obtain ⟨front, back, rfl, hfront⟩ := List.eq_append_cons_of_mem hquote
          rw [List.append_assoc, List.cons_append] at htail
          obtain ⟨rfl, -⟩ := append_cons_inj hbody hfront htail.symm
          have hdrop : ('"' :: (body ++ '"' :: back) ++ (tagStart ++ '"' :: (cls ++ '"' :: rest))).drop (body.length + 2) =
              back ++ (tagStart ++ '"' :: (cls ++ '"' :: rest)) := by
            rw [List.cons_append, List.append_cons, List.append_assoc, List.drop_succ_cons]
            exact List.drop_left' (by rw [List.length_append, List.length_singleton])
          rw [hdrop] at hrest ⊢
          obtain ⟨broken, hbroken, hin⟩ := ih back.length (by
            rw [List.length_append, List.length_cons] at hlength
            omega) back _ hrest rfl
          exact ⟨broken, hbroken, hin.trans (List.suffix_append _ _).isInfix⟩
        · -- it ends with the first quote of the tag
          rw [← List.append_assoc] at htail
          obtain ⟨hall, -⟩ := append_cons_inj hbody (mt List.mem_append.mp (not_or.mpr ⟨hquote,
            quote_not_in_tagStart (by decide)⟩)) htail.symm
          refine ⟨"<span class=\"<".toList, by decide, List.IsInfix.trans ?_ (List.prefix_append _ _).isInfix⟩
          obtain ⟨-, -, hbroken, hclose⟩ := tag_pieces
          unfold inQuotes span
          rw [hall, hbroken, hclose]
          refine ⟨openTag "text-emerald-400".toList ++ '"' :: u, "/span>".toList, ?_⟩
          simp only [List.append_assoc, List.cons_append, List.nil_append]

theorem span_eq (cls text : List Char) :
    span cls text = tagStart ++ '"' :: (cls ++ '"' :: ('>' :: (text ++ closeTag))) := by
  obtain ⟨hopen, hend, -, -⟩ := tag_pieces
  unfold span openTag
  rw [hopen, hend]
  simp only [List.append_assoc, List.cons_append, List.nil_append]

theorem infix_span (cls text : List Char) : text <:+: span cls text := ⟨openTag cls, closeTag, rfl⟩

theorem broken_eq {broken : List Char} (h : broken ∈ brokenTags) : ∃ more, broken = '<' :: more := by
  obtain rfl | rfl : broken = _ ∨ broken = _ := by simpa [brokenTags] using h
  · exact ⟨_, rfl⟩
  · exact ⟨_, rfl⟩

/-- A broken tag stays through the passes behind. -/
theorem broken_colorBuiltins (l : Language) {broken text : List Char} (hbroken : broken ∈ brokenTags) (h : broken <:+: text) :
    broken <:+: l.colorBuiltins text := by
  unfold Language.colorBuiltins
  cases hk : l.builtins with
  | none => exact h
  | some k =>
    obtain ⟨u, rest, rfl⟩ := h
    rw [List.append_assoc]
    refine Matcher.infix_replace (fun prev front back rest hsplit hback => spares_word (l.builtins_foreign k hk)
      (List.mem_append_right _ hbroken) front back hsplit hback _ rest) (fun prev u rest n b hmatch => ?_)
      (fun _ _ _ _ _ => infix_span _ _) none u rest
    obtain ⟨word, -, -, hplain, rfl, htake, -⟩ := wordAt_eq_some (k := k) hmatch
    refine Or.inl (Nat.le_of_not_lt fun hlong => ?_)
    obtain ⟨more, rfl⟩ := broken_eq hbroken
    -- a word that reached the tag would hold the bracket
    have hmem : '<' ∈ word := by
      rw [← htake, List.take_append, List.cons_append, List.mem_append]
      refine Or.inr ?_
      obtain ⟨i, hi⟩ : ∃ i, word.length - u.length = i + 1 := ⟨word.length - u.length - 1, by omega⟩
      rw [hi, List.take_succ_cons]
      exact List.mem_cons_self
    exact not_mem_of_isWordChar (hplain _ hmem) (by decide)

theorem broken_colorComments (l : Language) {broken text : List Char} (hbroken : broken ∈ brokenTags) (h : broken <:+: text) :
    broken <:+: l.colorComments text := by
  obtain ⟨u, rest, rfl⟩ := h
  rw [List.append_assoc]
  refine Matcher.infix_replace (fun prev front back rest hsplit hback => spares_comment l.mark_mem
    (List.mem_append_right _ hbroken) front back hsplit hback _ rest) (fun prev u rest n b hmatch => ?_)
    (fun _ _ _ _ _ => infix_span _ _) none u rest
  obtain ⟨body, behind, hsplit, rfl, hbehind⟩ := commentAt_eq_some hmatch
  -- a comment ends in front of a line end, and there is none in the tag
  obtain ⟨s, hs, hrest⟩ | ⟨s, hs, -⟩ := List.append_eq_append_iff.mp hsplit
  · rw [hs, List.length_append]
    obtain ⟨t, ht, -⟩ | ⟨t, ht, hend⟩ := List.append_eq_append_iff.mp hrest
    · rw [ht, List.length_append]
      exact Or.inr (by omega)
    · cases t with
      | nil =>
        rw [ht, List.append_nil]
        exact Or.inr (Nat.le_refl _)
      | cons c t =>
        obtain rfl | ⟨d, behind, rfl, hd⟩ := hbehind
        · cases hend
        · obtain ⟨rfl, -⟩ := List.cons.inj hend
          refine absurd ?_ (lineEnd_not_in_markup hd broken (List.mem_append_right _ hbroken))
          rw [ht]
          exact List.mem_append_right _ List.mem_cons_self
  · rw [hs]
    exact Or.inl (List.prefix_append _ _).length_le

/-- Where the HTML shows the code, no keyword is colored. -/
theorem plain_of_shows {l : Language} {code : List Char} (h : Shows (l.highlight (escaped code)) code) :
    (wordRegex l.keywords).hits none (escaped code) = [] := by
  by_contra hhits
  obtain ⟨hit, hits, hcons⟩ := List.exists_cons_of_ne_nil hhits
  have hdouble := double_of_shows h
  obtain ⟨tokens, hspell, hcreated, -⟩ := h
  obtain ⟨u, rest, hcolored⟩ : ∃ u rest, l.colorKeywords (escaped code) =
      u ++ (tagStart ++ '"' :: (l.keywordClass ++ '"' :: rest)) := by
    unfold Language.colorKeywords Matcher.replace
    unfold Matcher.hits at hcons
    rw [hcons, List.flatMap_cons]
    simp only [span_eq, List.append_assoc, List.cons_append]
    exact ⟨_, _, rfl⟩
  rw [hcolored] at hdouble
  obtain ⟨broken, hbroken, hin⟩ := broken_of_attribute l.quotes_subset l.quotes_double l.keywordClass_mem rest u none hdouble
  have hquoted : broken <:+: l.colorQuoted (l.colorKeywords (escaped code)) := by
    rw [hcolored]
    exact hin
  have hlast := broken_colorComments l hbroken (broken_colorBuiltins l hbroken hquoted)
  exact not_broken_infix hcreated broken hbroken (hspell ▸ hlast)

/-! ## The highlighted languages -/

def python : Language where
  keywords := ⟨["def", "class", "return", "if", "elif", "else", "for", "in", "while", "try", "except", "import", "from", "as",
    "with", "lambda", "and", "or", "not", "is", "None", "True", "False"].map String.toList, by simp [isWordChar]⟩
  keywordClass := "text-pink-400 font-semibold".toList
  quotes := ['"', '\'']
  builtins := some ⟨["print", "len", "range", "str", "int", "float", "dict", "list", "set", "tuple", "getattr", "setattr",
    "hasattr"].map String.toList, by simp [isWordChar]⟩
  mark := "#".toList
  keywordClass_mem := List.mem_cons_self
  quotes_subset := by simp
  quotes_double := by simp
  builtins_foreign k hk := Option.some.inj hk ▸ by decide
  mark_mem := List.mem_cons_self

def javascript : Language where
  keywords := ⟨["const", "let", "var", "function", "return", "if", "else", "for", "while", "import", "export", "from",
    "default", "class", "extends", "new", "this", "async", "await", "try", "catch", "throw", "typeof", "interface", "type",
    "public", "private"].map String.toList, by simp [isWordChar]⟩
  keywordClass := "text-pink-400 font-semibold".toList
  quotes := ['"', '\'', '`']
  builtins := some ⟨["console", "log", "error", "warn", "window", "document", "process", "require", "module"].map
    String.toList, by simp [isWordChar]⟩
  mark := "//".toList
  keywordClass_mem := List.mem_cons_self
  quotes_subset := by simp
  quotes_double := by simp
  builtins_foreign k hk := Option.some.inj hk ▸ by decide
  mark_mem := List.mem_cons_of_mem _ List.mem_cons_self

def bash : Language where
  keywords := ⟨["cd", "ls", "mkdir", "rm", "cp", "mv", "git", "npm", "pip", "python", "cargo", "node", "docker", "kubectl",
    "cat", "grep", "echo", "exit"].map String.toList, by simp [isWordChar]⟩
  keywordClass := "text-cyan-400 font-semibold".toList
  quotes := ['"', '\'']
  builtins := none
  mark := "#".toList
  keywordClass_mem := cyan_semibold_mem
  quotes_subset := by simp
  quotes_double := by simp
  builtins_foreign _ hk := nomatch hk
  mark_mem := List.mem_cons_self

def languageOf (lang : String) : Option Language :=
  if lang = "python" ∨ lang = "py" then some python
  else if lang = "javascript" ∨ lang = "typescript" ∨ lang = "js" ∨ lang = "ts" ∨ lang = "jsx" ∨ lang = "tsx" then
    some javascript
  else if lang = "bash" ∨ lang = "shell" ∨ lang = "sh" ∨ lang = "powershell" ∨ lang = "ps1" then some bash
  else none

def highlightCode (code : List Char) (lang : String) : List Char :=
  if code = [] then code
  else
    match languageOf lang with
    | some l => l.highlight (escapeHtml code)
    | none => escapeHtml code

/-- **The HTML for a code is well formed and shows the code exactly if no keyword of the language occurs in the code and
all texts that are quoted in it are in double quotes.** -/
theorem highlightCode_right_iff (code : List Char) (lang : String) :
    Shows (highlightCode code lang) code ↔ ∀ l, languageOf lang = some l →
      (wordRegex l.keywords).hits none (escapeHtml code) = [] ∧
        ∀ hit ∈ (quoteRegex l.quotes).hits none (escapeHtml code), hit.captures.1 = '"' := by
  unfold highlightCode
  rw [escapeHtml_eq]
  split_ifs with hempty
  · rw [hempty]
    exact iff_of_true (shows_escaped []) fun l _ => ⟨rfl, nofun⟩
  · cases languageOf lang with
    | none => exact iff_of_true (shows_escaped code) nofun
    | some l =>
      constructor
      · intro h l' hl
        obtain rfl := Option.some.inj hl
        have hplain := plain_of_shows h
        have hdouble := double_of_shows h
        have hkeywords : l.colorKeywords (escaped code) = escaped code := Matcher.replace_eq_self hplain
        rw [hkeywords] at hdouble
        exact ⟨hplain, hdouble⟩
      · intro h
        obtain ⟨hplain, hdouble⟩ := h l rfl
        exact shows_highlight l hplain hdouble

/-- The class of a colored keyword is colored as a quoted text. -/
theorem keyword_tag_broken : ¬ ∀ (code : List Char) (lang : String), Shows (highlightCode code lang) code := by
  intro h
  have hshown := h "def f".toList "python"
  have hhighlight : highlightCode "def f".toList "python" = python.highlight (escaped "def f".toList) := by
    rw [← escapeHtml_eq]
    rfl
  rw [hhighlight] at hshown
  exact absurd (congrArg List.length (plain_of_shows hshown)) (by decide +kernel)

example : highlightCode "s = \"<\"  # x".toList "py" =
    "s = <span class=\"text-emerald-400\">\"&lt;\"</span>  <span class=\"text-slate-500\"># x</span>".toList := by
  decide

end KernelRuntime.Ui
