import Mathlib.Data.Bool.AllAny
import KernelRuntime.Foundations.RegexScan

/-! # Text marked up with spans

HTML as the highlighter writes it: escaped text and `span` elements of its own classes. -/

namespace KernelRuntime.Ui
set_option autoImplicit false

def escapeChar : Char → List Char
  | '&' => "&amp;".toList
  | '<' => "&lt;".toList
  | '>' => "&gt;".toList
  | c => [c]

def specialChars : List Char := ['&', '<', '>']

theorem escapeChar_of_not_mem {c : Char} (h : c ∉ specialChars) : escapeChar c = [c] := by
  unfold escapeChar
  split
  · exact absurd (by decide) h
  · exact absurd (by decide) h
  · exact absurd (by decide) h
  · rfl

def openTag (cls : List Char) : List Char := "<span class=\"".toList ++ cls ++ "\">".toList

def closeTag : List Char := "</span>".toList

def span (cls text : List Char) : List Char := openTag cls ++ text ++ closeTag

/-- The classes of the spans. -/
def createdClasses : List (List Char) :=
  ["text-pink-400 font-semibold".toList, "text-emerald-400".toList, "text-cyan-400".toList, "text-slate-500".toList,
    "text-cyan-400 font-semibold".toList]

theorem emerald_mem : "text-emerald-400".toList ∈ createdClasses := List.mem_cons_of_mem _ List.mem_cons_self

theorem cyan_mem : "text-cyan-400".toList ∈ createdClasses :=
  List.mem_cons_of_mem _ (List.mem_cons_of_mem _ List.mem_cons_self)

theorem cyan_semibold_mem : "text-cyan-400 font-semibold".toList ∈ createdClasses :=
  List.mem_cons_of_mem _ (List.mem_cons_of_mem _ (List.mem_cons_of_mem _ (List.mem_cons_of_mem _ List.mem_cons_self)))

theorem slate_mem : "text-slate-500".toList ∈ createdClasses :=
  List.mem_cons_of_mem _ (List.mem_cons_of_mem _ (List.mem_cons_of_mem _ List.mem_cons_self))

inductive Token where
  | opened (cls : List Char)
  | closed
  | char (c : Char)
deriving DecidableEq

def Token.chars : Token → List Char
  | .opened cls => openTag cls
  | .closed => closeTag
  | .char c => escapeChar c

/-- The text that tokens stand for. -/
def spell (tokens : List Token) : List Char := tokens.flatMap Token.chars

/-- What is left when the tags are taken out. -/
def textOf (tokens : List Token) : List Char := tokens.filterMap fun
  | .char c => some c
  | _ => none

/-- No element is closed that is not open, and none stays open. -/
def balanced : ℕ → List Token → Bool
  | d, [] => d == 0
  | d, .opened _ :: tokens => balanced (d + 1) tokens
  | 0, .closed :: _ => false
  | d + 1, .closed :: tokens => balanced d tokens
  | d, .char _ :: tokens => balanced d tokens

def Created (tokens : List Token) : Prop := ∀ cls, .opened cls ∈ tokens → cls ∈ createdClasses

/-- The HTML consists of the highlighter's own spans, nested, and of escaped text, which is the code. -/
def Shows (html code : List Char) : Prop :=
  ∃ tokens, spell tokens = html ∧ Created tokens ∧ balanced 0 tokens = true ∧ textOf tokens = code

@[simp] theorem spell_nil : spell [] = [] := rfl

@[simp] theorem spell_cons (t : Token) (tokens : List Token) : spell (t :: tokens) = t.chars ++ spell tokens := rfl

@[simp] theorem spell_append (s t : List Token) : spell (s ++ t) = spell s ++ spell t := List.flatMap_append

@[simp] theorem textOf_nil : textOf [] = [] := rfl

@[simp] theorem textOf_opened (cls : List Char) (tokens : List Token) : textOf (.opened cls :: tokens) = textOf tokens := rfl

@[simp] theorem textOf_closed (tokens : List Token) : textOf (.closed :: tokens) = textOf tokens := rfl

@[simp] theorem textOf_char (c : Char) (tokens : List Token) : textOf (.char c :: tokens) = c :: textOf tokens := rfl

@[simp] theorem textOf_append (s t : List Token) : textOf (s ++ t) = textOf s ++ textOf t := List.filterMap_append

theorem Created.cons {t : Token} {tokens : List Token} (ht : ∀ cls, t = .opened cls → cls ∈ createdClasses)
    (h : Created tokens) : Created (t :: tokens) := fun cls hcls =>
  (List.mem_cons.mp hcls).elim (fun heq => ht cls heq.symm) (h cls)

theorem Created.append {s t : List Token} (hs : Created s) (ht : Created t) : Created (s ++ t) := fun cls hcls =>
  (List.mem_append.mp hcls).elim (hs cls) (ht cls)

theorem Created.of_append_right {s t : List Token} (h : Created (s ++ t)) : Created t := fun cls hcls =>
  h cls (List.mem_append_right _ hcls)

/-! ## Escaped text -/

def chars (text : List Char) : List Token := text.map .char

/-- `code.replace(/&/g, '&amp;').replace(/</g, '&lt;').replace(/>/g, '&gt;')`, character by character. -/
def escaped (text : List Char) : List Char := text.flatMap escapeChar

theorem spell_chars (text : List Char) : spell (chars text) = escaped text := by
  unfold spell chars
  exact List.flatMap_map ..

@[simp] theorem textOf_chars (text : List Char) : textOf (chars text) = text := by
  unfold textOf chars
  rw [List.filterMap_map]
  exact List.filterMap_some

theorem created_chars (text : List Char) : Created (chars text) := by
  intro cls hcls
  obtain ⟨c, -, hc⟩ := List.mem_map.mp hcls
  cases hc

/-! ## Balance -/

theorem balanced_chars (d : ℕ) (text : List Char) (tokens : List Token) :
    balanced d (chars text ++ tokens) = balanced d tokens := by
  induction text with
  | nil => rfl
  | cons c text ih =>
    rw [← ih]
    cases d <;> rfl

/-- A span may be opened and closed anywhere: the elements that it cuts are closed in another order. -/
theorem balanced_wrap {seg tokens tokens' : List Token} (htokens : ∀ d, balanced d tokens = true → balanced d tokens' = true)
    {d : ℕ} (h : balanced d (seg ++ tokens) = true) : balanced (d + 1) (seg ++ .closed :: tokens') = true := by
  induction seg generalizing d with
  | nil =>
    rw [List.nil_append, balanced]
    exact htokens d h
  | cons t seg ih =>
    rw [List.cons_append] at h ⊢
    cases t with
    | opened cls =>
      rw [balanced] at h ⊢
      exact ih h
    | closed =>
      cases d with
      | zero =>
        rw [balanced] at h
        cases h
      | succ d =>
        rw [balanced] at h ⊢
        exact ih h
    | char c =>
      cases d <;> exact ih h

/-! ## How markup is written -/

/-- Every tag and every entity. -/
def markup : List (List Char) := closeTag :: (createdClasses.map openTag ++ specialChars.map escapeChar)

theorem mem_markup_of_special {c : Char} (h : c ∈ specialChars) : escapeChar c ∈ markup :=
  List.mem_cons_of_mem _ (List.mem_append_right _ (List.mem_map_of_mem h))

/-- What a token of the highlighter is written as. -/
theorem Token.chars_cases {t : Token} (ht : ∀ cls, t = .opened cls → cls ∈ createdClasses) :
    t.chars ∈ markup ∨ ∃ c, t = .char c ∧ c ∉ specialChars ∧ t.chars = [c] := by
  cases t with
  | opened cls =>
    exact Or.inl (List.mem_cons_of_mem _ (List.mem_append_left _ (List.mem_map_of_mem (ht cls rfl))))
  | closed => exact Or.inl List.mem_cons_self
  | char c =>
    by_cases hc : c ∈ specialChars
    · exact Or.inl (mem_markup_of_special hc)
    · exact Or.inr ⟨c, rfl, hc, escapeChar_of_not_mem hc⟩

/-- What is not a single character begins with one that is never written alone. -/
theorem Token.chars_head (t : Token) :
    (∃ c, t = .char c ∧ c ∉ specialChars ∧ t.chars = [c]) ∨ ∃ c s, c ∈ specialChars ∧ t.chars = c :: s := by
  cases t with
  | opened cls => exact Or.inr ⟨'<', _, by decide, rfl⟩
  | closed => exact Or.inr ⟨'<', _, by decide, rfl⟩
  | char c =>
    by_cases hc : c ∈ specialChars
    · obtain rfl | rfl | rfl : c = '&' ∨ c = '<' ∨ c = '>' := by simpa [specialChars] using hc
      · exact Or.inr ⟨'&', _, by decide, rfl⟩
      · exact Or.inr ⟨'&', _, by decide, rfl⟩
      · exact Or.inr ⟨'&', _, by decide, rfl⟩
    · exact Or.inl ⟨c, rfl, hc, escapeChar_of_not_mem hc⟩

/-- A text of ordinary characters is cut off between two tokens. -/
theorem split_plain {text rest : List Char} {tokens : List Token} (htext : ∀ c ∈ text, c ∉ specialChars)
    (h : spell tokens = text ++ rest) : ∃ seg tail, tokens = seg ++ tail ∧ spell seg = text := by
  induction text generalizing tokens with
  | nil => exact ⟨[], tokens, rfl, rfl⟩
  | cons c text ih =>
    obtain ⟨hc, hplain⟩ := List.forall_mem_cons.mp htext
    cases tokens with
    | nil => cases h
    | cons t tokens =>
      rw [spell_cons, List.cons_append] at h
      obtain ⟨x, rfl, -, hx⟩ | ⟨x, s, hspecial, hx⟩ := t.chars_head
      · rw [hx, List.singleton_append] at h
        obtain ⟨rfl, hrest⟩ := List.cons.inj h
        obtain ⟨seg, tail, rfl, hseg⟩ := ih hplain hrest
        exact ⟨.char x :: seg, tail, rfl, by rw [spell_cons, hx, hseg, List.singleton_append]⟩
      · rw [hx, List.cons_append] at h
        obtain ⟨rfl, -⟩ := List.cons.inj h
        exact absurd hspecial hc

/-- A character that is only written alone is a token. -/
theorem split_at {x : Char} {front back : List Char} {tokens : List Token}
    (hx : ∀ t ∈ tokens, x ∈ t.chars → t.chars = [x]) (h : spell tokens = front ++ x :: back) :
    ∃ seg t tail, tokens = seg ++ t :: tail ∧ t.chars = [x] ∧ spell seg = front := by
  induction tokens generalizing front with
  | nil => exact absurd h.symm (List.append_ne_nil_of_right_ne_nil _ (List.cons_ne_nil _ _))
  | cons t tokens ih =>
    obtain ⟨ht, htokens⟩ := List.forall_mem_cons.mp hx
    rw [spell_cons] at h
    obtain ⟨s, rfl, hs⟩ | ⟨s, hs, hback⟩ := List.append_eq_append_iff.mp h
    · obtain ⟨seg, u, tail, rfl, hu, rfl⟩ := ih htokens hs
      exact ⟨t :: seg, u, tail, rfl, hu, rfl⟩
    · cases s with
      | nil =>
        obtain ⟨seg, u, tail, rfl, hu, hseg⟩ := ih htokens (show spell tokens = [] ++ x :: back from hback.symm)
        exact ⟨t :: seg, u, tail, rfl, hu, by rw [spell_cons, hseg, hs, List.append_nil, List.append_nil]⟩
      | cons y s =>
        obtain ⟨rfl, -⟩ := List.cons.inj hback
        have hone := ht (by rw [hs]; simp)
        rw [hone] at hs
        cases front with
        | nil => exact ⟨[], t, tokens, rfl, hone, rfl⟩
        | cons z front =>
          have hlength := congrArg List.length hs
          simp at hlength

/-! ## Broken tags -/

/-- A tag begins in a tag, before the value of its class or in it. -/
def brokenTags : List (List Char) := ["<span class=<".toList, "<span class=\"<".toList]

theorem infix_skip {x : Char} {s t more : List Char} (hs : x ∉ s) (h : x :: more <:+: s ++ t) : x :: more <:+: t := by
  induction s with
  | nil => exact h
  | cons y s ih =>
    obtain ⟨hy, hs⟩ := not_or.mp (mt List.mem_cons.mpr hs)
    rw [List.cons_append] at h
    rcases List.infix_cons_iff.mp h with hprefix | hin
    · exact absurd (List.cons_prefix_cons.mp hprefix).1 hy
    · exact ih hs hin

theorem markup_not_broken : ∀ broken ∈ brokenTags, ∀ chunk ∈ markup, ¬ chunk <+: broken ∧ ¬ broken <+: chunk := by
  have hall : (brokenTags.all fun broken => markup.all fun chunk =>
      !chunk.isPrefixOf broken && !broken.isPrefixOf chunk) = true := by decide +kernel
  intro broken hbroken chunk hchunk
  have h := List.all_eq_true.mp (List.all_eq_true.mp hall broken hbroken) chunk hchunk
  rw [Bool.and_eq_true, Bool.not_eq_true', Bool.not_eq_true', ← Bool.not_eq_true, ← Bool.not_eq_true,
    List.isPrefixOf_iff_prefix, List.isPrefixOf_iff_prefix] at h
  exact h

theorem markup_tail : ∀ chunk ∈ markup, '<' ∉ chunk.tail ∧ chunk ≠ [] := by
  have hall : (markup.all fun chunk => !chunk.tail.contains '<' && !chunk.isEmpty) = true := by decide +kernel
  intro chunk hchunk
  have h := List.all_eq_true.mp hall chunk hchunk
  simpa using h

/-- A broken tag is not the highlighter's. -/
theorem not_broken_infix {tokens : List Token} (h : Created tokens) : ∀ broken ∈ brokenTags, ¬ broken <:+: spell tokens := by
  intro broken hbroken hin
  obtain ⟨more, rfl⟩ : ∃ more, broken = '<' :: more := by
    obtain rfl | rfl : broken = _ ∨ broken = _ := by simpa [brokenTags] using hbroken
    · exact ⟨_, rfl⟩
    · exact ⟨_, rfl⟩
  induction tokens with
  | nil => cases List.infix_nil.mp hin
  | cons t tokens ih =>
    have htail : '<' ∉ t.chars.tail := by
      obtain hmem | ⟨c, -, -, hc⟩ := t.chars_cases fun cls hcls => h cls (hcls ▸ List.mem_cons_self)
      · exact (markup_tail _ hmem).1
      · rw [hc]
        exact List.not_mem_nil
    have hnot : ¬ '<' :: more <+: spell (t :: tokens) := by
      intro hprefix
      obtain hmem | ⟨c, -, hplain, hc⟩ := t.chars_cases fun cls hcls => h cls (hcls ▸ List.mem_cons_self)
      · obtain ⟨hone, htwo⟩ := markup_not_broken _ hbroken _ hmem
        exact (List.prefix_or_prefix_of_prefix (List.prefix_append t.chars (spell tokens)) hprefix).elim hone htwo
      · rw [spell_cons, hc, List.singleton_append] at hprefix
        obtain rfl := (List.cons_prefix_cons.mp hprefix).1
        exact hplain (by decide)
    refine ih (h.of_append_right (s := [t])) ?_
    obtain ⟨c, s, hs⟩ : ∃ c s, t.chars = c :: s := by
      obtain ⟨c, -, -, hc⟩ | ⟨c, s, -, hc⟩ := t.chars_head
      · exact ⟨c, [], hc⟩
      · exact ⟨c, s, hc⟩
    rw [spell_cons, hs, List.cons_append] at hin hnot
    rw [hs, List.tail_cons] at htail
    exact infix_skip htail ((List.infix_cons_iff.mp hin).resolve_left hnot)

/-! ## Putting spans around matches -/

/-- Spans are added to a text; the text itself stays. -/
structure Marks (tokens tokens' : List Token) : Prop where
  created : Created tokens'
  balanced : ∀ d, balanced d tokens = true → balanced d tokens' = true
  text : textOf tokens' = textOf tokens

theorem Marks.trans {s t u : List Token} (h : Marks s t) (h' : Marks t u) : Marks s u where
  created := h'.created
  balanced d hd := h'.balanced d (h.balanced d hd)
  text := h'.text.trans h.text

theorem Marks.cons {t : Token} {tokens tokens' : List Token} (ht : ∀ cls, t = .opened cls → cls ∈ createdClasses)
    (h : Marks tokens tokens') : Marks (t :: tokens) (t :: tokens') where
  created := h.created.cons ht
  balanced d hd := by
    cases t with
    | opened cls => exact h.balanced (d + 1) hd
    | closed =>
      cases d with
      | zero => cases hd
      | succ d => exact h.balanced d hd
    | char c => cases d <;> exact h.balanced _ hd
  text := by
    cases t with
    | opened cls => exact h.text
    | closed => exact h.text
    | char c => exact congrArg (c :: ·) h.text

theorem Marks.wrap {cls : List Char} {seg tokens tokens' : List Token} (hcls : cls ∈ createdClasses) (hseg : Created seg)
    (h : Marks tokens tokens') : Marks (seg ++ tokens) (.opened cls :: (seg ++ .closed :: tokens')) where
  created := (hseg.append (h.created.cons fun _ hc => by cases hc)).cons fun c hc => Token.opened.inj hc ▸ hcls
  balanced _ hd := balanced_wrap h.balanced hd
  text := by rw [textOf_opened, textOf_append, textOf_append, textOf_closed, h.text]

/-- The matches in a text of certain tokens consist of whole tokens. -/
structure Wraps {β : Type} (m : Matcher Char β) (good : Token → Prop) : Prop where
  created : ∀ t, good t → ∀ cls, t = .opened cls → cls ∈ createdClasses
  inside : ∀ t, good t → ∀ front back, t.chars = front ++ back → front ≠ [] → back ≠ [] → ∀ prev rest,
    m.matchAt prev (back ++ rest) = none
  whole : ∀ prev tokens n b, (∀ t ∈ tokens, good t) → m.matchAt prev (spell tokens) = some (n, b) →
    ∃ seg tail, tokens = seg ++ tail ∧ spell seg = (spell tokens).take n

theorem Wraps.exists_marks {β : Type} {m : Matcher Char β} {good : Token → Prop} (hm : Wraps m good)
    {f : List Char → β → List Char} {cls : List Char} (hcls : cls ∈ createdClasses) (prev : Option Char) {tokens : List Token}
    (hgood : ∀ t ∈ tokens, good t)
    (hf : ∀ hit ∈ m.hits prev (spell tokens), f hit.text hit.captures = span cls hit.text) :
    ∃ tokens', spell tokens' = m.replace f prev (spell tokens) ∧ Marks tokens tokens' := by
  induction hlength : tokens.length using Nat.strongRecOn generalizing prev tokens with
  | ind length ih =>
    cases tokens with
    | nil => exact ⟨[], rfl, ⟨nofun, fun _ hd => hd, rfl⟩⟩
    | cons t tokens =>
      obtain ⟨ht, htokens⟩ := List.forall_mem_cons.mp hgood
      cases hmatch : m.matchAt prev (spell (t :: tokens)) with
      | some found =>
        obtain ⟨n, b⟩ := found
        obtain ⟨seg, tail, hsplit, hseg⟩ := hm.whole prev _ n b hgood hmatch
        have hdrop : (spell (t :: tokens)).drop n = spell tail := by
          have hjoin := List.take_append_drop n (spell (t :: tokens))
          rw [← hseg] at hjoin
          exact List.append_cancel_left (hjoin.trans (by rw [hsplit, spell_append]))
        have hshort : tail.length < length := by
          have hpos := m.pos hmatch
          have hle := m.le hmatch
          have hne : seg ≠ [] := by
            rintro rfl
            have hzero := congrArg List.length hseg
            rw [List.length_take, spell_nil, List.length_nil] at hzero
            omega
          have hsum := congrArg List.length hsplit
          have hsegpos := List.length_pos_of_ne_nil hne
          rw [List.length_append] at hsum
          omega
        unfold Matcher.hits at hf
        rw [Matcher.cut_hit hmatch] at hf
        obtain ⟨hfirst, hrest⟩ := List.forall_mem_cons.mp hf
        rw [hdrop] at hrest
        rw [hsplit] at hgood
        obtain ⟨tokens', hspell, hmarks⟩ := ih tail.length hshort _ (fun t ht => hgood t (List.mem_append_right _ ht)) hrest rfl
        rw [hsplit]
        refine ⟨.opened cls :: (seg ++ .closed :: tokens'), ?_, hmarks.wrap hcls fun c hc =>
          hm.created _ (hgood _ (List.mem_append_left _ hc)) c rfl⟩
        rw [← hsplit, Matcher.replace_hit hmatch, hdrop, hfirst, ← hspell, ← hseg]
        simp only [spell_cons, spell_append, Token.chars, span, List.append_assoc]
      | none =>
        obtain ⟨c, s, hs⟩ : ∃ c s, t.chars = c :: s := by
          obtain ⟨c, -, -, hc⟩ | ⟨c, s, -, hc⟩ := t.chars_head
          · exact ⟨c, [], hc⟩
          · exact ⟨c, s, hc⟩
        have hskip : ∀ front back, t.chars = front ++ back → back ≠ [] →
            m.matchAt (lastOr prev front) (back ++ spell tokens) = none := by
          intro front back hchars hback
          cases front with
          | nil =>
            rw [List.nil_append] at hchars
            rw [← hchars]
            exact hmatch
          | cons y front => exact hm.inside t ht (y :: front) back hchars (List.cons_ne_nil _ _) hback _ _
        rw [spell_cons, Matcher.hits_append _ hskip] at hf
        obtain ⟨tokens', hspell, hmarks⟩ := ih tokens.length (by rw [← hlength, List.length_cons]; omega) _ htokens hf rfl
        refine ⟨t :: tokens', ?_, hmarks.cons (hm.created t ht)⟩
        rw [spell_cons, spell_cons, Matcher.replace_append f _ hskip, hspell]

end KernelRuntime.Ui
