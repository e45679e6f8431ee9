import Mathlib.Data.Bool.AllAny
import Mathlib.Tactic.IntervalCases
import KernelRuntime.Foundations.TextLines
import KernelRuntime.Foundations.Trim
import KernelRuntime.Storage.Mount
import KernelRuntime.Tools.BashExecute
import KernelRuntime.Tools.Router

/-! # Parsing a review

`CodeReviewTool._parse_review` sorts the lines of a review by the words that occur in them. -/

namespace KernelRuntime.CodeReview
open Gvfs (strip isWhitespace)
open ToolExecution (occursIn lineBreaks)
set_option autoImplicit false

/-- `str.lower`, `str.isdigit` and `int`, with what they do to ASCII. -/
structure TextData where
  lower : String → String
  isDigit : Char → Bool
  int : String → Except PyError ℤ
  lower_ascii : ∀ text : String, (∀ c ∈ text.toList, c.toNat < 128) →
    lower text = String.ofList (text.toList.map Char.toLower)
  isDigit_ascii : ∀ c : Char, c.toNat < 128 → isDigit c = c.isDigit
  int_decimal : ∀ n : ℕ, (Nat.toDigits 10 n).length ≤ 4300 → int (String.ofList (Nat.toDigits 10 n)) = .ok n

inductive Section where
  | issues
  | positives
  | recommendations
deriving DecidableEq

structure Review where
  score : ℤ
  issues : List String
  positives : List String
  recommendations : List String
deriving DecidableEq

/-- `review[current_section].append(text)`. -/
def Review.append (review : Review) (text : String) : Section → Review
  | .issues => { review with issues := review.issues ++ [text] }
  | .positives => { review with positives := review.positives ++ [text] }
  | .recommendations => { review with recommendations := review.recommendations ++ [text] }

/-- The review so far, and the section that a bullet is for. -/
structure State where
  review : Review
  currentSection : Option Section
deriving DecidableEq

def State.start : State := ⟨⟨7, [], [], []⟩, none⟩

def bulletMarkers : List String := ["-", "*", "1.", "2.", "3."]

/-- What `strip` takes off a bullet. -/
def isDecoration (c : Char) : Bool := decide (c ∈ " -*1234567890.".toList)

section Parser
variable (u : TextData)

def has (word : String) (line : List Char) : Bool := occursIn word (u.lower (String.ofList line))

def isScore (line : List Char) : Bool := has u "score" line && line.any u.isDigit

def isBullet (line : List Char) : Bool := bulletMarkers.any fun marker => marker.toList.isPrefixOf (strip line)

def parseLine (s : State) (line : List Char) : Except PyError State :=
  if isScore u line then
    (u.int (String.ofList (line.filter u.isDigit))).map fun n => { s with review := { s.review with score := min n 10 } }
  else if has u "issue" line || has u "problem" line then .ok { s with currentSection := some .issues }
  else if has u "positive" line || has u "good" line then .ok { s with currentSection := some .positives }
  else if has u "recommendation" line then .ok { s with currentSection := some .recommendations }
  else if isBullet line then
    match s.currentSection with
    | some current => .ok { s with review := s.review.append (String.ofList (trimEnds isDecoration line)) current }
    | none => .ok s
  else .ok s

def parseLines (s : State) : List (List Char) → Except PyError State
  | [] => .ok s
  | line :: lines => parseLine u s line >>= fun s' => parseLines s' lines

/-- `_parse_review`. -/
def parseReview (text : List Char) : Except PyError Review :=
  (parseLines u .start (splitLines lineBreaks text)).map State.review

end Parser

/-! ## Reviews -/

/-- A line `- text` or `* text`. -/
structure Bullet where
  star : Bool
  text : List Char
  oneLine : '\n' ∉ text

def Bullet.line (b : Bullet) : List Char := (if b.star then '*' else '-') :: ' ' :: b.text

def Section.title : Section → List Char
  | .issues => "Issues".toList
  | .positives => "Positives".toList
  | .recommendations => "Recommendations".toList

/-- A section under its heading; the heading may be decorated, as in `## Issues:`. -/
structure Part where
  before : List Char
  after : List Char
  bullets : List Bullet
  decorated : ∀ c ∈ before ++ after, c ∈ "#*: ".toList

def Part.heading (p : Part) (current : Section) : List Char := p.before ++ current.title ++ p.after

def Part.lines (p : Part) (current : Section) : List (List Char) := p.heading current :: p.bullets.map Bullet.line

/-- A review with a score out of ten. -/
structure ReviewText where
  score : ℕ
  issues : Part
  positives : Part
  recommendations : Part
  score_pos : 1 ≤ score
  score_le : score ≤ 10

namespace ReviewText

def scoreLine (r : ReviewText) : List Char := "Score: ".toList ++ Nat.toDigits 10 r.score ++ "/10".toList

def lines (r : ReviewText) : List (List Char) :=
  r.scoreLine :: (r.issues.lines .issues ++ r.positives.lines .positives ++ r.recommendations.lines .recommendations)

def text (r : ReviewText) : List Char := ['\n'].intercalate r.lines

def bullets (r : ReviewText) : List Bullet := r.issues.bullets ++ r.positives.bullets ++ r.recommendations.bullets

/-- What the review says. -/
def content (r : ReviewText) : Review where
  score := r.score
  issues := r.issues.bullets.map fun b => String.ofList b.text
  positives := r.positives.bullets.map fun b => String.ofList b.text
  recommendations := r.recommendations.bullets.map fun b => String.ofList b.text

end ReviewText

/-! ## Headings and the score -/

section Lines
variable {u : TextData} {word : String} {line : List Char}

theorem has_ascii (hline : ∀ c ∈ line, c.toNat < 128) :
    has u word line = decide (word.toList <:+: line.map Char.toLower) := by
  unfold has occursIn
  rw [u.lower_ascii _ (by rwa [String.toList_ofList]), decide_eq_decide, String.toList_ofList, String.toList_ofList]

theorem has_of_part {front part back : List Char} (hpart : word.toList <:+: part.map Char.toLower)
    (hline : ∀ c ∈ front ++ part ++ back, c.toNat < 128) : has u word (front ++ part ++ back) = true := by
  rw [has_ascii hline, decide_eq_true_iff, List.map_append, List.map_append]
  exact hpart.trans (List.infix_append _ _ _)

theorem not_has {c : Char} (hc : c ∈ word.toList) (hline : ∀ d ∈ line, d.toNat < 128 ∧ d.toLower ≠ c) :
    has u word line = false := by
  rw [has_ascii fun d hd => (hline d hd).1, decide_eq_false_iff_not]
  intro hin
  obtain ⟨d, hd, hlower⟩ := List.mem_map.mp (hin.subset hc)
  exact (hline d hd).2 hlower

/-- What a heading is made of. -/
theorem Part.mem_heading (p : Part) (current : Section) :
    ∀ c ∈ p.heading current, c ∈ "#*: ".toList ++ current.title := by
  intro c hc
  rcases List.mem_append.mp hc with hc | hc
  · rcases List.mem_append.mp hc with hc | hc
    · exact List.mem_append_left _ (p.decorated c (List.mem_append_left _ hc))
    · exact List.mem_append_right _ hc
  · exact List.mem_append_left _ (p.decorated c (List.mem_append_right _ hc))

theorem headingChars_ascii (current : Section) :
    ∀ c ∈ "#*: ".toList ++ current.title, c.toNat < 128 ∧ c.isDigit = false ∧ c ∉ lineBreaks := by
  cases current <;> exact List.all_iff_forall_prop.mp (by decide +kernel)

theorem Part.heading_ascii (p : Part) (current : Section) : ∀ c ∈ p.heading current, c.toNat < 128 := fun c hc =>
  (headingChars_ascii current c (p.mem_heading current c hc)).1

theorem Part.heading_not_score (p : Part) (current : Section) : isScore u (p.heading current) = false := by
  unfold isScore
  rw [Bool.and_eq_false_iff, List.any_eq_false]
  refine Or.inr fun c hc => ?_
  obtain ⟨hascii, hdigit, -⟩ := headingChars_ascii current c (p.mem_heading current c hc)
  rw [u.isDigit_ascii c hascii, hdigit]
  exact Bool.false_ne_true

theorem Part.heading_not_has (p : Part) {current : Section} {c : Char} (hc : c ∈ word.toList)
    (hfree : ∀ d ∈ "#*: ".toList ++ current.title, d.toLower ≠ c) : has u word (p.heading current) = false :=
  not_has hc fun d hd => ⟨p.heading_ascii current d hd, hfree d (p.mem_heading current d hd)⟩

/-- A heading begins its section. -/
theorem parse_heading (p : Part) (current : Section) (s : State) :
    parseLine u s (p.heading current) = .ok { s with currentSection := some current } := by
  unfold parseLine
  rw [p.heading_not_score, if_neg Bool.false_ne_true]
  cases current with
  | issues =>
    have hissue : has u "issue" (p.heading .issues) = true :=
      has_of_part (by decide +kernel) (p.heading_ascii .issues)
    rw [hissue]
    rfl
  | positives =>
    have hissue : has u "issue" (p.heading .positives) = false :=
      p.heading_not_has (show 'u' ∈ "issue".toList by decide +kernel) (List.all_iff_forall_prop.mp (by decide +kernel))
    have hproblem : has u "problem" (p.heading .positives) = false :=
      p.heading_not_has (show 'm' ∈ "problem".toList by decide +kernel) (List.all_iff_forall_prop.mp (by decide +kernel))
    have hpositive : has u "positive" (p.heading .positives) = true :=
      has_of_part (by decide +kernel) (p.heading_ascii .positives)
    rw [hissue, hproblem, hpositive]
    rfl
  | recommendations =>
    have hfree : ∀ d ∈ "#*: ".toList ++ Section.recommendations.title, d.toLower ≠ 'u' ∧ d.toLower ≠ 'p' ∧ d.toLower ≠ 'g' :=
      List.all_iff_forall_prop.mp (by decide +kernel)
    have hissue : has u "issue" (p.heading .recommendations) = false :=
      p.heading_not_has (show 'u' ∈ "issue".toList by decide +kernel) fun d hd => (hfree d hd).1
    have hproblem : has u "problem" (p.heading .recommendations) = false :=
      p.heading_not_has (show 'p' ∈ "problem".toList by decide +kernel) fun d hd => (hfree d hd).2.1
    have hpositive : has u "positive" (p.heading .recommendations) = false :=
      p.heading_not_has (show 'p' ∈ "positive".toList by decide +kernel) fun d hd => (hfree d hd).2.1
    have hgood : has u "good" (p.heading .recommendations) = false :=
      p.heading_not_has (show 'g' ∈ "good".toList by decide +kernel) fun d hd => (hfree d hd).2.2
    have hrecommendation : has u "recommendation" (p.heading .recommendations) = true :=
      has_of_part (by decide +kernel) (p.heading_ascii .recommendations)
    rw [hissue, hproblem, hpositive, hgood, hrecommendation]
    rfl

/-- All the digits of the score line are read as one number. -/
theorem scoreLine_digits {n : ℕ} (hpos : 1 ≤ n) (hle : n ≤ 10) :
    ∃ m, 10 ≤ m ∧ m < 10000 ∧ ("Score: ".toList ++ Nat.toDigits 10 n ++ "/10".toList).filter Char.isDigit = Nat.toDigits 10 m ∧
      ∀ c ∈ Nat.toDigits 10 n, c.toNat < 128 ∧ c ∉ lineBreaks := by
  by_cases hten : n = 10
  · subst hten
    exact ⟨1010, by decide, by decide, by decide +kernel, List.all_iff_forall_prop.mp (by decide +kernel)⟩
  · refine ⟨100 * n + 10, by omega, by omega, ?_, ?_⟩
    · interval_cases n
      all_goals first | omega | decide +kernel
    · interval_cases n
      all_goals first | omega | exact List.all_iff_forall_prop.mp (by decide +kernel)

theorem ReviewText.scoreLine_plain (r : ReviewText) :
    ∀ c ∈ r.scoreLine, c.toNat < 128 ∧ c ∉ lineBreaks := by
  obtain ⟨m, -, -, -, hdigits⟩ := scoreLine_digits r.score_pos r.score_le
  have hfront : ∀ c ∈ "Score: ".toList, c.toNat < 128 ∧ c ∉ lineBreaks := List.all_iff_forall_prop.mp (by decide +kernel)
  have hback : ∀ c ∈ "/10".toList, c.toNat < 128 ∧ c ∉ lineBreaks := List.all_iff_forall_prop.mp (by decide +kernel)
  intro c hc
  rcases List.mem_append.mp hc with hc | hc
  · rcases List.mem_append.mp hc with hc | hc
    · exact hfront c hc
    · exact hdigits c hc
  · exact hback c hc

theorem ReviewText.isScore_scoreLine (r : ReviewText) : isScore u r.scoreLine = true := by
  have hascii : ∀ c ∈ r.scoreLine, c.toNat < 128 := fun c hc => (r.scoreLine_plain c hc).1
  unfold isScore
  rw [Bool.and_eq_true, List.any_eq_true]
  refine ⟨?_, '1', List.mem_append_right _ (by decide +kernel), u.isDigit_ascii _ (by decide)⟩
  unfold ReviewText.scoreLine at hascii ⊢
  rw [List.append_assoc, ← List.nil_append ("Score: ".toList ++ _), ← List.append_assoc] at hascii ⊢
  exact has_of_part (by decide +kernel) hascii

/-- Whatever the score is, ten is what is read. -/
theorem parse_scoreLine (r : ReviewText) (s : State) :
    parseLine u s r.scoreLine = .ok { s with review := { s.review with score := 10 } } := by
  obtain ⟨m, hten, hsmall, hdigits, -⟩ := scoreLine_digits r.score_pos r.score_le
  have hfilter : r.scoreLine.filter u.isDigit = Nat.toDigits 10 m := by
    rw [← hdigits]
    exact List.filter_congr fun c hc => u.isDigit_ascii c (r.scoreLine_plain c hc).1
  have hshort : (Nat.toDigits 10 m).length ≤ 4300 := by
    have hlength := (Nat.length_toDigits_le_iff (b := 10) (n := m) (k := 4) (by decide) (by decide)).mpr (by omega)
    omega
  unfold parseLine
  rw [if_pos r.isScore_scoreLine, hfilter, u.int_decimal m hshort]
  have hmin : min (m : ℤ) 10 = 10 := by omega
  show Except.ok { s with review := { s.review with score := min (m : ℤ) 10 } } = _
  rw [hmin]

/-! ## Bullets -/

def keywords : List String := ["issue", "problem", "positive", "good", "recommendation"]

/-- The line is not taken for a score or a heading. -/
def Plain (u : TextData) (line : List Char) : Prop :=
  isScore u line = false ∧ ∀ word ∈ keywords, has u word line = false

instance (u : TextData) (line : List Char) : Decidable (Plain u line) := inferInstanceAs (Decidable (_ ∧ _))

theorem parseLine_plain (h : Plain u line) (s : State) : parseLine u s line =
    if isBullet line then
      match s.currentSection with
      | some current => .ok { s with review := s.review.append (String.ofList (trimEnds isDecoration line)) current }
      | none => .ok s
    else .ok s := by
  obtain ⟨hscore, hwords⟩ := h
  have hissue := hwords "issue" (by decide)
  have hproblem := hwords "problem" (by decide)
  have hpositive := hwords "positive" (by decide)
  have hgood := hwords "good" (by decide)
  have hrecommendation := hwords "recommendation" (by decide)
  unfold parseLine
  rw [hscore, hissue, hproblem, hpositive, hgood, hrecommendation]
  rfl

/-- Any other line leaves the lists as they are. -/
theorem parseLine_not_plain (h : ¬ Plain u line) {s s' : State} (hs' : parseLine u s line = .ok s') :
    s'.review.issues = s.review.issues ∧ s'.review.positives = s.review.positives ∧
      s'.review.recommendations = s.review.recommendations := by
  unfold parseLine at hs'
  split_ifs at hs' with hscore hissues hpositives hrecommendation hbullet
  · cases hn : u.int (String.ofList (line.filter u.isDigit)) with
    | error e =>
      rw [hn] at hs'
      cases hs'
    | ok n =>
      rw [hn] at hs'
      cases hs'
      exact ⟨rfl, rfl, rfl⟩
  · cases hs'
    exact ⟨rfl, rfl, rfl⟩
  · cases hs'
    exact ⟨rfl, rfl, rfl⟩
  · cases hs'
    exact ⟨rfl, rfl, rfl⟩
  all_goals
    refine absurd ⟨by simpa using hscore, fun word hword => ?_⟩ h
    simp only [Bool.or_eq_true, not_or, Bool.not_eq_true] at hissues hpositives hrecommendation
    unfold keywords at hword
    simp only [List.mem_cons, List.not_mem_nil, or_false] at hword
    rcases hword with rfl | rfl | rfl | rfl | rfl
    · exact hissues.1
    · exact hissues.2
    · exact hpositives.1
    · exact hpositives.2
    · exact hrecommendation

/-- The number of texts that were filed. -/
def Review.size (review : Review) : ℕ :=
  review.issues.length + review.positives.length + review.recommendations.length

theorem Review.size_append (review : Review) (text : String) (current : Section) :
    (review.append text current).size = review.size + 1 := by
  cases current <;> simp only [Review.append, Review.size, List.length_append, List.length_singleton] <;> omega

theorem parseLine_size {s s' : State} (h : parseLine u s line = .ok s') :
    s'.review.size ≤ s.review.size + if Plain u line then 1 else 0 := by
  by_cases hplain : Plain u line
  · rw [if_pos hplain]
    rw [parseLine_plain hplain] at h
    split_ifs at h
    · cases hcurrent : s.currentSection with
      | none =>
        rw [hcurrent] at h
        cases h
        omega
      | some current =>
        rw [hcurrent] at h
        cases h
        exact (Review.size_append _ _ _).le
    · cases h
      omega
  · obtain ⟨hissues, hpositives, hrecommendations⟩ := parseLine_not_plain hplain h
    rw [if_neg hplain]
    unfold Review.size
    rw [hissues, hpositives, hrecommendations]
    omega

theorem parseLines_cons {s s' : State} {lines : List (List Char)} :
    parseLines u s (line :: lines) = .ok s' ↔ ∃ t, parseLine u s line = .ok t ∧ parseLines u t lines = .ok s' :=
  bind_eq_ok_iff

/-- No more texts are filed than there are lines for them. -/
theorem parseLines_size {s s' : State} {lines : List (List Char)} (h : parseLines u s lines = .ok s') :
    s'.review.size ≤ s.review.size + lines.countP fun line => decide (Plain u line) := by
  induction lines generalizing s with
  | nil =>
    cases h
    exact Nat.le_add_right _ _
  | cons line lines ih =>
    obtain ⟨t, ht, hrest⟩ := parseLines_cons.mp h
    have hone := parseLine_size ht
    have hmore := ih hrest
    rw [List.countP_cons]
    simp only [decide_eq_true_eq]
    omega

def Review.texts (review : Review) : List String := review.issues ++ review.positives ++ review.recommendations

theorem Review.mem_texts_append {review : Review} {text new : String} {current : Section}
    (h : text ∈ (review.append new current).texts) : text ∈ review.texts ∨ text = new := by
  cases current <;> simp only [Review.append, Review.texts, List.mem_append, List.mem_singleton] at h ⊢ <;> tauto

/-- What is filed is a part of a line. -/
theorem parseLine_texts {s s' : State} (h : parseLine u s line = .ok s') :
    ∀ text ∈ s'.review.texts, text ∈ s.review.texts ∨ text = String.ofList (trimEnds isDecoration line) := by
  intro text htext
  by_cases hplain : Plain u line
  · rw [parseLine_plain hplain] at h
    split_ifs at h
    · cases hcurrent : s.currentSection with
      | none =>
        rw [hcurrent] at h
        cases h
        exact Or.inl htext
      | some current =>
        rw [hcurrent] at h
        cases h
        exact Review.mem_texts_append htext
    · cases h
      exact Or.inl htext
  · obtain ⟨hissues, hpositives, hrecommendations⟩ := parseLine_not_plain hplain h
    unfold Review.texts at htext
    rw [hissues, hpositives, hrecommendations] at htext
    exact Or.inl htext

/-- No line break is in a text that was filed. -/
theorem parseLines_texts {s s' : State} {lines : List (List Char)} (h : parseLines u s lines = .ok s')
    (hs : ∀ text ∈ s.review.texts, ∀ c ∈ text.toList, c ∉ lineBreaks)
    (hlines : ∀ line ∈ lines, ∀ c ∈ line, c ∉ lineBreaks) :
    ∀ text ∈ s'.review.texts, ∀ c ∈ text.toList, c ∉ lineBreaks := by
  induction lines generalizing s with
  | nil =>
    cases h
    exact hs
  | cons line lines ih =>
    obtain ⟨t, ht, hrest⟩ := parseLines_cons.mp h
    refine ih hrest (fun text htext => ?_) fun l hl => hlines l (List.mem_cons_of_mem _ hl)
    rcases parseLine_texts ht text htext with hold | rfl
    · exact hs text hold
    · intro c hc
      rw [String.toList_ofList] at hc
      have hsub := (List.dropWhile_suffix isDecoration).subset ((trimEnds_prefix_dropWhile line).subset hc)
      exact hlines line List.mem_cons_self c hsub

/-! ## Runs over the lines -/

theorem Bullet.isBullet_line (b : Bullet) : isBullet b.line = true := by
  have hfront : ∀ c : Char, isWhitespace c = false → strip (c :: ' ' :: b.text) = c :: (' ' :: b.text).rdropWhile isWhitespace := by
    intro c hc
    have htrim := trimEnds_append_cons (p := isWhitespace) (l := []) (m := ' ' :: b.text) hc
    exact htrim
  unfold isBullet Bullet.line
  rw [List.any_eq_true]
  cases b.star with
  | true =>
    refine ⟨"*", by decide, ?_⟩
    rw [if_pos rfl, hfront '*' (by decide)]
    rfl
  | false =>
    refine ⟨"-", by decide, ?_⟩
    rw [if_neg Bool.false_ne_true, hfront '-' (by decide)]
    rfl

theorem Bullet.trim_line (b : Bullet) : trimEnds isDecoration b.line = trimEnds isDecoration b.text := by
  have hmarker : isDecoration (if b.star then '*' else '-') = true := by
    cases b.star <;> decide +kernel
  unfold Bullet.line trimEnds
  rw [List.dropWhile_cons_of_pos hmarker, List.dropWhile_cons_of_pos (by decide +kernel)]

/-- What is filed for a bullet that is recognised. -/
def Bullet.filed (b : Bullet) : String := String.ofList (trimEnds isDecoration b.text)

theorem parse_bullet {b : Bullet} (h : Plain u b.line) (review : Review) (current : Section) :
    parseLine u ⟨review, some current⟩ b.line = .ok ⟨review.append b.filed current, some current⟩ := by
  rw [parseLine_plain h, if_pos b.isBullet_line, b.trim_line]
  rfl

def Review.appendAll (review : Review) (current : Section) (texts : List String) : Review :=
  texts.foldl (fun r text => r.append text current) review

theorem parse_bullets {bullets : List Bullet} (h : ∀ b ∈ bullets, Plain u b.line) (review : Review) (current : Section) :
    parseLines u ⟨review, some current⟩ (bullets.map Bullet.line) =
      .ok ⟨review.appendAll current (bullets.map Bullet.filed), some current⟩ := by
  induction bullets generalizing review with
  | nil => rfl
  | cons b bullets ih =>
    obtain ⟨hfirst, hrest⟩ := List.forall_mem_cons.mp h
    exact parseLines_cons.mpr ⟨_, parse_bullet hfirst review current, ih hrest _⟩

theorem parse_part {p : Part} (h : ∀ b ∈ p.bullets, Plain u b.line) (s : State) (current : Section) :
    parseLines u s (p.lines current) = .ok ⟨s.review.appendAll current (p.bullets.map Bullet.filed), some current⟩ :=
  parseLines_cons.mpr ⟨_, parse_heading p current s, parse_bullets h s.review current⟩

theorem parseLines_append {s t : State} {front back : List (List Char)} (h : parseLines u s front = .ok t) :
    parseLines u s (front ++ back) = parseLines u t back := by
  induction front generalizing s with
  | nil =>
    cases h
    rfl
  | cons line front ih =>
    obtain ⟨s', hs', hrest⟩ := parseLines_cons.mp h
    rw [List.cons_append, parseLines, hs']
    exact ih hrest

/-- The section with more texts. -/
def Review.extend (review : Review) (texts : List String) : Section → Review
  | .issues => { review with issues := review.issues ++ texts }
  | .positives => { review with positives := review.positives ++ texts }
  | .recommendations => { review with recommendations := review.recommendations ++ texts }

theorem Review.appendAll_eq (review : Review) (current : Section) (texts : List String) :
    review.appendAll current texts = review.extend texts current := by
  unfold Review.appendAll
  induction texts generalizing review with
  | nil => cases current <;> simp [Review.extend]
  | cons text texts ih =>
    rw [List.foldl_cons, ih]
    cases current <;> simp [Review.append, Review.extend]

/-- When every bullet is recognised, each is filed in its section, trimmed. -/
theorem parse_lines {r : ReviewText} (h : ∀ b ∈ r.bullets, Plain u b.line) :
    (parseLines u .start r.lines).map State.review = .ok
      ⟨10, r.issues.bullets.map Bullet.filed, r.positives.bullets.map Bullet.filed,
        r.recommendations.bullets.map Bullet.filed⟩ := by
  unfold ReviewText.bullets at h
  simp only [List.mem_append, or_imp, forall_and] at h
  obtain ⟨⟨hissues, hpositives⟩, hrecommendations⟩ := h
  unfold ReviewText.lines
  have hscore := parse_scoreLine (u := u) r .start
  rw [parseLines, hscore, List.append_assoc]
  show (parseLines u _ (r.issues.lines .issues ++ _)).map State.review = _
  rw [parseLines_append (parse_part hissues _ _), parseLines_append (parse_part hpositives _ _),
    parse_part hrecommendations, Review.appendAll_eq, Review.appendAll_eq, Review.appendAll_eq]
  rfl

/-! ## The whole review -/

/-- A bullet is one line, is taken for no score and no heading, and neither begins nor ends with what is stripped. -/
def Bullet.Kept (u : TextData) (b : Bullet) : Prop :=
  (∀ c ∈ b.text, c ∉ lineBreaks) ∧ Plain u b.line ∧
    (∀ c ∈ b.text.head?, isDecoration c = false) ∧ ∀ c ∈ b.text.getLast?, isDecoration c = false

theorem Bullet.filed_eq_iff (b : Bullet) : b.filed = String.ofList b.text ↔
    (∀ c ∈ b.text.head?, isDecoration c = false) ∧ ∀ c ∈ b.text.getLast?, isDecoration c = false := by
  rw [← trimEnds_eq_self_iff]
  unfold Bullet.filed
  exact String.ofList_inj

theorem ReviewText.mem_lines {r : ReviewText} {line : List Char} (h : line ∈ r.lines) :
    line = r.scoreLine ∨ (∃ p current, line = Part.heading p current) ∨ ∃ b ∈ r.bullets, line = b.line := by
  unfold ReviewText.lines at h
  unfold ReviewText.bullets
  simp only [Part.lines, List.mem_cons, List.mem_append, List.mem_map] at h ⊢
  rcases h with h | ((h | ⟨b, hb, rfl⟩) | h | ⟨b, hb, rfl⟩) | h | ⟨b, hb, rfl⟩
  · exact Or.inl h
  · exact Or.inr (Or.inl ⟨_, _, h⟩)
  · exact Or.inr (Or.inr ⟨b, Or.inl (Or.inl hb), rfl⟩)
  · exact Or.inr (Or.inl ⟨_, _, h⟩)
  · exact Or.inr (Or.inr ⟨b, Or.inl (Or.inr hb), rfl⟩)
  · exact Or.inr (Or.inl ⟨_, _, h⟩)
  · exact Or.inr (Or.inr ⟨b, Or.inr hb, rfl⟩)

theorem ReviewText.splitLines_text {r : ReviewText} (h : ∀ b ∈ r.bullets, ∀ c ∈ b.text, c ∉ lineBreaks) :
    splitLines lineBreaks r.text = r.lines := by
  refine splitLines_intercalate (fun line hline => ?_) (fun line hline c hc => ?_) (by decide) (by decide)
  · rcases r.mem_lines hline with rfl | ⟨p, current, rfl⟩ | ⟨b, -, rfl⟩
    · exact List.append_ne_nil_of_right_ne_nil _ (by decide +kernel)
    · refine List.append_ne_nil_of_left_ne_nil (List.append_ne_nil_of_right_ne_nil _ ?_) _
      cases current <;> decide +kernel
    · exact List.cons_ne_nil _ _
  · rcases r.mem_lines hline with rfl | ⟨p, current, rfl⟩ | ⟨b, hb, rfl⟩
    · exact (r.scoreLine_plain c hc).2
    · exact (headingChars_ascii current c (p.mem_heading current c hc)).2.2
    · unfold Bullet.line at hc
      rcases List.mem_cons.mp hc with rfl | hc
      · cases b.star <;> decide
      · rcases List.mem_cons.mp hc with rfl | hc
        · decide
        · exact h b hb c hc

theorem heading_not_plain (p : Part) (current : Section) : ¬ Plain u (p.heading current) := by
  intro h
  have hplain := parseLine_plain h ⟨⟨0, [], [], []⟩, none⟩
  rw [parse_heading] at hplain
  split_ifs at hplain
  all_goals cases hplain

theorem ReviewText.countP_lines (r : ReviewText) : (r.lines.countP fun line => decide (Plain u line)) =
    (r.bullets.map Bullet.line).countP fun line => decide (Plain u line) := by
  have hscore : ¬ Plain u r.scoreLine := fun h => Bool.false_ne_true (h.1.symm.trans r.isScore_scoreLine)
  have hheading : ∀ (p : Part) (current : Section), ((p.lines current).countP fun line => decide (Plain u line)) =
      (p.bullets.map Bullet.line).countP fun line => decide (Plain u line) := by
    intro p current
    exact List.countP_cons_of_neg (by simpa using heading_not_plain p current)
  unfold ReviewText.lines ReviewText.bullets
  rw [List.countP_cons_of_neg (by simpa using hscore)]
  simp only [List.countP_append, List.map_append, hheading]

end Lines

/-- When the review is read right, no bullet was lost on the way. -/
theorem plain_of_right {u : TextData} {r : ReviewText} (h : parseReview u r.text = .ok r.content) :
    (∀ b ∈ r.bullets, ∀ c ∈ b.text, c ∉ lineBreaks) ∧ ∀ b ∈ r.bullets, Plain u b.line := by
  have hrun : ∃ s, parseLines u .start (splitLines lineBreaks r.text) = .ok s ∧ s.review = r.content := by
    unfold parseReview at h
    cases hparse : parseLines u .start (splitLines lineBreaks r.text) with
    | error e =>
      rw [hparse] at h
      cases h
    | ok s =>
      rw [hparse] at h
      exact ⟨s, rfl, Except.ok.inj h⟩
  obtain ⟨s, hs, hreview⟩ := hrun
  have hbreaks : ∀ b ∈ r.bullets, ∀ c ∈ b.text, c ∉ lineBreaks := by
    intro b hb c hc
    have htexts := parseLines_texts hs nofun (not_mem_of_mem_splitLines r.text)
    rw [hreview] at htexts
    have hmem : String.ofList b.text ∈ r.content.texts := by
      unfold ReviewText.bullets at hb
      unfold Review.texts ReviewText.content
      simp only [List.mem_append, List.mem_map] at hb ⊢
      rcases hb with (hb | hb) | hb
      · exact Or.inl (Or.inl ⟨b, hb, rfl⟩)
      · exact Or.inl (Or.inr ⟨b, hb, rfl⟩)
      · exact Or.inr ⟨b, hb, rfl⟩
    exact htexts _ hmem c (by rwa [String.toList_ofList])
  refine ⟨hbreaks, ?_⟩
  -- every line files at most one text, and there are as many texts as bullets
  rw [ReviewText.splitLines_text hbreaks] at hs
  have hcount := parseLines_size hs
  have hsize : r.content.size = (r.bullets.map Bullet.line).length := by
    unfold Review.size ReviewText.content ReviewText.bullets
    simp only [List.length_map, List.length_append]
  rw [hreview, hsize, r.countP_lines] at hcount
  have hall := List.countP_eq_length.mp (le_antisymm List.countP_le_length (by simpa [State.start, Review.size] using hcount))
  intro b hb
  exact of_decide_eq_true (hall b hb)

/-- **A review is read right exactly if its score is ten and every bullet is kept.** -/
theorem parse_right_iff (u : TextData) (r : ReviewText) :
    parseReview u r.text = .ok r.content ↔ r.score = 10 ∧ ∀ b ∈ r.bullets, b.Kept u := by
  have hread : (∀ b ∈ r.bullets, ∀ c ∈ b.text, c ∉ lineBreaks) → (∀ b ∈ r.bullets, Plain u b.line) →
      (parseReview u r.text = .ok r.content ↔ r.score = 10 ∧ ∀ b ∈ r.bullets, b.filed = String.ofList b.text) := by
    intro hbreaks hplain
    unfold parseReview
    rw [ReviewText.splitLines_text hbreaks, parse_lines hplain, Except.ok.injEq]
    unfold ReviewText.content ReviewText.bullets
    simp only [Review.mk.injEq, List.map_inj_left, List.mem_append, or_imp, forall_and]
    constructor
    · rintro ⟨hscore, hissues, hpositives, hrecommendations⟩
      exact ⟨by omega, ⟨hissues, hpositives⟩, hrecommendations⟩
    · rintro ⟨hscore, ⟨hissues, hpositives⟩, hrecommendations⟩
      exact ⟨by omega, hissues, hpositives, hrecommendations⟩
  constructor
  · intro h
    obtain ⟨hbreaks, hplain⟩ := plain_of_right h
    obtain ⟨hscore, hfiled⟩ := (hread hbreaks hplain).mp h
    exact ⟨hscore, fun b hb => ⟨hbreaks b hb, hplain b hb, b.filed_eq_iff.mp (hfiled b hb)⟩⟩
  · rintro ⟨hscore, hkept⟩
    refine (hread (fun b hb => (hkept b hb).1) fun b hb => (hkept b hb).2.1).mpr ⟨hscore, fun b hb => ?_⟩
    exact b.filed_eq_iff.mpr (hkept b hb).2.2

/-! ## A review of eight out of ten -/

/-- The methods on ASCII texts. -/
def asciiText : TextData where
  lower text := String.ofList (text.toList.map Char.toLower)
  isDigit := Char.isDigit
  int text :=
    if text.toList ≠ [] ∧ text.toList.all Char.isDigit then .ok (Nat.ofDigitChars 10 text.toList 0)
    else .error ⟨.valueError, "invalid literal for int() with base 10: '" ++ text ++ "'"⟩
  lower_ascii _ _ := rfl
  isDigit_ascii _ _ := rfl
  int_decimal := by
    intro n _
    have hdigits : (Nat.toDigits 10 n).all Char.isDigit = true :=
      List.all_eq_true.mpr fun c hc => Nat.isDigit_of_mem_toDigits (by decide) (by decide) hc
    rw [String.toList_ofList, if_pos ⟨Nat.toDigits_ne_nil, hdigits⟩, Nat.ofDigitChars_toDigits (by decide) (by decide)]

def noBullets : Part := ⟨[], [':'], [], List.all_iff_forall_prop.mp (by decide +kernel)⟩

def eightOfTen : ReviewText := ⟨8, noBullets, noBullets, noBullets, by decide, by decide⟩

/-- `Score: 8/10` is read as ten. -/
theorem eight_read_as_ten : ¬ ∀ (u : TextData) (r : ReviewText), parseReview u r.text = .ok r.content := by
  intro h
  have hwrong : parseReview asciiText eightOfTen.text = .ok ⟨10, [], [], []⟩ := by decide +kernel
  exact absurd (hwrong.symm.trans (h asciiText eightOfTen)) (by decide +kernel)

end KernelRuntime.CodeReview
