import Mathlib.Data.List.Infix
import Mathlib.Tactic.Common

/-! # The lines of a text file

A file that is read in text mode: every line break is read as `'\n'`, and iteration yields one line after another,
each with its line break. -/

namespace KernelRuntime
set_option autoImplicit false

/-- What text mode makes of the line breaks of a file. -/
def translateNewlines : List Char → List Char
  | [] => []
  | '\r' :: '\n' :: cs => '\n' :: translateNewlines cs
  | c :: cs => (if c = '\r' then '\n' else c) :: translateNewlines cs

/-- What iteration over a file yields. -/
def fileLines : List Char → List (List Char)
  | [] => []
  | c :: cs =>
    if c = '\n' then [c] :: fileLines cs
    else match fileLines cs with
      | [] => [[c]]
      | line :: lines => (c :: line) :: lines

/-- The lines of a text: only the last one may be without a line break. -/
inductive LinesOf : List Char → List (List Char) → Prop
  | none : LinesOf [] []
  | last {body : List Char} (hne : body ≠ []) (hbody : '\n' ∉ body) : LinesOf body [body]
  | cons {body rest : List Char} {lines : List (List Char)} (hbody : '\n' ∉ body) (hrest : LinesOf rest lines) :
      LinesOf (body ++ '\n' :: rest) ((body ++ ['\n']) :: lines)

theorem fileLines_append {body : List Char} (hbody : '\n' ∉ body) (rest : List Char) :
    fileLines (body ++ '\n' :: rest) = (body ++ ['\n']) :: fileLines rest := by
  induction body with
  | nil => simp [fileLines]
  | cons c body ih =>
    obtain ⟨hc, hbody⟩ := not_or.mp (mt List.mem_cons.mpr hbody)
    rw [List.cons_append, fileLines, if_neg (Ne.symm hc), ih hbody]
    rfl

theorem fileLines_last {body : List Char} (hne : body ≠ []) (hbody : '\n' ∉ body) : fileLines body = [body] := by
  induction body with
  | nil => exact absurd rfl hne
  | cons c body ih =>
    obtain ⟨hc, hbody⟩ := not_or.mp (mt List.mem_cons.mpr hbody)
    rw [fileLines, if_neg (Ne.symm hc)]
    by_cases hnil : body = []
    · rw [hnil]
      rfl
    · rw [ih hnil hbody]

/-- Iteration yields the lines. -/
theorem LinesOf.fileLines_eq {text : List Char} {lines : List (List Char)} (h : LinesOf text lines) :
    fileLines text = lines := by
  induction h with
  | none => rfl
  | last hne hbody => exact fileLines_last hne hbody
  | cons hbody _ ih => rw [fileLines_append hbody, ih]

/-! ## Cutting a text into lines -/

/-- `text.splitlines()`, where `breaks` are the line boundaries. -/
def splitLines (breaks : List Char) : List Char → List (List Char)
  | [] => []
  | '\r' :: '\n' :: cs => [] :: splitLines breaks cs
  | c :: cs =>
    if c ∈ breaks then [] :: splitLines breaks cs
    else match splitLines breaks cs with
      | [] => [[c]]
      | line :: lines => (c :: line) :: lines

section Split
variable {breaks : List Char}

theorem splitLines_cons {c : Char} (hc : c ∉ breaks) (hreturn : '\r' ∈ breaks) (cs : List Char) :
    splitLines breaks (c :: cs) = match splitLines breaks cs with
      | [] => [[c]]
      | line :: lines => (c :: line) :: lines := by
  have hne : c ≠ '\r' := fun h => hc (h ▸ hreturn)
  rw [splitLines, if_neg hc]
  rintro _ rfl
  exact absurd rfl hne

theorem splitLines_break {c : Char} (hc : c ∈ breaks) (hne : c ≠ '\r') (cs : List Char) :
    splitLines breaks (c :: cs) = [] :: splitLines breaks cs := by
  rw [splitLines, if_pos hc]
  rintro _ rfl
  exact absurd rfl hne

theorem splitLines_append {line : List Char} (hline : ∀ c ∈ line, c ∉ breaks) (hreturn : '\r' ∈ breaks)
    (hfeed : '\n' ∈ breaks) (rest : List Char) :
    splitLines breaks (line ++ '\n' :: rest) = line :: splitLines breaks rest := by
  induction line with
  | nil => exact splitLines_break hfeed (by decide) rest
  | cons c line ih =>
    rw [List.cons_append, splitLines_cons (hline c List.mem_cons_self) hreturn,
      ih fun d hd => hline d (List.mem_cons_of_mem _ hd)]

theorem splitLines_single {line : List Char} (hne : line ≠ []) (hline : ∀ c ∈ line, c ∉ breaks)
    (hreturn : '\r' ∈ breaks) : splitLines breaks line = [line] := by
  induction line with
  | nil => exact absurd rfl hne
  | cons c line ih =>
    rw [splitLines_cons (hline c List.mem_cons_self) hreturn]
    by_cases hnil : line = []
    · rw [hnil]
      rfl
    · rw [ih hnil fun d hd => hline d (List.mem_cons_of_mem _ hd)]

/-- Lines without line breaks are found again. -/
theorem splitLines_intercalate {lines : List (List Char)} (hne : ∀ line ∈ lines, line ≠ [])
    (hlines : ∀ line ∈ lines, ∀ c ∈ line, c ∉ breaks) (hreturn : '\r' ∈ breaks) (hfeed : '\n' ∈ breaks) :
    splitLines breaks (['\n'].intercalate lines) = lines := by
  induction lines with
  | nil => rfl
  | cons line lines ih =>
    have hfirst := hlines line List.mem_cons_self
    cases lines with
    | nil =>
      rw [List.intercalate_singleton]
      exact splitLines_single (hne line List.mem_cons_self) hfirst hreturn
    | cons next lines =>
      rw [List.intercalate_cons_cons, List.append_assoc, List.singleton_append,
        splitLines_append hfirst hreturn hfeed, ih (fun l hl => hne l (List.mem_cons_of_mem _ hl))
          fun l hl => hlines l (List.mem_cons_of_mem _ hl)]

/-- No line holds a line break. -/
theorem not_mem_of_mem_splitLines (text : List Char) :
    ∀ line ∈ splitLines breaks text, ∀ c ∈ line, c ∉ breaks := by
  induction text using splitLines.induct breaks with
  | case1 => exact nofun
  | case2 cs ih =>
    rw [splitLines]
    exact List.forall_mem_cons.mpr ⟨nofun, ih⟩
  | case3 c cs hnot hc ih =>
    rw [splitLines, if_pos hc]
    · exact List.forall_mem_cons.mpr ⟨nofun, ih⟩
    · exact hnot
  | case4 c cs hnot hc hnil ih =>
    rw [splitLines, if_neg hc, hnil]
    · intro line hline d hd
      rw [List.mem_singleton.mp hline] at hd
      exact List.mem_singleton.mp hd ▸ hc
    · exact hnot
  | case5 c cs hnot hc line lines hsplit ih =>
    rw [splitLines, if_neg hc, hsplit]
    · rw [hsplit] at ih
      obtain ⟨hline, hlines⟩ := List.forall_mem_cons.mp ih
      exact List.forall_mem_cons.mpr ⟨List.forall_mem_cons.mpr ⟨hc, hline⟩, hlines⟩
    · exact hnot

end Split

/-! ## Lines with their breaks -/

/-- `text.splitlines(keepends=True)`. -/
def splitLinesKeep (breaks : List Char) : List Char → List (List Char)
  | [] => []
  | '\r' :: '\n' :: cs => ['\r', '\n'] :: splitLinesKeep breaks cs
  | c :: cs =>
    if c ∈ breaks then [c] :: splitLinesKeep breaks cs
    else match splitLinesKeep breaks cs with
      | [] => [[c]]
      | line :: lines => (c :: line) :: lines

/-- The lines make up the text. -/
theorem flatten_splitLinesKeep (breaks text : List Char) : (splitLinesKeep breaks text).flatten = text := by
  induction text using splitLinesKeep.induct breaks with
  | case1 => rfl
  | case2 cs ih =>
    rw [splitLinesKeep, List.flatten_cons, ih]
    rfl
  | case3 c cs hnot hc ih =>
    rw [splitLinesKeep, if_pos hc, List.flatten_cons, ih]
    · rfl
    · exact hnot
  | case4 c cs hnot hc hnil ih =>
    rw [hnil] at ih
    rw [splitLinesKeep, if_neg hc, hnil, ← ih]
    · rfl
    · exact hnot
  | case5 c cs hnot hc line lines hsplit ih =>
    rw [hsplit] at ih
    rw [splitLinesKeep, if_neg hc, hsplit, ← ih]
    · rfl
    · exact hnot

end KernelRuntime
