import KernelRuntime.Governance.ContainerPaths

/-! # Paths as they are written

A `PurePosixPath`: its root, and its names with their `..`. On a disk without links a path leads to one place, and
so does every path on the way to it. -/

namespace KernelRuntime
open ToolExecution
set_option autoImplicit false

/-- A place below another one. -/
def StrictlyInside (base p : List String) : Prop := base <+: p ∧ p ≠ base

instance (base p : List String) : Decidable (StrictlyInside base p) := inferInstanceAs (Decidable (_ ∧ _))

/-- The `root` of a path as `pathlib` reads it. Exactly two slashes are a root of their own. -/
inductive Anchor where
  | relative
  | root
  | doubleRoot
deriving DecidableEq

def Anchor.text : Anchor → String
  | .relative => ""
  | .root => "/"
  | .doubleRoot => "//"

structure PurePath where
  anchor : Anchor
  parts : List String
deriving DecidableEq

def anchorOf (text : String) : Anchor :=
  match (text.toList.takeWhile (· = '/')).length with
  | 0 => .relative
  | 2 => .doubleRoot
  | _ => .root

namespace PurePath

/-- `Path(text)`. -/
def of (text : String) : PurePath := ⟨anchorOf text, pureParts text⟩

/-- `str(path)`. -/
def text (p : PurePath) : String :=
  if p.anchor = .relative ∧ p.parts = [] then "." else p.anchor.text ++ String.intercalate "/" p.parts

/-- `path / other`: an absolute path takes the place of the one before it. -/
def join (p q : PurePath) : PurePath := if q.anchor = .relative then ⟨p.anchor, p.parts ++ q.parts⟩ else q

/-- `path.parent`. -/
def parent (p : PurePath) : PurePath := ⟨p.anchor, p.parts.dropLast⟩

/-- Where the names of an absolute path lead. -/
def place (p : PurePath) : List String := p.parts.foldl walk []

/-- The places of an absolute path and of its parents, from the top. -/
def places (p : PurePath) : List (List String) := p.parts.inits.map fun names => names.foldl walk []

/-! ## Roots -/

theorem isAbsolute_iff {text : String} : isAbsolute text = true ↔ ∃ cs, text.toList = '/' :: cs := by
  unfold isAbsolute
  rw [List.isPrefixOf_iff_prefix]
  exact ⟨fun ⟨cs, h⟩ => ⟨cs, h.symm⟩, fun ⟨cs, h⟩ => ⟨cs, h.symm⟩⟩

theorem anchorOf_relative {text : String} : anchorOf text = .relative ↔ isAbsolute text = false := by
  have hlength : anchorOf text = .relative ↔ text.toList.takeWhile (· = '/') = [] := by
    rw [← List.length_eq_zero_iff]
    unfold anchorOf
    split
    · next h => simp [h]
    · next h => simp [h]
    · next hzero _ => exact iff_of_false nofun hzero
  rw [hlength, ← Bool.not_eq_true, isAbsolute_iff]
  cases text.toList with
  | nil => simp
  | cons c cs => by_cases hc : c = '/' <;> simp [hc]

theorem isAbsolute_text {anchor : Anchor} (h : anchor ≠ .relative) (parts : List String) :
    isAbsolute (text ⟨anchor, parts⟩) = true := by
  rw [isAbsolute_iff]
  unfold text
  rw [if_neg fun hand => h hand.1]
  cases anchor with
  | relative => exact absurd rfl h
  | root => exact ⟨(String.intercalate "/" parts).toList, by simp [Anchor.text]⟩
  | doubleRoot => exact ⟨'/' :: (String.intercalate "/" parts).toList, by simp [Anchor.text]⟩

/-! ## Names -/

/-- What can be a name of a path; it may be `..`. -/
def IsName (name : String) : Prop := name ≠ "" ∧ name ≠ "." ∧ '/' ∉ name.toList

theorem isName_pureParts (text : String) : ∀ name ∈ pureParts text, IsName name := by
  intro name hname
  rw [ContainerPaths.pureParts_eq] at hname
  obtain ⟨hpath, hproper⟩ := List.mem_filter.mp hname
  obtain ⟨hempty, hdot⟩ := of_decide_eq_true hproper
  exact ⟨hempty, hdot, no_slash_pathNames _ name hpath⟩

/-- The names of a path are read back from its text. -/
theorem pureParts_text {anchor : Anchor} {parts : List String} (hparts : ∀ name ∈ parts, IsName name) :
    pureParts (text ⟨anchor, parts⟩) = parts := by
  have hnames : (pathNames (String.intercalate "/" parts)).filter (fun name => decide (name ≠ "" ∧ name ≠ ".")) =
      parts := by
    by_cases hnil : parts = []
    · subst hnil
      decide
    · rw [pathNames_intercalate hnil fun name hname => (hparts name hname).2.2]
      exact List.filter_eq_self.mpr fun name hname =>
        decide_eq_true ⟨(hparts name hname).1, (hparts name hname).2.1⟩
  have hslash : ∀ rest, (pathNames ("/" ++ rest)).filter (fun name => decide (name ≠ "" ∧ name ≠ ".")) =
      (pathNames rest).filter (fun name => decide (name ≠ "" ∧ name ≠ ".")) := by
    intro rest
    have hsplit : "/" ++ rest = "" ++ "/" ++ rest := by simp
    rw [hsplit, pathNames_append]
    rfl
  unfold text
  rw [ContainerPaths.pureParts_eq]
  by_cases hempty : anchor = .relative ∧ parts = []
  · rw [if_pos hempty, hempty.2]
    decide
  · rw [if_neg hempty]
    cases anchor with
    | relative => simpa [Anchor.text] using hnames
    | root => exact (hslash _).trans hnames
    | doubleRoot =>
      have htwice : Anchor.doubleRoot.text ++ String.intercalate "/" parts =
          "/" ++ ("/" ++ String.intercalate "/" parts) := by
        rw [← String.append_assoc]
        rfl
      simp only [htwice]
      exact (hslash _).trans ((hslash _).trans hnames)

theorem isName_of (text : String) : ∀ name ∈ (of text).parts, IsName name := isName_pureParts text

theorem isName_join {p q : PurePath} (hp : ∀ name ∈ p.parts, IsName name) (hq : ∀ name ∈ q.parts, IsName name) :
    ∀ name ∈ (p.join q).parts, IsName name := by
  unfold join
  split_ifs
  · intro name hname
    exact (List.mem_append.mp hname).elim (hp name) (hq name)
  · exact hq

theorem join_absolute {p : PurePath} (h : p.anchor ≠ .relative) (q : PurePath) : (p.join q).anchor ≠ .relative := by
  unfold join
  split_ifs with hq
  · exact h
  · exact hq

/-- The text of an absolute path leads where the path does. -/
theorem place_of_text {p : PurePath} (hp : ∀ name ∈ p.parts, IsName name) : (of p.text).place = p.place := by
  unfold place
  exact congrArg (List.foldl walk []) (pureParts_text hp)

example : (of "/a\\b//./../c").parts = ["a\\b", "..", "c"] := by decide +kernel

example : (join (of "/srv") (of "//etc")).text = "//etc" := by decide +kernel

end PurePath
end KernelRuntime
