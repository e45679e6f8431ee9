import Mathlib.Algebra.GroupWithZero.Nat
import Mathlib.Algebra.Order.BigOperators.Group.List
import Mathlib.Algebra.Order.Group.Nat
import KernelRuntime.Foundations.RegexScan

/-! # Rendering a message

`renderContent` cuts a message at its code blocks, and the text between them at image paths and attachments. What
becomes of a text in the Markdown renderer is left out. -/

namespace KernelRuntime.Ui
set_option autoImplicit false

/-- `\w`. -/
def isWordChar (c : Char) : Bool := c.isAlphanum || c == '_'

/-! ## The regular expressions -/

/-- A literal with the flag `i`. -/
def caselessPrefix (word s : List Char) : Bool := (s.take word.length).map Char.toLower = word

/-- The language and the code: the language goes as far as it can, since a line break has to follow. -/
def codeBlockAt (s : List Char) : Option (ℕ × List Char × List Char) :=
  if "```".toList.isPrefixOf s then
    let language := (s.drop 3).takeWhile isWordChar
    match s.drop (3 + language.length) with
    | '\n' :: rest =>
      (lazyUntil (fun _ => true) "\n```".toList rest).map fun code =>
        (3 + language.length + 1 + code.length + 4, language, code)
    | _ => none
  else none

/-- A dot and one of the extensions. -/
def extensionAt (extensions : List (List Char)) : List Char → Option ℕ
  | '.' :: s => (extensions.find? fun e => caselessPrefix e s).map fun e => e.length + 1
  | _ => none

def imageExtensions : List (List Char) :=
  ["png".toList, "jpg".toList, "jpeg".toList, "webp".toList, "gif".toList]

def videoExtensions : List (List Char) := ["mp4".toList, "mov".toList, "webm".toList]

def isPathChar (c : Char) : Bool := !decide (c ∈ "*|\"<>?\n".toList)

/-- An absolute path of an image, with a drive. -/
def imageAt : List Char → Option ℕ
  | drive :: ':' :: '\\' :: s =>
    if drive.isAlpha then (greedyPlus isPathChar (extensionAt imageExtensions) s).map (· + 3) else none
  | _ => none

def attachedAt (s : List Char) : Option ℕ :=
  if caselessPrefix "attached: ".toList s then
    (greedyPlus (fun c => c != '\n') (extensionAt (imageExtensions ++ videoExtensions)) (s.drop 10)).map (· + 10)
  else none

/-- The captures: the whole match, the path of an image, the name of an attachment. -/
def combinedAt (s : List Char) : Option (ℕ × List (Option (List Char))) :=
  match imageAt s with
  | some n => some (n, [some (s.take n), some (s.take n), none])
  | none => (attachedAt s).map fun n => (n, [some (s.take n), none, some ((s.take n).drop 10)])

theorem codeBlockAt_eq_some {s : List Char} {n : ℕ} {b : List Char × List Char} (h : codeBlockAt s = some (n, b)) :
    0 < n ∧ n ≤ s.length := by
  unfold codeBlockAt at h
  split_ifs at h
  simp only at h
  split at h
  · next rest hrest =>
    obtain ⟨code, hcode, heq⟩ := Option.map_eq_some_iff.mp h
    obtain ⟨⟨back, rfl⟩, -⟩ := lazyUntil_eq_some hcode
    obtain ⟨rfl, -⟩ := Prod.mk.inj heq
    have hlength := congrArg List.length hrest
    have hfence : "\n```".toList.length = 4 := by decide +kernel
    rw [List.length_drop, List.length_cons, List.length_append, List.length_append, hfence] at hlength
    omega
  · cases h

theorem extensionAt_le {extensions : List (List Char)} {s : List Char} {n : ℕ}
    (h : extensionAt extensions s = some n) : n ≤ s.length := by
  unfold extensionAt at h
  split at h
  · next rest =>
    obtain ⟨e, he, rfl⟩ := Option.map_eq_some_iff.mp h
    have hprefix : caselessPrefix e rest = true := by simpa using List.find?_some he
    have hlength := congrArg List.length (of_decide_eq_true hprefix)
    rw [List.length_map, List.length_take] at hlength
    rw [List.length_cons]
    omega
  · cases h

theorem imageAt_eq_some {s : List Char} {n : ℕ} (h : imageAt s = some n) : 0 < n ∧ n ≤ s.length := by
  unfold imageAt at h
  split at h
  · split_ifs at h
    obtain ⟨k, hk, rfl⟩ := Option.map_eq_some_iff.mp h
    have hbounds := greedyPlus_eq_some (fun _ _ => extensionAt_le) hk
    simp only [List.length_cons]
    omega
  · cases h

theorem attachedAt_eq_some {s : List Char} {n : ℕ} (h : attachedAt s = some n) : 10 < n ∧ n ≤ s.length := by
  unfold attachedAt at h
  split_ifs at h
  obtain ⟨k, hk, rfl⟩ := Option.map_eq_some_iff.mp h
  have hbounds := greedyPlus_eq_some (fun _ _ => extensionAt_le) hk
  rw [List.length_drop] at hbounds
  omega

theorem combinedAt_eq_some {s : List Char} {n : ℕ} {captures : List (Option (List Char))}
    (h : combinedAt s = some (n, captures)) : 0 < n ∧ n ≤ s.length ∧
      (captures = [some (s.take n), some (s.take n), none] ∨
        10 < n ∧ captures = [some (s.take n), none, some ((s.take n).drop 10)]) := by
  unfold combinedAt at h
  cases himage : imageAt s with
  | some k =>
    rw [himage] at h
    obtain ⟨rfl, rfl⟩ := Prod.mk.inj (Option.some.inj h)
    have hbounds := imageAt_eq_some himage
    exact ⟨hbounds.1, hbounds.2, Or.inl rfl⟩
  | none =>
    rw [himage] at h
    obtain ⟨k, hk, heq⟩ := Option.map_eq_some_iff.mp h
    obtain ⟨rfl, rfl⟩ := Prod.mk.inj heq
    have hbounds := attachedAt_eq_some hk
    exact ⟨by omega, hbounds.2, Or.inr ⟨hbounds.1, rfl⟩⟩

def codeBlockRegex : Matcher Char (List Char × List Char) where
  matchAt _ s := codeBlockAt s
  pos h := (codeBlockAt_eq_some h).1
  le h := (codeBlockAt_eq_some h).2

def imageRegex : Matcher Char Unit where
  matchAt _ s := (imageAt s).map fun n => (n, ())
  pos h := by
    obtain ⟨n, hn, heq⟩ := Option.map_eq_some_iff.mp h
    exact (Prod.mk.inj heq).1 ▸ (imageAt_eq_some hn).1
  le h := by
    obtain ⟨n, hn, heq⟩ := Option.map_eq_some_iff.mp h
    exact (Prod.mk.inj heq).1 ▸ (imageAt_eq_some hn).2

/-- The capture is the name. -/
def attachmentRegex : Matcher Char (List Char) where
  matchAt _ s := (attachedAt s).map fun n => (n, (s.take n).drop 10)
  pos h := by
    obtain ⟨n, hn, heq⟩ := Option.map_eq_some_iff.mp h
    have hbounds := attachedAt_eq_some hn
    have hsame := (Prod.mk.inj heq).1
    omega
  le h := by
    obtain ⟨n, hn, heq⟩ := Option.map_eq_some_iff.mp h
    exact (Prod.mk.inj heq).1 ▸ (attachedAt_eq_some hn).2

def combinedRegex : Matcher Char (List (Option (List Char))) where
  matchAt _ s := combinedAt s
  pos h := (combinedAt_eq_some h).1
  le h := (combinedAt_eq_some h).2.1

/-! ## Parts -/

/-- What is rendered for a part of the message, with the part of the message that it stands for. -/
inductive Part where
  | codeBlock (language code : List Char) (text : List Char)
  | image (src text : List Char)
  | attachment (url filename : List Char) (isVideo : Bool) (text : List Char)
  | markdown (text : List Char)

def Part.text : Part → List Char
  | .codeBlock _ _ text => text
  | .image _ text => text
  | .attachment _ _ _ text => text
  | .markdown text => text

/-- The session that is shown, if any. -/
structure Page where
  sessionId : List Char
  encodeURIComponent : List Char → List Char

/-- `/\.(mp4|mov|webm)$/i`. -/
def isVideoName (filename : List Char) : Bool :=
  videoExtensions.any fun e => ('.' :: e).isSuffixOf (filename.map Char.toLower)

section Render
variable (page : Page)

/-- A part of the split text; nothing is rendered where it is missing or empty. -/
def renderPart : Option (List Char) → Option Part
  | none => none
  | some [] => none
  | some text =>
    if (imageRegex.hits none text).length ≠ 0 then
      some (.image ("/api/v1/workspace/artifacts?path=".toList ++ page.encodeURIComponent text) text)
    else
      match attachmentRegex.hits none text with
      | hit :: _ =>
        if page.sessionId ≠ [] then
          some (.attachment ("/api/v1/workspace/sessions/".toList ++ page.sessionId ++ "/file/".toList ++
            page.encodeURIComponent hit.captures) hit.captures (isVideoName hit.captures) text)
        else some (.markdown text)
      | [] => some (.markdown text)

/-- `text.split(combinedRegex)`: the captures stand between the texts. -/
def splitCombined (text : List Char) : List (Option (List Char)) :=
  some (combinedRegex.cut none text).front ::
    (combinedRegex.cut none text).hits.flatMap fun hit => hit.captures ++ [some hit.behind]

def renderTextAndAttachments (text : List Char) : List Part := (splitCombined text).filterMap (renderPart page)

/-- Nothing is rendered for an empty text. -/
def renderText (text : List Char) : List Part := if text = [] then [] else renderTextAndAttachments page text

def codePart (hit : Hit Char (List Char × List Char)) : Part :=
  .codeBlock (if hit.captures.1 = [] then "code".toList else hit.captures.1) hit.captures.2 hit.text

def renderContent (content : List Char) : Option (List Part) :=
  if content = [] then none
  else
    let pieces := codeBlockRegex.cut none content
    some (renderText page pieces.front ++ pieces.hits.flatMap fun hit => codePart hit :: renderText page hit.behind)

end Render

/-- The texts between the code blocks. -/
def outsideCode (content : List Char) : List (List Char) :=
  (codeBlockRegex.cut none content).front :: (codeBlockRegex.cut none content).hits.map Hit.behind

/-- The parts put together are the message, and no occurrence of a path or a name is a part twice. -/
def Lossless (page : Page) (content : List Char) : Prop :=
  ((renderContent page content).getD []).flatMap Part.text = content ∧
    ∀ text ∈ outsideCode content, ∀ hit ∈ combinedRegex.hits none text,
      (hit.captures.filterMap (renderPart page)).length ≤ 1

/-! ## Losslessness -/

section Lossless
variable {page : Page}

theorem renderPart_text (page : Page) (part : Option (List Char)) :
    (renderPart page part).toList.flatMap Part.text = part.getD [] := by
  cases part with
  | none => rfl
  | some text =>
    cases text with
    | nil => rfl
    | cons c text =>
      simp only [renderPart]
      split_ifs
      · simp [Part.text]
      · split <;> simp [Part.text]
      · split <;> simp [Part.text]

theorem renderTextAndAttachments_text (text : List Char) :
    (renderTextAndAttachments page text).flatMap Part.text = (splitCombined text).flatMap fun part => part.getD [] := by
  unfold renderTextAndAttachments
  induction splitCombined text with
  | nil => rfl
  | cons part parts ih =>
    rw [List.flatMap_cons, ← renderPart_text page, ← ih]
    cases h : renderPart page part with
    | none => rw [List.filterMap_cons_none h]; rfl
    | some p => rw [List.filterMap_cons_some h]; simp

/-- The captures of a match are longer than the match. -/
theorem captures_longer (prev : Option Char) (s : List Char) :
    ∀ hit ∈ combinedRegex.hits prev s, hit.text.length < (hit.captures.flatMap fun part => part.getD []).length := by
  refine Matcher.forall_hits (P := fun text (captures : List (Option (List Char))) =>
    text.length < (captures.flatMap fun part => part.getD []).length) (fun prev s n captures h => ?_) prev s
  obtain ⟨hpos, hle, rfl | ⟨hlong, rfl⟩⟩ := combinedAt_eq_some h
  · simp
    omega
  · simp
    omega

/-- The captures and the texts between them. -/
theorem hits_longer {hits : List (Hit Char (List (Option (List Char))))}
    (h : ∀ hit ∈ hits, hit.text.length < (hit.captures.flatMap fun part => part.getD []).length) :
    (hits.flatMap fun hit => hit.text ++ hit.behind).length + hits.length ≤
      ((hits.flatMap fun hit => hit.captures ++ [some hit.behind]).flatMap fun part => part.getD []).length := by
  induction hits with
  | nil => exact Nat.le_refl 0
  | cons hit hits ih =>
    obtain ⟨hfirst, hrest⟩ := List.forall_mem_cons.mp h
    have hmore := ih hrest
    simp only [List.flatMap_cons, List.flatMap_append, List.length_append, List.length_cons, Option.getD_some] at hmore ⊢
    omega

/-- A text is rendered once, and once more for every match. -/
theorem renderText_length (page : Page) (text : List Char) : text.length + (combinedRegex.hits none text).length ≤
    ((renderText page text).flatMap Part.text).length := by
  unfold renderText
  split_ifs with hempty
  · rw [hempty]
    exact Nat.le_refl 0
  · have hjoin := congrArg List.length (Matcher.cut_join (m := combinedRegex) none text)
    have hlonger := hits_longer (captures_longer none text)
    rw [renderTextAndAttachments_text]
    unfold splitCombined
    unfold Matcher.hits at hlonger ⊢
    rw [List.length_append] at hjoin
    rw [List.flatMap_cons, List.length_append, Option.getD_some]
    omega

theorem renderText_of_plain {text : List Char} (h : combinedRegex.hits none text = []) :
    (renderText page text).flatMap Part.text = text := by
  unfold renderText
  split_ifs with hempty
  · rw [hempty]
    rfl
  · have hjoin := Matcher.cut_join (m := combinedRegex) none text
    unfold Matcher.hits at h
    rw [h, List.flatMap_nil, List.append_nil] at hjoin
    rw [renderTextAndAttachments_text]
    unfold splitCombined
    rw [h, hjoin]
    simp

theorem codePart_text (hit : Hit Char (List Char × List Char)) : (codePart hit).text = hit.text := rfl

/-- The length of what is rendered behind the first text. -/
theorem hits_rendered_length (page : Page) (hits : List (Hit Char (List Char × List Char))) :
    (hits.flatMap fun hit => hit.text ++ hit.behind).length +
        (hits.map fun hit => (combinedRegex.hits none hit.behind).length).sum ≤
      ((hits.flatMap fun hit => codePart hit :: renderText page hit.behind).flatMap Part.text).length := by
  induction hits with
  | nil => exact Nat.le_refl 0
  | cons hit hits ih =>
    have hone := renderText_length page hit.behind
    simp only [List.flatMap_cons, List.flatMap_append, List.length_append, List.map_cons, List.sum_cons, codePart_text] at ih ⊢
    omega

theorem hits_rendered (hits : List (Hit Char (List Char × List Char)))
    (h : ∀ hit ∈ hits, combinedRegex.hits none hit.behind = []) :
    (hits.flatMap fun hit => codePart hit :: renderText page hit.behind).flatMap Part.text =
      hits.flatMap fun hit => hit.text ++ hit.behind := by
  induction hits with
  | nil => rfl
  | cons hit hits ih =>
    obtain ⟨hfirst, hrest⟩ := List.forall_mem_cons.mp h
    rw [List.flatMap_cons, List.flatMap_append, List.flatMap_cons, codePart_text, renderText_of_plain hfirst, ih hrest,
      List.flatMap_cons]

/-- The parts of a message, put together. -/
theorem renderContent_text (content : List Char) : ((renderContent page content).getD []).flatMap Part.text =
    (renderText page (codeBlockRegex.cut none content).front).flatMap Part.text ++
      ((codeBlockRegex.cut none content).hits.flatMap fun hit => codePart hit :: renderText page hit.behind).flatMap
        Part.text := by
  unfold renderContent
  split_ifs with hempty
  · rw [hempty]
    rfl
  · rw [Option.getD_some, List.flatMap_append]

end Lossless

/-- **The parts of a message are the message exactly if no text outside its code blocks names an image or an
attachment.** -/
theorem lossless_iff (page : Page) (content : List Char) :
    Lossless page content ↔ ∀ text ∈ outsideCode content, combinedRegex.hits none text = [] := by
  have hjoin := Matcher.cut_join (m := codeBlockRegex) none content
  unfold Lossless outsideCode
  rw [renderContent_text]
  constructor
  · rintro ⟨hsame, -⟩
    have hlength := congrArg List.length (hsame.trans hjoin.symm)
    have hfront := renderText_length page (codeBlockRegex.cut none content).front
    have hbehind := hits_rendered_length page (codeBlockRegex.cut none content).hits
    rw [List.length_append, List.length_append] at hlength
    refine List.forall_mem_cons.mpr ⟨List.length_eq_zero_iff.mp (by omega), fun text htext => ?_⟩
    obtain ⟨hit, hhit, rfl⟩ := List.mem_map.mp htext
    have hnone : ((codeBlockRegex.cut none content).hits.map fun hit => (combinedRegex.hits none hit.behind).length).sum = 0 := by
      omega
    exact List.length_eq_zero_iff.mp (List.sum_eq_zero_iff.mp hnone _ (List.mem_map_of_mem hhit))
  · intro h
    obtain ⟨hfront, hbehind⟩ := List.forall_mem_cons.mp h
    have hhits : ∀ hit ∈ (codeBlockRegex.cut none content).hits, combinedRegex.hits none hit.behind = [] :=
      fun hit hhit => hbehind _ (List.mem_map_of_mem hhit)
    refine ⟨?_, fun text htext hit hhit => ?_⟩
    · rw [renderText_of_plain hfront, hits_rendered _ hhits]
      exact hjoin
    · rw [h text htext] at hhit
      cases hhit

/-! ## A message with an attachment -/

def notePage : Page := ⟨[], id⟩

/-- The name of an attached file is rendered behind the line that attaches it. -/
theorem attachment_rendered_twice : ¬ ∀ (page : Page) (content : List Char), Lossless page content := by
  intro h
  have hlost := (h notePage "Attached: a.png".toList).1
  exact absurd (congrArg List.length hlost) (by decide +kernel)

/-- Code blocks and plain text come through. -/
example : (renderContent notePage "hi\n```py\nx = 1\n```\nbye".toList).map (fun parts => parts.map Part.text) =
    some ["hi\n".toList, "```py\nx = 1\n```".toList, "\nbye".toList] := by decide +kernel

end KernelRuntime.Ui
