import KernelRuntime.Foundations.Execution
import KernelRuntime.Foundations.JsonEncoder
import KernelRuntime.Foundations.KeyedFold
import KernelRuntime.Foundations.TextSplit

/-! # The vector store

`SemanticCodeGraph` cuts the files of a workspace into chunks and upserts them into one collection for all sessions. An
entry of the collection has an id, and an upsert replaces the entries with its ids. -/

namespace KernelRuntime.SemanticCodeGraph
set_option autoImplicit false

/-! ## Workspaces -/

/-- A file below the workspace, by its path there, with what reading it as text gives. -/
structure SourceFile where
  path : List Char
  text : Option (List Char)
deriving DecidableEq

structure Workspace where
  files : List SourceFile
  nodup : (files.map SourceFile.path).Nodup

/-- A call of `index_workspace`. A workspace path with special characters is a pattern for other files: `elsewhere` is
what it matches. -/
structure Call where
  session : List Char
  path : List Char
  workspace : Workspace
  elsewhere : List (List Char × Option (List Char))

/-- `glob.has_magic`. -/
def hasMagic (path : List Char) : Bool := path.any fun c => decide (c ∈ ['*', '?', '['])

/-- A name on the path begins with a dot. -/
def hidden (path : List Char) : Bool := (splitText ['/'] path).any fun name => name.head? == some '.'

/-- `os.path.split` takes the slashes behind the directory away, except for the root. -/
def globRoot (path : List Char) : List Char :=
  let head := path ++ ['/']
  if head.all fun c => c == '/' then head else (head.reverse.dropWhile fun c => c == '/').reverse

/-- `os.path.join`. -/
def joined (root name : List Char) : List Char :=
  if root.getLast? = some '/' then root ++ name else root ++ '/' :: name

/-- What `**/*.py` matches below the workspace, for the suffix. -/
def matching (suffix : List Char) (w : Workspace) : List SourceFile :=
  w.files.filter fun f => suffix.isSuffixOf f.path && !hidden f.path

def Call.fpath (c : Call) (f : SourceFile) : List Char := joined (globRoot c.path) f.path

/-- `glob.glob`, for both patterns. -/
def Call.files (c : Call) : List (List Char × Option (List Char)) :=
  if hasMagic c.path then c.elsewhere
  else (matching ".py".toList c.workspace ++ matching ".ts".toList c.workspace).map fun f => (c.fpath f, f.text)

/-! ## The collection -/

structure Record where
  document : List Char
  session : List Char
  file : List Char
deriving DecidableEq

structure Graph where
  enabled : Bool
  collection : List (List Char × Record)

/-- The collection is empty at first. -/
def opened : Graph := ⟨true, []⟩

/-- `[content[i:i+500] for i in range(0, len(content), 500)]`. -/
def chunks (content : List Char) : List (List Char) :=
  (List.range ((content.length + 499) / 500)).map fun k => (content.drop (500 * k)).take 500

def chunkId (session fpath : List Char) (idx : ℕ) : List Char := session ++ '_' :: (fpath ++ '_' :: Nat.toDigits 10 idx)

/-- The chunks of a file, each with its id; a file that cannot be read has none. -/
def fileDocs (session : List Char) : List Char × Option (List Char) → List (List Char × Record)
  | (_, none) => []
  | (fpath, some content) => (chunks content).zipIdx.map fun (chunk, idx) => (chunkId session fpath idx, ⟨chunk, session, fpath⟩)

def Call.docs (c : Call) : List (List Char × Record) := c.files.flatMap (fileDocs c.session)

def indexWorkspace (c : Call) (g : Graph) : Graph :=
  if !g.enabled then g
  else if c.docs.isEmpty then g
  else { g with collection := writeAll c.docs g.collection }

/-- `query`: it takes the nearest of the entries that it is given. -/
structure Search where
  nearest : List Char → ℕ → List Record → List Record
  mem : ∀ {query n records r}, r ∈ nearest query n records → r ∈ records

/-- The records of a session. -/
def Graph.ofSession (g : Graph) (session : List Char) : List (List Char × Record) :=
  g.collection.filter fun e => decide (e.2.session = session)

/-- The file and the content of what the query finds. -/
def retrieveContext (search : Search) (session query : List Char) (n : ℕ) (g : Graph) : List (List Char × List Char) :=
  if !g.enabled then []
  else (search.nearest query n ((g.ofSession session).map Prod.snd)).map fun r => (r.file, r.document)

def step (g : Graph) (c : Call) : Option Graph := some (indexWorkspace c g)

/-! ## What is indexed -/

def isSource (f : SourceFile) : Bool := ".py".toList.isSuffixOf f.path || ".ts".toList.isSuffixOf f.path

/-- The chunks of the readable sources in the workspace, with their files. -/
def Call.current (c : Call) : List (List Char × List Char) :=
  (c.workspace.files.filter isSource).flatMap fun f =>
    match f.text with
    | none => []
    | some content => (chunks content).map fun chunk => (c.fpath f, chunk)

/-- After a call the session has the chunks of the workspace, the other sessions have what they had, and nothing else is
retrieved. -/
structure Indexed (before : Graph) (c : Call) (after : Graph) : Prop where
  exact : ((after.ofSession c.session).map fun e => (e.2.file, e.2.document)).Perm c.current
  others : ∀ session, session ≠ c.session → (after.ofSession session).Perm (before.ofSession session)
  retrieved : ∀ search query n, ∀ r ∈ retrieveContext search c.session query n after, r ∈ c.current

/-- The patterns mean the workspace, and no readable source is hidden from them. -/
def Call.Visible (c : Call) : Prop :=
  hasMagic c.path = false ∧
    ∀ f ∈ c.workspace.files, isSource f = true → f.text ≠ none → hidden f.path = false

/-- The ids of the session in the collection are ids of the call, and no id of the call is another session's. -/
def Covered (g : Graph) (c : Call) : Prop :=
  (∀ e ∈ g.collection, e.2.session = c.session → e.1 ∈ c.docs.map Prod.fst) ∧
    ∀ e ∈ g.collection, e.1 ∈ c.docs.map Prod.fst → e.2.session = c.session

instance (g : Graph) (c : Call) : Decidable (Covered g c) := inferInstanceAs (Decidable (_ ∧ _))

/-! ## Chunk ids -/

theorem joined_injective (root : List Char) : Function.Injective (joined root) := by
  intro p q h
  unfold joined at h
  split_ifs at h
  · exact List.append_cancel_left h
  · exact (List.cons.inj (List.append_cancel_left h)).2

theorem toDigits_injective : Function.Injective (Nat.toDigits 10) := by
  intro m n h
  rw [← Encoder.natOf_toDigits m, ← Encoder.natOf_toDigits n, h]

theorem not_mem_toDigits (n : ℕ) : '_' ∉ Nat.toDigits 10 n := by
  intro h
  exact absurd (Nat.isDigit_of_mem_toDigits (by decide) (Nat.le_refl 10) h) (by decide)

/-- The number stands behind the last underscore. -/
theorem chunkId_inj {session fpath fpath' : List Char} {idx idx' : ℕ}
    (h : chunkId session fpath idx = chunkId session fpath' idx') : fpath = fpath' ∧ idx = idx' := by
  unfold chunkId at h
  have hrest := (List.cons.inj (List.append_cancel_left h)).2
  obtain ⟨s, hs, hback⟩ | ⟨s, hs, hback⟩ := List.append_eq_append_iff.mp hrest
  · cases s with
    | nil => exact ⟨by rw [hs, List.append_nil], toDigits_injective (List.cons.inj hback).2⟩
    | cons x s =>
      refine absurd ?_ (not_mem_toDigits idx)
      rw [(List.cons.inj hback).2]
      exact List.mem_append_right _ List.mem_cons_self
  · cases s with
    | nil => exact ⟨by rw [hs, List.append_nil], (toDigits_injective (List.cons.inj hback).2).symm⟩
    | cons x s =>
      refine absurd ?_ (not_mem_toDigits idx')
      rw [(List.cons.inj hback).2]
      exact List.mem_append_right _ List.mem_cons_self

theorem docs_session {c : Call} {e : List Char × Record} (he : e ∈ c.docs) : e.2.session = c.session := by
  obtain ⟨f, -, hmem⟩ := List.mem_flatMap.mp he
  obtain ⟨fpath, text⟩ := f
  cases text with
  | none => cases hmem
  | some content =>
    obtain ⟨chunk, -, rfl⟩ := List.mem_map.mp hmem
    rfl

/-- The ids of a file are its path with the numbers of its chunks. -/
theorem fileDocs_ids (session fpath content : List Char) :
    (fileDocs session (fpath, some content)).map Prod.fst =
      (List.range (chunks content).length).map fun idx => chunkId session fpath idx := by
  rw [List.range_eq_range', ← List.zipIdx_map_snd 0 (chunks content), List.map_map, fileDocs, List.map_map]
  rfl

theorem mem_fileDocs_ids {session : List Char} {f : List Char × Option (List Char)} {id : List Char}
    (h : id ∈ (fileDocs session f).map Prod.fst) : ∃ idx, id = chunkId session f.1 idx := by
  obtain ⟨fpath, text⟩ := f
  cases text with
  | none => cases h
  | some content =>
    rw [fileDocs_ids] at h
    obtain ⟨idx, -, rfl⟩ := List.mem_map.mp h
    exact ⟨idx, rfl⟩

theorem nodup_docs {session : List Char} {files : List (List Char × Option (List Char))} (h : (files.map Prod.fst).Nodup) :
    ((files.flatMap (fileDocs session)).map Prod.fst).Nodup := by
  induction files with
  | nil => exact List.nodup_nil
  | cons f files ih =>
    obtain ⟨hfresh, hfiles⟩ := List.nodup_cons.mp h
    rw [List.flatMap_cons, List.map_append, List.nodup_append]
    refine ⟨?_, ih hfiles, fun id hid id' hid' heq => ?_⟩
    · obtain ⟨fpath, text⟩ := f
      cases text with
      | none => exact List.nodup_nil
      | some content =>
        rw [fileDocs_ids]
        exact List.nodup_range.map fun i j hij => (chunkId_inj hij).2
    · obtain ⟨idx, rfl⟩ := mem_fileDocs_ids hid
      rw [List.map_flatMap] at hid'
      obtain ⟨g, hg, hmem⟩ := List.mem_flatMap.mp hid'
      obtain ⟨idx', rfl⟩ := mem_fileDocs_ids hmem
      exact hfresh ((chunkId_inj heq).1 ▸ List.mem_map_of_mem hg)

/-! ## What the patterns match -/

/-- No text ends in both suffixes. -/
theorem not_both_suffixes {path : List Char} (hpy : ".py".toList.isSuffixOf path = true) :
    ".ts".toList.isSuffixOf path = false := by
  rw [Bool.eq_false_iff]
  intro hts
  rw [List.isSuffixOf_iff_suffix] at hpy hts
  rcases List.suffix_or_suffix_of_suffix hpy hts with h | h
  · exact absurd (h.eq_of_length (by decide)) (by decide)
  · exact absurd (h.eq_of_length (by decide)) (by decide)

theorem filter_append_perm_of_disjoint {α : Type*} {p q : α → Bool} (xs : List α) (h : ∀ x ∈ xs, p x = true → q x = false) :
    (xs.filter p ++ xs.filter q).Perm (xs.filter fun x => p x || q x) := by
  induction xs with
  | nil => exact List.Perm.refl _
  | cons x xs ih =>
    obtain ⟨hx, hxs⟩ := List.forall_mem_cons.mp h
    have hrest := ih hxs
    cases hp : p x with
    | true =>
      simp only [List.filter_cons, hp, hx hp, Bool.true_or, if_true, List.cons_append]
      exact hrest.cons x
    | false =>
      cases hq : q x with
      | true =>
        simp only [List.filter_cons, hp, hq, Bool.false_or, if_true]
        exact List.perm_middle.trans (hrest.cons x)
      | false =>
        simp only [List.filter_cons, hp, hq, Bool.or_false, Bool.false_eq_true, if_false]
        exact hrest

theorem matched_perm (w : Workspace) : (matching ".py".toList w ++ matching ".ts".toList w).Perm
    (w.files.filter fun f => isSource f && !hidden f.path) := by
  refine (filter_append_perm_of_disjoint w.files fun f _ hf => ?_).trans (List.Perm.of_eq (List.filter_congr fun f _ => ?_))
  · rw [Bool.and_eq_true] at hf
    rw [not_both_suffixes hf.1, Bool.false_and]
  · unfold isSource
    exact (Bool.and_or_distrib_right _ _ _).symm

theorem nodup_files {c : Call} (h : hasMagic c.path = false) : (c.files.map Prod.fst).Nodup := by
  have hpaths : (((matching ".py".toList c.workspace ++ matching ".ts".toList c.workspace).map SourceFile.path)).Nodup :=
    ((matched_perm c.workspace).map SourceFile.path).nodup_iff.mpr
      (c.workspace.nodup.sublist (List.filter_sublist.map SourceFile.path))
  have hfiles : c.files.map Prod.fst =
      ((matching ".py".toList c.workspace ++ matching ".ts".toList c.workspace).map SourceFile.path).map
        (joined (globRoot c.path)) := by
    unfold Call.files
    rw [if_neg (by simp [h]), List.map_map, List.map_map]
    rfl
  rw [hfiles]
  exact hpaths.map (joined_injective _)

/-- The chunks of a file. -/
def fileChunks (c : Call) (f : SourceFile) : List (List Char × List Char) :=
  match f.text with
  | none => []
  | some content => (chunks content).map fun chunk => (c.fpath f, chunk)

theorem current_eq (c : Call) : c.current = (c.workspace.files.filter isSource).flatMap (fileChunks c) := rfl

theorem fileDocs_chunks (c : Call) (f : SourceFile) :
    (fileDocs c.session (c.fpath f, f.text)).map (fun e => (e.2.file, e.2.document)) = fileChunks c f := by
  obtain ⟨path, text⟩ := f
  cases text with
  | none => rfl
  | some content =>
    have hchunks : ((chunks content).zipIdx.map Prod.fst).map (fun chunk => (c.fpath ⟨path, some content⟩, chunk)) =
        (chunks content).map fun chunk => (c.fpath ⟨path, some content⟩, chunk) := by
      rw [List.zipIdx_map_fst]
    refine Eq.trans ?_ hchunks
    unfold fileDocs
    simp only [List.map_map]
    rfl

theorem flatMap_filter_and {α β : Type*} {p q : α → Bool} {f : α → List β} (xs : List α)
    (h : ∀ x ∈ xs, p x = true → q x = false → f x = []) :
    (xs.filter fun x => p x && q x).flatMap f = (xs.filter p).flatMap f := by
  induction xs with
  | nil => rfl
  | cons x xs ih =>
    obtain ⟨hx, hxs⟩ := List.forall_mem_cons.mp h
    cases hp : p x with
    | false => simpa [List.filter_cons, hp] using ih hxs
    | true =>
      cases hq : q x with
      | true => simpa [List.filter_cons, hp, hq] using ih hxs
      | false => simpa [List.filter_cons, hp, hq, hx hp hq] using ih hxs

/-- A call writes the chunks of the readable sources. -/
theorem docs_current {c : Call} (h : c.Visible) : (c.docs.map fun e => (e.2.file, e.2.document)).Perm c.current := by
  obtain ⟨hplain, hvisible⟩ := h
  have hdocs : c.docs.map (fun e => (e.2.file, e.2.document)) =
      (matching ".py".toList c.workspace ++ matching ".ts".toList c.workspace).flatMap (fileChunks c) := by
    unfold Call.docs Call.files
    rw [if_neg (by simp [hplain]), List.flatMap_map, List.map_flatMap]
    exact congrArg (List.flatMap · _) (funext fun f => fileDocs_chunks c f)
  have hall : (c.workspace.files.filter fun f => isSource f && !hidden f.path).flatMap (fileChunks c) =
      (c.workspace.files.filter isSource).flatMap (fileChunks c) := by
    refine flatMap_filter_and c.workspace.files fun f hf hsource hdot => ?_
    unfold fileChunks
    cases htext : f.text with
    | none => rfl
    | some content =>
      have hseen := hvisible f hf hsource (by simp [htext])
      rw [hseen] at hdot
      cases hdot
  rw [hdocs, current_eq, ← hall]
  exact (matched_perm c.workspace).flatMap_right _

/-! ## Calls -/

/-- What every call keeps. -/
structure Sound (g : Graph) : Prop where
  enabled : g.enabled = true
  nodup : (g.collection.map Prod.fst).Nodup

theorem sound_opened : Sound opened := ⟨rfl, List.nodup_nil⟩

section Calls
variable {g g' : Graph} {c : Call}

theorem indexWorkspace_collection (hg : Sound g) (c : Call) :
    indexWorkspace c g = { g with collection := writeAll c.docs g.collection } := by
  unfold indexWorkspace
  cases hdocs : c.docs with
  | nil =>
    rw [List.isEmpty_nil, if_pos rfl]
    exact ite_self g
  | cons e docs => simp [hg.enabled]

theorem Sound.step (hg : Sound g) (hstep : step g c = some g') : Sound g' := by
  obtain rfl := Option.some.inj hstep
  rw [indexWorkspace_collection hg]
  exact ⟨hg.enabled, nodup_writeAll c.docs hg.nodup⟩

/-- The entries of a session after a call: those that were not replaced, and the new ones. -/
theorem ofSession_perm (hg : Sound g) (hplain : hasMagic c.path = false) (session : List Char) :
    ((indexWorkspace c g).ofSession session).Perm
      ((g.ofSession session).filter (fun e => decide (e.1 ∉ c.docs.map Prod.fst)) ++
        c.docs.filter fun e => decide (e.2.session = session)) := by
  have hids : (c.docs.map Prod.fst).Nodup := nodup_docs (nodup_files hplain)
  have hwrite := (writeAll_perm hg.nodup hids).filter fun e => decide (e.2.session = session)
  rw [indexWorkspace_collection hg]
  unfold Graph.ofSession
  rw [List.filter_append] at hwrite
  refine hwrite.trans (List.Perm.of_eq (congrArg (· ++ _) ?_))
  rw [List.filter_filter, List.filter_filter]
  refine List.filter_congr fun e _ => ?_
  rw [← Bool.decide_and, ← Bool.decide_and]
  exact decide_eq_decide.mpr and_comm

theorem docs_of_session (c : Call) : c.docs.filter (fun e => decide (e.2.session = c.session)) = c.docs :=
  List.filter_eq_self.mpr fun _ he => decide_eq_true (docs_session he)

theorem docs_of_other {session : List Char} (h : session ≠ c.session) :
    c.docs.filter (fun e => decide (e.2.session = session)) = [] :=
  List.filter_eq_nil_iff.mpr fun _ he => by simp [docs_session he, h.symm]

/-- What a visible call leaves behind is right exactly if it covers what is there. -/
theorem indexed_iff (hg : Sound g) (hvisible : c.Visible) : Indexed g c (indexWorkspace c g) ↔ Covered g c := by
  have hsession := ofSession_perm hg hvisible.1 c.session
  have hdocs := docs_current hvisible
  rw [docs_of_session] at hsession
  constructor
  · intro h
    refine ⟨fun e he hs => ?_, fun e he hid => ?_⟩
    · have hlength := ((hsession.map fun e => (e.2.file, e.2.document)).symm.trans h.exact).length_eq
      have hcurrent := hdocs.length_eq
      rw [List.map_append, List.length_append] at hlength
      have hnone : (g.ofSession c.session).filter (fun e => decide (e.1 ∉ c.docs.map Prod.fst)) = [] := by
        refine List.length_eq_zero_iff.mp ?_
        rw [List.length_map] at hlength
        omega
      have hmem : e ∈ g.ofSession c.session := List.mem_filter.mpr ⟨he, decide_eq_true hs⟩
      by_contra hid
      exact absurd (decide_eq_true hid) (List.filter_eq_nil_iff.mp hnone e hmem)
    · by_contra hs
      have hother := ofSession_perm hg hvisible.1 e.2.session
      rw [docs_of_other hs, List.append_nil] at hother
      have hmem : e ∈ g.ofSession e.2.session := List.mem_filter.mpr ⟨he, decide_eq_true rfl⟩
      have hkept := (hother.mem_iff).mp ((h.others e.2.session hs).mem_iff.mpr hmem)
      exact of_decide_eq_true (List.mem_filter.mp hkept).2 hid
  · rintro ⟨hcovered, hown⟩
    have hnone : (g.ofSession c.session).filter (fun e => decide (e.1 ∉ c.docs.map Prod.fst)) = [] := by
      refine List.filter_eq_nil_iff.mpr fun e he => ?_
      obtain ⟨hmem, hs⟩ := List.mem_filter.mp he
      simpa using hcovered e hmem (of_decide_eq_true hs)
    rw [hnone, List.nil_append] at hsession
    have hexact := (hsession.map fun e => (e.2.file, e.2.document)).trans hdocs
    refine ⟨hexact, fun session hs => ?_, fun search query n r hr => ?_⟩
    · have hother := ofSession_perm hg hvisible.1 session
      rw [docs_of_other hs, List.append_nil] at hother
      refine hother.trans (List.Perm.of_eq (List.filter_eq_self.mpr fun e he => decide_eq_true fun hid => ?_))
      obtain ⟨hmem, hes⟩ := List.mem_filter.mp he
      exact hs ((of_decide_eq_true hes).symm.trans (hown e hmem hid))
    · unfold retrieveContext at hr
      split_ifs at hr
      · cases hr
      · obtain ⟨record, hrecord, rfl⟩ := List.mem_map.mp hr
        obtain ⟨e, he, rfl⟩ := List.mem_map.mp (search.mem hrecord)
        exact hexact.mem_iff.mp (List.mem_map.mpr ⟨e, he, rfl⟩)

end Calls

/-- A law of the visible calls of a run that has no others. -/
theorem guarded_visible {calls : List Call} (hvisible : ∀ c ∈ calls, c.Visible) (g : Graph) :
    Guarded step (fun g c => c.Visible → Covered g c) g calls ↔ Guarded step Covered g calls := by
  induction calls generalizing g with
  | nil => exact Iff.rfl
  | cons c calls ih =>
    obtain ⟨hc, hcalls⟩ := List.forall_mem_cons.mp hvisible
    exact and_congr ⟨fun h => h hc, fun h _ => h⟩ (forall₂_congr fun g' _ => ih hcalls g')

/-- **Calls for workspaces without hidden sources keep the store right throughout exactly if every call covers what is
there: no chunk of the session is left over, and no id is another session's.** -/
theorem indexed_iff_covered (calls : List Call) (hvisible : ∀ c ∈ calls, c.Visible) :
    (∀ js c ks g g', calls = js ++ c :: ks → exec step opened js = some g → step g c = some g' → Indexed g c g') ↔
      Guarded step Covered opened calls := by
  have hkeep : ∀ g c g', Sound g → (c.Visible → Indexed g c g') → step g c = some g' → Sound g' :=
    fun _ _ _ hg _ hstep => hg.step hstep
  have hlaw : ∀ g c, Sound g →
      ((∀ g', step g c = some g' → c.Visible → Indexed g c g') ↔ (c.Visible → Covered g c)) := by
    intro g c hg
    constructor
    · exact fun h hc => (indexed_iff hg hc).mp (h _ rfl hc)
    · intro h g' hstep hc
      obtain rfl := Option.some.inj hstep
      exact (indexed_iff hg hc).mpr (h hc)
  have hruns := every_step_iff_guarded hkeep hlaw sound_opened calls
  rw [guarded_visible hvisible] at hruns
  rw [← hruns]
  constructor
  · exact fun h js c ks g g' hcalls hrun hstep _ => h js c ks g g' hcalls hrun hstep
  · intro h js c ks g g' hcalls hrun hstep
    refine h js c ks g g' hcalls hrun hstep (hvisible c ?_)
    rw [hcalls]
    exact List.mem_append_right _ List.mem_cons_self

/-! ## A file that is edited, and one that is removed -/

def fileCall (text : Option (List Char)) : Call where
  session := "s".toList
  path := "/w".toList
  workspace := ⟨match text with
    | some content => [⟨"a.py".toList, some content⟩]
    | none => [], by cases text <;> simp⟩
  elsewhere := []

theorem fileCall_visible (text : Option (List Char)) : (fileCall text).Visible := by
  have hplain : hasMagic "/w".toList = false := by decide +kernel
  have hshown : hidden "a.py".toList = false := by decide +kernel
  refine ⟨hplain, fun f hf _ _ => ?_⟩
  cases text with
  | none => cases hf
  | some content =>
    rw [List.mem_singleton.mp hf]
    exact hshown

/-- An edited file that keeps the number of its chunks. -/
theorem edited_file_indexed : Indexed (indexWorkspace (fileCall (some ['x'])) opened) (fileCall (some ['y']))
    (indexWorkspace (fileCall (some ['y'])) (indexWorkspace (fileCall (some ['x'])) opened)) := by
  refine (indexed_iff_covered [fileCall (some ['x']), fileCall (some ['y'])] ?_).mpr ?_ [fileCall (some ['x'])]
    (fileCall (some ['y'])) [] _ _ rfl rfl rfl
  · intro c hc
    obtain rfl | rfl : c = _ ∨ c = _ := by simpa using hc
    · exact fileCall_visible _
    · exact fileCall_visible _
  · decide +kernel

/-- The chunk of a file stays when the file is removed. -/
theorem removed_file_stays : ¬ ∀ (calls js : List Call) (c : Call) (ks : List Call) (g g' : Graph),
    calls = js ++ c :: ks → exec step opened js = some g → step g c = some g' → Indexed g c g' := by
  intro h
  have hlast := h _ [fileCall (some ['x'])] (fileCall none) [] _ _ rfl rfl rfl
  exact absurd hlast.exact.length_eq (by decide +kernel)

end KernelRuntime.SemanticCodeGraph
