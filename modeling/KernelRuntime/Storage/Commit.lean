import KernelRuntime.Storage.Overlay

/-! # Commits

A commit writes the changes of the index into the clone, lets git commit the directory, and resets the
index. What git finds to commit is a parameter: beside the contents that the model has, it may be the mode of a file
or a merge that ends. -/

namespace KernelRuntime.Gvfs
set_option autoImplicit false

/-! ## Applying the changes -/

structure ApplyReport where
  applied : ℕ
  errors : List String
deriving DecidableEq

/-- The body of the loop of `apply_to_workspace`: how many files were written, and the disk. -/
def applyFile (workspacePath : List String) (disk : FileTree) (vfile : VirtualFile) :
    Except PyError ℕ × FileTree :=
  let targetPath := diskPath workspacePath vfile.path
  if vfile.status = .deleted then
    if disk.pathExists targetPath then
      match disk.unlink targetPath with
      | .error e => (.error e, disk)
      | .ok disk' => (.ok 0, disk')
    else (.ok 0, disk)
  else
    match vfile.content with
    | none => (.ok 0, disk)
    | some content =>
      let stored := disk.store targetPath content
      (stored.1.map fun _ => 1, stored.2)

/-- The report after a file: an exception is caught and noted. -/
def ApplyReport.note (report : ApplyReport) (vfile : VirtualFile) : Except PyError ℕ → ApplyReport
  | .ok n => { report with applied := report.applied + n }
  | .error e => { report with errors := report.errors ++ [vfile.path ++ ": " ++ e.message] }

/-- The loop of `apply_to_workspace`. -/
def applyFiles (workspacePath : List String) (disk : FileTree) (report : ApplyReport) :
    List VirtualFile → ApplyReport × FileTree
  | [] => (report, disk)
  | vfile :: rest =>
    if vfile.hasChanges then
      let done := applyFile workspacePath disk vfile
      applyFiles workspacePath done.2 (report.note vfile done.1) rest
    else applyFiles workspacePath disk report rest

/-- `ChangesAPI.apply_to_workspace`. -/
def applyToWorkspace (s : State) (workspacePath : List String) : ApplyReport × FileTree :=
  applyFiles workspacePath s.disk ⟨0, []⟩ s.mount.files.values

/-! ## Committing -/

/-- What git commits: the files of the directory, less its own. -/
def workTree (disk : FileTree) (localPath : List String) : View := fun path =>
  if RelativePath path ∧ (pathNames path).head? ≠ some ".git" then
    disk.contentAt (diskPath localPath path)
  else none

structure Git where
  /-- `git add -A` and the command given, from the tree of HEAD and the directory: the output of
  `git rev-parse HEAD` afterwards, or what the command printed to stderr. -/
  commit : View → View → List String → Except String String

def commitCommand (message : String) (author : Option String) : List String :=
  ["git", "commit", "-m", message] ++
    match author with
    | some name => if name ≠ "" then ["--author", name] else []
    | none => []

inductive CommitResult where
  | success (commitSha : String) (filesChanged : ℕ)
  | failure (error : String)
deriving DecidableEq

/-- The entry of a file after a commit. -/
def committedFile (vfile : VirtualFile) : VirtualFile :=
  if vfile.hasChanges then
    { vfile with status := .unchanged, headSha := some vfile.sha, headContent := vfile.content }
  else vfile

def committedMount (mount : SessionMount) (output : String) : SessionMount :=
  { mount with commitSha := some (String.ofList (strip output.toList)),
               files := mount.files.map committedFile }

/-- `GitOperationsAPI.commit_changes`: the result, the tree of HEAD and the mount afterwards. -/
def commitChanges (lib : Library) (git : Git) (storagePath : List String) (head : View) (s : State)
    (message : String) (author : Option String) : Except PyError CommitResult × View × State :=
  let disk := (applyToWorkspace s s.mount.localPath).2
  let tree := workTree disk s.mount.localPath
  match git.commit head tree (commitCommand message author) with
  | .error stderr => (.ok (.failure stderr), head, ⟨s.mount, disk⟩)
  | .ok output =>
    let mount := committedMount s.mount output
    let saved := saveMountState lib storagePath ⟨mount, disk⟩
    (saved.1.map fun _ => .success (String.ofList (strip output.toList))
      (mount.files.values.filter VirtualFile.hasChanges).length, tree, saved.2)

/-! ## What a commit should do -/

/-- The content that reading an entry shows. -/
def shownContent (storagePath : List String) (s : State) (vfile : VirtualFile) : Option Bytes :=
  match vfile.content with
  | some content => some content
  | none => (loadContent storagePath s vfile).toOption.bind VirtualFile.content

/-- HEAD with the changes of the index over it. -/
def overlayView (storagePath : List String) (s : State) (head : View) : View := fun path =>
  match s.mount.files.get? path with
  | none => head path
  | some vfile =>
    if vfile.hasChanges then
      if vfile.status = .deleted then none else shownContent storagePath s vfile
    else head path

structure CommitRight (storagePath : List String) (head : View) (before : State) (head' : View)
    (after : State) (filesChanged : ℕ) : Prop where
  tree : ∀ path, RelativePath path → head' path = overlayView storagePath before head path
  listing : ∀ path, path ∈ (listDirectory after ".").map VirtualFile.path ↔ head' path ≠ none
  noChanges : (getChanges after.mount).modified = [] ∧ (getChanges after.mount).added = [] ∧
    (getChanges after.mount).deleted = []
  count : filesChanged = (before.mount.files.values.filter VirtualFile.hasChanges).length

/-! ## What is applied -/

section Apply
variable {root : List String} {disk : FileTree} {report : ApplyReport}

theorem applyFile_contentAt_ne (vfile : VirtualFile) {q : List String} (hne : q ≠ diskPath root vfile.path) :
    (applyFile root disk vfile).2.contentAt q = disk.contentAt q := by
  unfold applyFile
  simp only
  split_ifs with hdeleted hthere
  · cases hunlink : disk.unlink (diskPath root vfile.path) with
    | error e => rfl
    | ok disk' =>
      show disk'.contentAt q = _
      rw [FileTree.contentAt_unlink hunlink, if_neg hne]
  · rfl
  · cases vfile.content with
    | none => rfl
    | some content => exact FileTree.contentAt_store_ne disk content hne

/-- What a file of the clone becomes when its change is applied without an error: an entry whose
content is not loaded changes nothing. -/
theorem applyFile_contentAt_self {vfile : VirtualFile} {n : ℕ}
    (h : (applyFile root disk vfile).1 = .ok n) :
    (applyFile root disk vfile).2.contentAt (diskPath root vfile.path) =
      if vfile.status = .deleted then none
      else vfile.content.or (disk.contentAt (diskPath root vfile.path)) := by
  unfold applyFile at h ⊢
  simp only at h ⊢
  split_ifs at h ⊢ with hdeleted hthere
  · cases hunlink : disk.unlink (diskPath root vfile.path) with
    | error e =>
      rw [hunlink] at h
      cases h
    | ok disk' =>
      show disk'.contentAt _ = none
      rw [FileTree.contentAt_unlink hunlink, if_pos rfl]
  · have hnone : disk (diskPath root vfile.path) = none := by
      by_contra hsome
      exact hthere ((FileTree.pathExists_iff _ _).mpr hsome)
    show disk.contentAt _ = none
    unfold FileTree.contentAt
    rw [hnone]
  · cases hcontent : vfile.content with
    | none => rfl
    | some content =>
      rw [hcontent] at h
      obtain ⟨u, hstored, -⟩ := map_eq_ok_iff.mp h
      exact FileTree.contentAt_store_self (Prod.ext hstored rfl)

/-- A file that no change goes to stays. -/
theorem applyFiles_contentAt_ne (files : List VirtualFile) {q : List String}
    (hne : ∀ vfile ∈ files, vfile.hasChanges = true → q ≠ diskPath root vfile.path) :
    (applyFiles root disk report files).2.contentAt q = disk.contentAt q := by
  induction files generalizing disk report with
  | nil => rfl
  | cons vfile rest ih =>
    have hrest := fun f hf => hne f (List.mem_cons_of_mem _ hf)
    unfold applyFiles
    simp only
    split_ifs with hchanges
    · exact (ih hrest).trans (applyFile_contentAt_ne vfile (hne vfile List.mem_cons_self hchanges))
    · exact ih hrest

theorem applyFiles_unchanged {files : List VirtualFile} (h : ∀ vfile ∈ files, vfile.hasChanges = false) :
    applyFiles root disk report files = (report, disk) := by
  induction files with
  | nil => rfl
  | cons vfile rest ih =>
    unfold applyFiles
    rw [h vfile List.mem_cons_self, if_neg Bool.false_ne_true]
    exact ih fun f hf => h f (List.mem_cons_of_mem _ hf)

theorem note_errors (report : ApplyReport) (vfile : VirtualFile) (result : Except PyError ℕ) :
    report.errors <+: (report.note vfile result).errors := by
  cases result with
  | error e => exact List.prefix_append _ _
  | ok n => exact List.prefix_rfl

theorem eq_ok_of_note_errors {vfile : VirtualFile} {result : Except PyError ℕ}
    (h : (report.note vfile result).errors = []) : ∃ n, result = .ok n := by
  cases result with
  | error e => exact absurd h (List.append_ne_nil_of_right_ne_nil _ (List.cons_ne_nil _ _))
  | ok n => exact ⟨n, rfl⟩

theorem applyFiles_errors (root : List String) (files : List VirtualFile) (disk : FileTree) (report : ApplyReport) :
    report.errors <+: (applyFiles root disk report files).1.errors := by
  induction files generalizing disk report with
  | nil => exact List.prefix_rfl
  | cons vfile rest ih =>
    unfold applyFiles
    simp only
    split_ifs with hchanges
    · exact (note_errors report vfile _).trans (ih _ _)
    · exact ih _ _

/-- **When no error is noted, each change is in the clone.** -/
theorem applyFiles_contentAt_mem {files : List VirtualFile}
    (hnodup : files.Pairwise fun f g => f.hasChanges = true → g.hasChanges = true →
      diskPath root f.path ≠ diskPath root g.path)
    (herrors : (applyFiles root disk report files).1.errors = []) {vfile : VirtualFile}
    (hmem : vfile ∈ files) (hchanges : vfile.hasChanges = true) :
    (applyFiles root disk report files).2.contentAt (diskPath root vfile.path) =
      if vfile.status = .deleted then none
      else vfile.content.or (disk.contentAt (diskPath root vfile.path)) := by
  induction files generalizing disk report with
  | nil => cases hmem
  | cons first rest ih =>
    obtain ⟨hfirst, hrest⟩ := List.pairwise_cons.mp hnodup
    unfold applyFiles at herrors ⊢
    simp only at herrors ⊢
    rcases List.mem_cons.mp hmem with rfl | hmem
    · rw [if_pos hchanges] at herrors ⊢
      have hnoted := applyFiles_errors root rest (applyFile root disk vfile).2
        (report.note vfile (applyFile root disk vfile).1)
      rw [herrors, List.prefix_nil] at hnoted
      obtain ⟨n, hdone⟩ := eq_ok_of_note_errors hnoted
      rw [applyFiles_contentAt_ne rest fun f hf => hfirst f hf hchanges]
      exact applyFile_contentAt_self hdone
    · by_cases hother : first.hasChanges = true
      · rw [if_pos hother] at herrors ⊢
        rw [ih hrest herrors hmem, applyFile_contentAt_ne first (hfirst vfile hmem hother hchanges).symm]
      · rw [if_neg hother] at herrors ⊢
        exact ih hrest herrors hmem

end Apply

/-! ## The index after a commit -/

theorem committedFile_hasChanges (vfile : VirtualFile) : (committedFile vfile).hasChanges = false := by
  unfold committedFile
  split_ifs with hchanges
  · rfl
  · exact Bool.eq_false_iff.mpr hchanges

theorem committedMount_unchanged (mount : SessionMount) (output : String) :
    (committedMount mount output).files.values.filter VirtualFile.hasChanges = [] := by
  unfold committedMount
  simp only [OrderedDict.values_map, List.filter_eq_nil_iff, List.mem_map]
  rintro _ ⟨vfile, -, rfl⟩
  rw [committedFile_hasChanges]
  exact Bool.false_ne_true

section Commit
variable {lib : Library} {git : Git} {storagePath : List String} {head head' : View} {s s' : State}
  {message : String} {author : Option String} {commitSha : String} {filesChanged : ℕ}

/-- What a commit that succeeds has done. -/
theorem commitChanges_success (h : commitChanges lib git storagePath head s message author =
    (.ok (.success commitSha filesChanged), head', s')) :
    ∃ output, git.commit head head' (commitCommand message author) = .ok output ∧
      head' = workTree (applyToWorkspace s s.mount.localPath).2 s.mount.localPath ∧
      s'.mount = committedMount s.mount output ∧ filesChanged = 0 := by
  unfold commitChanges at h
  simp only at h
  cases hgit : git.commit head (workTree (applyToWorkspace s s.mount.localPath).2 s.mount.localPath)
      (commitCommand message author) with
  | error stderr =>
    rw [hgit] at h
    cases h
  | ok output =>
    rw [hgit] at h
    simp only [Prod.mk.injEq] at h
    obtain ⟨hresult, rfl, rfl⟩ := h
    obtain ⟨u, -, hresult⟩ := map_eq_ok_iff.mp hresult
    rw [committedMount_unchanged] at hresult
    cases hresult
    exact ⟨output, hgit, rfl, rfl, rfl⟩

/-- An index without changes shows HEAD. -/
theorem overlayView_of_unchanged (h : s.mount.files.values.filter VirtualFile.hasChanges = [])
    (path : String) : overlayView storagePath s head path = head path := by
  unfold overlayView
  cases hget : s.mount.files.get? path with
  | none => rfl
  | some vfile =>
    have hmem : vfile ∈ s.mount.files.values := (OrderedDict.mem_values_iff _ _).mpr ⟨path, hget⟩
    have hunchanged : ¬ vfile.hasChanges = true := List.filter_eq_nil_iff.mp h vfile hmem
    simp only
    rw [if_neg hunchanged]

/-- **The tree is right for a clone that agrees with HEAD, when the contents of the changes are loaded
and applied without an error.** -/
theorem commit_tree (h : commitChanges lib git storagePath head s message author =
      (.ok (.success commitSha filesChanged), head', s'))
    (hkey : ∀ path vfile, s.mount.files.get? path = some vfile → vfile.path = path)
    (hclean : ∀ path, RelativePath path → workTree s.disk s.mount.localPath path = head path)
    (hpaths : ∀ vfile ∈ s.mount.files.values, vfile.hasChanges = true →
      RelativePath vfile.path ∧ (pathNames vfile.path).head? ≠ some ".git")
    (hloaded : ∀ vfile ∈ s.mount.files.values, vfile.status ≠ .deleted → vfile.hasChanges = true →
      vfile.content ≠ none)
    (happlied : (applyToWorkspace s s.mount.localPath).1.errors = []) {path : String}
    (hpath : RelativePath path) : head' path = overlayView storagePath s head path := by
  obtain ⟨output, -, rfl, -, -⟩ := commitChanges_success h
  have hvalue : ∀ {q vfile}, s.mount.files.get? q = some vfile → vfile ∈ s.mount.files.values :=
    fun hget => (OrderedDict.mem_values_iff _ _).mpr ⟨_, hget⟩
  have hnodup : s.mount.files.values.Pairwise fun f g => f.hasChanges = true → g.hasChanges = true →
      diskPath s.mount.localPath f.path ≠ diskPath s.mount.localPath g.path := by
    refine OrderedDict.pairwise_values _ fun k f j g hf hg hne hfchanges hgchanges heq => hne ?_
    have hsame := diskPath_injective _ (hpaths f (hvalue hf) hfchanges).1
      (hpaths g (hvalue hg) hgchanges).1 heq
    rw [← hkey k f hf, ← hkey j g hg, hsame]
  have hother : (∀ vfile, s.mount.files.get? path = some vfile → ¬ vfile.hasChanges = true) →
      workTree (applyToWorkspace s s.mount.localPath).2 s.mount.localPath path = head path := by
    intro hunchanged
    have hsame : (applyToWorkspace s s.mount.localPath).2.contentAt (diskPath s.mount.localPath path) =
        s.disk.contentAt (diskPath s.mount.localPath path) := by
      refine applyFiles_contentAt_ne _ fun vfile hmem hchanges heq => ?_
      obtain ⟨k, hget⟩ := (OrderedDict.mem_values_iff _ _).mp hmem
      have hk : path = k :=
        (diskPath_injective _ hpath (hpaths vfile hmem hchanges).1 heq).trans (hkey k vfile hget)
      exact hunchanged vfile (hk ▸ hget) hchanges
    rw [← hclean path hpath]
    unfold workTree
    rw [hsame]
  unfold overlayView
  cases hget : s.mount.files.get? path with
  | none => exact hother fun vfile hsome => by rw [hget] at hsome; cases hsome
  | some vfile =>
    simp only
    split_ifs with hchanges hdeleted
    · have happly := applyFiles_contentAt_mem hnodup happlied (hvalue hget) hchanges
      rw [hkey path vfile hget, if_pos hdeleted] at happly
      unfold workTree
      split_ifs
      · exact happly
      · rfl
    · have happly := applyFiles_contentAt_mem hnodup happlied (hvalue hget) hchanges
      obtain ⟨content, hcontent⟩ := Option.ne_none_iff_exists'.mp
        (hloaded vfile (hvalue hget) hdeleted hchanges)
      rw [hkey path vfile hget, if_neg hdeleted, hcontent, Option.some_or] at happly
      have hgit := (hpaths vfile (hvalue hget) hchanges).2
      rw [hkey path vfile hget] at hgit
      unfold workTree shownContent
      rw [if_pos ⟨hpath, hgit⟩, hcontent]
      exact happly
    · refine hother fun e he => ?_
      cases hget.symm.trans he
      exact hchanges

/-- What is listed after a commit: every entry of the index, the deleted ones too. -/
theorem mem_listing_after_commit (h : commitChanges lib git storagePath head s message author =
      (.ok (.success commitSha filesChanged), head', s')) (path : String) :
    path ∈ (listDirectory s' ".").map VirtualFile.path ↔ path ∈ s.mount.files.values.map VirtualFile.path := by
  obtain ⟨output, -, -, hmount, -⟩ := commitChanges_success h
  have hroot : normalizePath "." = "." := by decide +kernel
  have hpathOf : ∀ vfile, (committedFile vfile).path = vfile.path := by
    intro vfile
    unfold committedFile
    split_ifs <;> rfl
  have hstatus : ∀ vfile, (committedFile vfile).status ≠ .deleted := by
    intro vfile hdeleted
    have hchanges := committedFile_hasChanges vfile
    unfold VirtualFile.hasChanges at hchanges
    rw [hdeleted] at hchanges
    cases hchanges
  unfold listDirectory
  simp only [hroot, hmount, committedMount, OrderedDict.values_map]
  simp [hstatus, hpathOf]

/-- Nothing was changed through the mount, and the index and the clone have what HEAD has. -/
structure Untouched (head : View) (s : State) : Prop where
  unchanged : ∀ vfile ∈ s.mount.files.values, vfile.hasChanges = false
  tree : ∀ path, RelativePath path → workTree s.disk s.mount.localPath path = head path
  index : ∀ path, path ∈ s.mount.files.values.map VirtualFile.path ↔ RelativePath path ∧ head path ≠ none

theorem workTree_relative {disk : FileTree} {localPath : List String} {path : String}
    (h : workTree disk localPath path ≠ none) : RelativePath path := by
  unfold workTree at h
  split_ifs at h with hpath
  · exact hpath.1
  · exact absurd rfl h

theorem getChanges_committed (mount : SessionMount) (output : String) :
    (getChanges (committedMount mount output)).modified = [] ∧
      (getChanges (committedMount mount output)).added = [] ∧
      (getChanges (committedMount mount output)).deleted = [] := by
  have hnone : ∀ status ∈ [FileStatus.modified, .added, .deleted],
      (committedMount mount output).files.values.filter (fun f => decide (f.status = status)) = [] := by
    intro status hstatus
    refine List.filter_eq_nil_iff.mpr fun vfile hmem hequal => ?_
    refine List.filter_eq_nil_iff.mp (committedMount_unchanged mount output) vfile hmem ?_
    unfold VirtualFile.hasChanges
    rw [of_decide_eq_true hequal]
    exact decide_eq_true hstatus
  exact ⟨hnone _ (by simp), hnone _ (by simp), hnone _ (by simp)⟩

/-- **A commit that succeeds is right exactly when there was no change to commit.** With changes it counts none of
them; without changes the directory is committed as it is. -/
theorem commit_right_iff (h : commitChanges lib git storagePath head s message author =
    (.ok (.success commitSha filesChanged), head', s')) :
    CommitRight storagePath head s head' s' filesChanged ↔ Untouched head s := by
  obtain ⟨output, -, htree, hmount, hcount⟩ := commitChanges_success h
  have hkept : (∀ vfile ∈ s.mount.files.values, vfile.hasChanges = false) →
      head' = workTree s.disk s.mount.localPath := by
    intro hnone
    rw [htree]
    unfold applyToWorkspace
    rw [applyFiles_unchanged hnone]
  constructor
  · intro hright
    have hnone : s.mount.files.values.filter VirtualFile.hasChanges = [] :=
      List.length_eq_zero_iff.mp (hright.count.symm.trans hcount)
    have hunchanged : ∀ vfile ∈ s.mount.files.values, vfile.hasChanges = false :=
      fun vfile hmem => Bool.eq_false_iff.mpr (List.filter_eq_nil_iff.mp hnone vfile hmem)
    have hsame : ∀ path, RelativePath path → workTree s.disk s.mount.localPath path = head path := by
      intro path hpath
      rw [← hkept hunchanged, hright.tree path hpath, overlayView_of_unchanged hnone]
    refine ⟨hunchanged, hsame, fun path => ?_⟩
    rw [← mem_listing_after_commit h, hright.listing, hkept hunchanged]
    constructor
    · intro hthere
      have hpath := workTree_relative hthere
      exact ⟨hpath, hsame path hpath ▸ hthere⟩
    · rintro ⟨hpath, hthere⟩
      exact (hsame path hpath).symm ▸ hthere
  · intro huntouched
    have hnone : s.mount.files.values.filter VirtualFile.hasChanges = [] :=
      List.filter_eq_nil_iff.mpr fun vfile hmem => Bool.eq_false_iff.mp (huntouched.unchanged vfile hmem)
    refine ⟨fun path hpath => ?_, fun path => ?_, hmount ▸ getChanges_committed _ _, by rw [hcount, hnone]; rfl⟩
    · rw [hkept huntouched.unchanged, huntouched.tree path hpath, overlayView_of_unchanged hnone]
    · rw [mem_listing_after_commit h, huntouched.index, hkept huntouched.unchanged]
      constructor
      · rintro ⟨hpath, hthere⟩
        exact (huntouched.tree path hpath).symm ▸ hthere
      · intro hthere
        have hpath := workTree_relative hthere
        exact ⟨hpath, huntouched.tree path hpath ▸ hthere⟩

end Commit

/-! ## A commit of one change -/

/-- Git, where only the contents of two files matter. -/
def noteGit : Git where
  commit head tree _ :=
    if tree "note.txt" = head "note.txt" ∧ tree "todo.txt" = head "todo.txt" then
      .error "On branch main\nnothing to commit, working tree clean\n"
    else .ok "7d865e959b2466918c9863afca942d0fb89d7c9a\n"

/-- Git, where the mode of a file has changed. -/
def modeGit : Git where
  commit _ _ _ := .ok "7d865e959b2466918c9863afca942d0fb89d7c9a\n"

/-- The note is rewritten. -/
def rewrittenNote : State := step noteLibrary noteStorage noteMount (.write "note.txt" byeBytes 0)

theorem rewrittenNote_commits : commitChanges noteLibrary noteGit noteStorage noteHead rewrittenNote "Update" none =
    (.ok (.success "7d865e959b2466918c9863afca942d0fb89d7c9a" 0),
      (commitChanges noteLibrary noteGit noteStorage noteHead rewrittenNote "Update" none).2) :=
  Prod.ext (by decide +kernel) rfl

theorem note_untouched : Untouched noteHead noteMount where
  unchanged := by decide +kernel
  tree path hpath := by
    by_cases hnote : path = "note.txt"
    · subst hnote
      decide +kernel
    · have hne : diskPath ["srv", "repo"] path ≠ ["srv", "repo", "note.txt"] := fun heq =>
        hnote (diskPath_injective ["srv", "repo"] hpath relativePath_note (heq.trans (by decide +kernel)))
      have hnone : noteDisk.contentAt (diskPath ["srv", "repo"] path) = none := by
        unfold FileTree.contentAt noteDisk
        rw [if_neg hne]
        split_ifs <;> rfl
      show (if _ then noteDisk.contentAt (diskPath ["srv", "repo"] path) else none) = noteHead path
      rw [hnone, ite_self, noteHead, if_neg hnote]
  index path := by
    have hlisted : noteMount.mount.files.values.map VirtualFile.path = ["note.txt"] := by decide +kernel
    rw [hlisted, List.mem_singleton]
    unfold noteHead
    constructor
    · rintro rfl
      exact ⟨relativePath_note, by decide +kernel⟩
    · rintro ⟨-, hthere⟩
      by_contra hne
      exact hthere (if_neg hne)

theorem note_mode_commits : commitChanges noteLibrary modeGit noteStorage noteHead noteMount "Make it executable" none =
    (.ok (.success "7d865e959b2466918c9863afca942d0fb89d7c9a" 0),
      (commitChanges noteLibrary modeGit noteStorage noteHead noteMount "Make it executable" none).2) :=
  Prod.ext (by decide +kernel) rfl

/-- The commit of a mode is right. -/
theorem note_mode_commit_right : CommitRight noteStorage noteHead noteMount
    (commitChanges noteLibrary modeGit noteStorage noteHead noteMount "Make it executable" none).2.1
    (commitChanges noteLibrary modeGit noteStorage noteHead noteMount "Make it executable" none).2.2 0 :=
  (commit_right_iff note_mode_commits).mpr note_untouched

/-- A commit succeeds and reports that no file was changed. -/
theorem commit_counts_no_file : ¬ ∀ (lib : Library) (git : Git) (storagePath : List String) (head : View)
    (output : String) (s : State) (ops : List Op) (t : State) (o : View) (message : String)
    (author : Option String) (commitSha : String) (filesChanged : ℕ) (head' : View) (t' : State),
    Fresh storagePath head output s → exec (runStep lib storagePath) (s, head) ops = some (t, o) →
    commitChanges lib git storagePath head t message author =
      (.ok (.success commitSha filesChanged), head', t') →
    CommitRight storagePath head t head' t' filesChanged := by
  intro h
  have hright := h noteLibrary noteGit noteStorage noteHead noteListing noteMount
    [.write "note.txt" byeBytes 0] rewrittenNote (overlay noteHead (.write "note.txt" byeBytes 0)) "Update" none
    _ _ _ _ noteMount_fresh rfl rewrittenNote_commits
  have hcount : (rewrittenNote.mount.files.values.filter VirtualFile.hasChanges).length = 1 := by
    decide +kernel
  rw [← hright.count] at hcount
  cases hcount

end KernelRuntime.Gvfs
