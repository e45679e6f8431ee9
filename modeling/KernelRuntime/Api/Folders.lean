import KernelRuntime.Api.FileServing
import KernelRuntime.Api.WorkspaceRoots
import KernelRuntime.Foundations.Execution
import KernelRuntime.Storage.Mount

/-! # Project folders

A folder has a row and a place below the directory of its tenant: a directory, a clone, or a link to a directory of the
machine. Requests of all users, and what agents write on the disk meanwhile, are taken one after the other. The
workspace root and the directories in it are no links. -/

namespace KernelRuntime.Folders
open SessionConfig (httpException)
open LinkTree
set_option autoImplicit false

structure FolderModel where
  id : String
  name : String
  tenantId : String
  ownerId : String
  slug : String
  sharedWith : String
  color : String
  description : String
  isActive : Bool
deriving DecidableEq

/-- The user of a token. The tenants that get tokens have the names of `uuid4`, or `local`. -/
structure User where
  tenantId : String
  userId : String
  plain : IsPlain tenantId

structure FolderCreateRequest where
  name : String
  description : String := ""
  color : String := "cyan"
  sharedWith : String := ""

structure FolderGitCloneRequest where
  name : String
  repoUrl : String
  branch : String := "main"
  description : String := ""
  color : String := "violet"

structure FolderLocalImportRequest where
  name : String
  localPath : String
  description : String := ""
  color : String := "sky"

/-- `str.lower`, `WORKSPACE_ROOT`, the directories that cannot be made, the directory of the process, and how deep calls
may be nested. -/
structure Machine where
  lower : String → String
  workspaceRoot : List String
  refuses : List String → Bool
  cwd : List String
  recursionLimit : ℕ

def hexDigits : List Char := ['0', '1', '2', '3', '4', '5', '6', '7', '8', '9', 'a', 'b', 'c', 'd', 'e', 'f']

/-- What is drawn for a new folder: `str(uuid4())`, and `uuid4().hex[:6]`. -/
structure Fresh where
  id : String
  hex : String
  digits : (hex.toList.all fun c => hexDigits.contains c) = true

structure State where
  rows : List FolderModel
  disk : LinkTree

def folderColors : List String := ["cyan", "violet", "amber", "emerald", "rose", "sky", "slate"]

/-- `[a-zA-Z0-9\-_]`. -/
def isSlugChar (c : Char) : Bool := c.isAlphanum || c = '-' || c = '_'

def slugify (m : Machine) (name hex : String) : String :=
  let slug := ((m.lower name).toList.map fun c => if c = ' ' then '-' else c).filter isSlugChar
  (if slug = [] then "folder" else String.ofList slug) ++ "-" ++ hex

/-- `text[:n]`. -/
def cut (n : ℕ) (text : String) : String := String.ofList (text.toList.take n)

def newFolder (req : FolderCreateRequest) (user : User) (slug id : String) : FolderModel where
  id := id
  name := cut 64 (String.ofList (Gvfs.strip req.name.toList))
  tenantId := user.tenantId
  ownerId := user.userId
  slug := slug
  sharedWith := req.sharedWith
  color := if req.color ∈ folderColors then req.color else "cyan"
  description := cut 256 req.description
  isActive := true

/-- `workspace_root() / tenant_id`. -/
def tenantRoot (m : Machine) (tenantId : String) : PurePath := (⟨.root, m.workspaceRoot⟩ : PurePath).join (.of tenantId)

/-- Where a folder is. -/
def folderPath (m : Machine) (tenantId slug : String) : List String := ((tenantRoot m tenantId).join (.of slug)).parts

/-- `db.commit()` of a new row; the identifiers and slugs of all rows are unique. -/
def commit (rows : List FolderModel) (folder : FolderModel) : Except PyError (List FolderModel) :=
  if rows.any fun r => decide (r.id = folder.id ∨ r.slug = folder.slug) then
    .error ⟨.databaseError, "UNIQUE constraint failed"⟩
  else .ok (rows ++ [folder])

/-- The rows after a request, and what it answers. -/
def answer (rows : List FolderModel) (folder : FolderModel) (disk : LinkTree) : Except PyError FolderModel × State :=
  match commit rows folder with
  | .ok rows' => (.ok folder, ⟨rows', disk⟩)
  | .error e => (.error e, ⟨rows, disk⟩)

def osError (path : List String) : PyError := ⟨.other, "OSError: " ++ pathText path⟩

def createFolder (m : Machine) (s : State) (user : User) (req : FolderCreateRequest) (fresh : Fresh) :
    Except PyError FolderModel × State :=
  let slug := slugify m req.name fresh.hex
  let made := makeDirectories m.refuses s.disk [] (folderPath m user.tenantId slug)
  if made.done then answer s.rows (newFolder req user slug fresh.id) made.tree
  else (.error (osError (folderPath m user.tenantId slug)), ⟨s.rows, made.tree⟩)

/-- `clone_repo`. `git` comes with a tree, or fails; it makes its directory itself. -/
def cloneRepo (t : LinkTree) (target : List String) (slug : String) (cloned : Except String LinkTree) :
    Except PyError LinkTree :=
  if t.pathExists target then .error (httpException "400" ("Project '" ++ slug ++ "' already exists."))
  else match cloned with
    | .error detail => .error (httpException "500" ("Git clone failed: " ++ detail))
    | .ok tree =>
      -- a link without a target is in the way of `git`
      if t target = none then .ok (putTree t target tree)
      else .error (httpException "500" "Git clone failed: ")

def cloneGitRepo (m : Machine) (s : State) (user : User) (req : FolderGitCloneRequest) (fresh : Fresh)
    (cloned : Except String LinkTree) : Except PyError FolderModel × State :=
  let slug := slugify m req.name fresh.hex
  let description := if req.description = "" then "Cloned from " ++ req.repoUrl else req.description
  let folder := newFolder { name := req.name, description := description, color := req.color } user slug fresh.id
  let made := makeDirectories m.refuses s.disk [] (tenantRoot m user.tenantId).parts
  if made.done then
    match cloneRepo made.tree (folderPath m user.tenantId slug) slug cloned with
    | .ok disk => answer s.rows folder disk
    | .error e => (.error e, ⟨s.rows, made.tree⟩)
  else (.error (osError (tenantRoot m user.tenantId).parts), ⟨s.rows, made.tree⟩)

/-- `link_local_folder`. -/
def linkLocalFolder (m : Machine) (t : LinkTree) (localPath : String) (linkPath : List String) (slug : String) :
    Except PyError LinkTree :=
  let path := PurePath.of localPath
  match t.resolve m.recursionLimit (if path.anchor = .relative then m.cwd ++ path.parts else path.parts) with
  | .error e => .error (FileServing.resolveError e)
  | .ok target =>
    if ¬ t.pathExists target then
      .error (httpException "400" ("Local path does not exist: " ++ localPath))
    else if ¬ t.isDir target then .error (httpException "400" "Specified path is not a directory.")
    else if t.pathExists linkPath then .error (httpException "400" ("Workspace path already exists: " ++ slug))
    else if t linkPath ≠ none ∨ m.refuses linkPath then .error (osError linkPath)
    else .ok (Function.update t linkPath (some (.link true target)))

def importLocalFolder (m : Machine) (s : State) (user : User) (req : FolderLocalImportRequest) (fresh : Fresh) :
    Except PyError FolderModel × State :=
  let slug := slugify m req.name fresh.hex
  let folder := newFolder { name := req.name, description := req.description, color := req.color } user slug fresh.id
  let made := makeDirectories m.refuses s.disk [] (tenantRoot m user.tenantId).parts
  if made.done then
    match linkLocalFolder m made.tree req.localPath (folderPath m user.tenantId slug) slug with
    | .ok disk => answer s.rows folder disk
    | .error e => (.error e, ⟨s.rows, made.tree⟩)
  else (.error (osError (tenantRoot m user.tenantId).parts), ⟨s.rows, made.tree⟩)

/-- `get_owned_folder`. -/
def getOwnedFolder (rows : List FolderModel) (folderId : String) (user : User) : Except PyError FolderModel :=
  match rows.find? fun r => decide (r.id = folderId ∧ r.tenantId = user.tenantId ∧ r.ownerId = user.userId) with
  | some folder => .ok folder
  | none => .error (httpException "404" "Folder not found or access denied")

/-- `remove_workspace_path`: what cannot be removed is left, and a link is removed without its target. -/
def removeWorkspacePath (t : LinkTree) (target : List String) (left : List String → Bool) : LinkTree :=
  if ¬ t.pathExists target then t
  else match t target with
    | some .directory => removeTree left t target
    | _ => if left target then t else Function.update t target none

/-- `folder.is_active = False`. -/
def close (folder r : FolderModel) : FolderModel := if r = folder then { r with isActive := false } else r

def deleteFolder (m : Machine) (s : State) (user : User) (folderId : String) (left : List String → Bool) :
    Except PyError FolderModel × State :=
  match getOwnedFolder s.rows folderId user with
  | .error e => (.error e, s)
  | .ok folder =>
    (.ok { folder with isActive := false },
      ⟨s.rows.map (close folder), removeWorkspacePath s.disk (folderPath m user.tenantId folder.slug) left⟩)

inductive Label where
  | creates (user : User) (req : FolderCreateRequest) (fresh : Fresh)
  | clones (user : User) (req : FolderGitCloneRequest) (fresh : Fresh) (cloned : Except String LinkTree)
  | imports (user : User) (req : FolderLocalImportRequest) (fresh : Fresh)
  | deletes (user : User) (folderId : String) (left : List String → Bool)
  | edits (path : List String) (node : Option LinkNode)

def step (m : Machine) (s : State) : Label → Option State
  | .creates user req fresh => some (createFolder m s user req fresh).2
  | .clones user req fresh cloned => some (cloneGitRepo m s user req fresh cloned).2
  | .imports user req fresh => some (importLocalFolder m s user req fresh).2
  | .deletes user folderId left => some (deleteFolder m s user folderId left).2
  | .edits path node => some { s with disk := Function.update s.disk path node }

/-- The workspace root stands, and what is directly in it are no links. -/
structure Rooted (m : Machine) (t : LinkTree) : Prop where
  root : ∀ q, q <+: m.workspaceRoot → t q = some .directory
  tenants : ∀ name absolute names, t (m.workspaceRoot ++ [name]) ≠ some (.link absolute names)

/-- What is written on the disk keeps it so. -/
def Label.KeepsRoots (m : Machine) : Label → Prop
  | .edits path node => ¬ path <+: m.workspaceRoot ∧
      ∀ name absolute names, path = m.workspaceRoot ++ [name] → node ≠ some (.link absolute names)
  | _ => True

/-- The folder is not deleted by its owner, and nobody else writes into it. -/
def Label.Spares (m : Machine) (r : FolderModel) : Label → Prop
  | .deletes user folderId _ => ¬ (folderId = r.id ∧ user.tenantId = r.tenantId ∧ user.userId = r.ownerId)
  | .edits path _ => ¬ folderPath m r.tenantId r.slug <+: path
  | _ => True

/-! ## Places of folders -/

theorem mem_slugify {m : Machine} {name : String} (fresh : Fresh) {c : Char}
    (hc : c ∈ (slugify m name fresh.hex).toList) : isSlugChar c = true := by
  have hhex : ∀ c ∈ fresh.hex.toList, isSlugChar c = true := by
    intro c hc
    have hdigit : hexDigits.all isSlugChar = true := by decide
    have hmem : hexDigits.contains c = true := List.all_eq_true.mp fresh.digits c hc
    exact List.all_eq_true.mp hdigit c (List.contains_iff_mem.mp hmem)
  unfold slugify at hc
  rw [String.toList_append, String.toList_append] at hc
  rcases List.mem_append.mp hc with hc | hc
  · rcases List.mem_append.mp hc with hc | hc
    · split_ifs at hc
      · have hfolder : "folder".toList.all isSlugChar = true := by decide
        exact List.all_eq_true.mp hfolder c hc
      · rw [String.toList_ofList] at hc
        exact (List.mem_filter.mp hc).2
    · obtain rfl : c = '-' := by simpa using hc
      rfl
  · exact hhex c hc

/-- A slug is one name. -/
theorem plain_slugify (m : Machine) (name : String) (fresh : Fresh) : IsPlain (slugify m name fresh.hex) := by
  have hdash : '-' ∈ (slugify m name fresh.hex).toList := by
    unfold slugify
    simp
  have hno : ∀ c, isSlugChar c = false → c ∉ (slugify m name fresh.hex).toList := by
    intro c hc hmem
    rw [mem_slugify fresh hmem] at hc
    cases hc
  refine ⟨?_, ?_, ?_, hno '/' (by decide)⟩
  · intro h
    rw [h] at hdash
    exact absurd hdash (by decide)
  · intro h
    exact hno '.' (by decide) (by rw [h]; decide)
  · intro h
    exact hno '.' (by decide) (by rw [h]; decide)

theorem tenantRoot_plain (m : Machine) {tenantId : String} (h : IsPlain tenantId) :
    (tenantRoot m tenantId).parts = m.workspaceRoot ++ [tenantId] := by
  unfold tenantRoot
  rw [WorkspaceRoots.of_plain h]
  rfl

theorem folderPath_plain (m : Machine) {tenantId slug : String} (htenant : IsPlain tenantId) (hslug : IsPlain slug) :
    folderPath m tenantId slug = m.workspaceRoot ++ [tenantId, slug] := by
  unfold folderPath tenantRoot
  rw [WorkspaceRoots.of_plain htenant, WorkspaceRoots.of_plain hslug]
  simp [PurePath.join]

/-- Two places of folders with something in common are one. -/
theorem same_folder {root q : List String} {a b c d : String} (h : root ++ [a, b] <+: q)
    (h' : root ++ [c, d] <+: q) : a = c ∧ b = d := by
  have hsame : root ++ [a, b] = root ++ [c, d] :=
    (List.prefix_of_prefix_length_le h h' (by simp)).eq_of_length (by simp)
  simpa using hsame

/-! ## What a request changes -/

variable {m : Machine} {s s' : State}

/-- A directory of a tenant is made, and what the request puts at the place of its folder. -/
inductive Change (m : Machine) (t t' : LinkTree) (q : List String) : Prop
  | kept (h : t' q = t q)
  | made (user : User) (slug : String) (hslug : IsPlain slug) (hq : q <+: folderPath m user.tenantId slug)
      (hnone : t q = none) (hdirectory : t' q = some .directory)
  | put (user : User) (slug : String) (hslug : IsPlain slug) (hq : folderPath m user.tenantId slug <+: q)
      (hnone : t (folderPath m user.tenantId slug) = none)

theorem commit_ok {rows rows' : List FolderModel} {folder : FolderModel} (h : commit rows folder = .ok rows') :
    rows' = rows ++ [folder] ∧ ∀ r ∈ rows, r.id ≠ folder.id ∧ r.slug ≠ folder.slug := by
  unfold commit at h
  split_ifs at h with hany
  refine ⟨(Except.ok.inj h).symm, ?_⟩
  intro r hr
  rw [List.any_eq_true, not_exists] at hany
  have hfree := hany r
  simp only [hr, decide_eq_true_eq, true_and, not_or] at hfree
  exact hfree

@[simp] theorem disk_answer (rows : List FolderModel) (folder : FolderModel) (disk : LinkTree) :
    (answer rows folder disk).2.disk = disk := by
  unfold answer
  split <;> rfl

theorem Rooted.no_link {t : LinkTree} (h : Rooted m t) {tenantId slug : String} {mid : List String}
    (hmid : FileTree.Above mid (m.workspaceRoot ++ [tenantId, slug])) (absolute : Bool) (names : List String) :
    t mid ≠ some (.link absolute names) := by
  have hsplit : m.workspaceRoot ++ [tenantId, slug] = m.workspaceRoot ++ [tenantId] ++ [slug] := by simp
  rw [hsplit] at hmid
  rcases List.prefix_concat_iff.mp hmid.1 with heq | hmid'
  · exact absurd heq hmid.2
  · rcases List.prefix_concat_iff.mp hmid' with rfl | hroot
    · exact h.tenants tenantId absolute names
    · rw [h.root mid hroot]
      rintro ⟨⟩

/-- Directories that are made on the way to a folder. -/
theorem change_makeDirectories (hroot : Rooted m s.disk) (user : User) {slug : String} (hslug : IsPlain slug)
    {names : List String} (hnames : names <+: folderPath m user.tenantId slug) (q : List String) :
    Change m s.disk (makeDirectories m.refuses s.disk [] names).tree q := by
  rcases makeDirectories_new m.refuses s.disk [] names q with hsame | ⟨hnone, hmade⟩
  · exact .kept hsame
  · by_cases hq : q <+: names
    · exact .made user slug hslug (hq.trans hnames) hnone hmade
    · refine .kept (makeDirectories_frame ?_ (Or.inr hq))
      rintro mid ⟨hmid, hne⟩ _ absolute target
      rw [folderPath_plain m user.plain hslug] at hnames
      refine hroot.no_link ⟨hmid.trans hnames, ?_⟩ absolute target
      intro heq
      rw [heq] at hmid hne
      exact hne (hmid.eq_of_length_le hnames.length_le)

theorem folder_below_tenantRoot (m : Machine) (user : User) {slug : String} (hslug : IsPlain slug) :
    (tenantRoot m user.tenantId).parts <+: folderPath m user.tenantId slug := by
  rw [tenantRoot_plain m user.plain, folderPath_plain m user.plain hslug]
  exact ⟨[slug], by simp⟩

/-- What comes to stand at a free place. -/
theorem Change.put_after {t made t' : LinkTree} {user : User} {slug : String} (hslug : IsPlain slug)
    (hmade : ∀ q, Change m t made q) (hnone : made (folderPath m user.tenantId slug) = none)
    (hframe : ∀ q, ¬ folderPath m user.tenantId slug <+: q → t' q = made q) (q : List String) : Change m t t' q := by
  by_cases hq : folderPath m user.tenantId slug <+: q
  · refine .put user slug hslug hq ?_
    cases hmade (folderPath m user.tenantId slug) with
    | kept h => exact h.symm.trans hnone
    | made _ _ _ _ h _ => exact h
    | put user' slug' hslug' hprefix h =>
      have hplace : folderPath m user'.tenantId slug' = folderPath m user.tenantId slug := by
        rw [folderPath_plain m user'.plain hslug', folderPath_plain m user.plain hslug] at hprefix ⊢
        obtain ⟨htenant, hsame⟩ := same_folder hprefix List.prefix_rfl
        rw [htenant, hsame]
      rw [← hplace]
      exact h
  · have hsame := hframe q hq
    cases hmade q with
    | kept h => exact .kept (hsame.trans h)
    | made user' slug' hslug' hprefix h hdirectory => exact .made user' slug' hslug' hprefix h (hsame.trans hdirectory)
    | put user' slug' hslug' hprefix h => exact .put user' slug' hslug' hprefix h

theorem cloneRepo_ok {t t' : LinkTree} {target : List String} {slug : String} {cloned : Except String LinkTree}
    (h : cloneRepo t target slug cloned = .ok t') : t target = none ∧ ∀ q, ¬ target <+: q → t' q = t q := by
  unfold cloneRepo at h
  split at h
  · cases h
  · split at h
    · cases h
    · split at h
      · rename_i hnone
        obtain rfl := Except.ok.inj h
        exact ⟨hnone, fun q hq => putTree_frame _ hq⟩
      · cases h

theorem linkLocalFolder_ok {t t' : LinkTree} {localPath slug : String} {linkPath : List String}
    (h : linkLocalFolder m t localPath linkPath slug = .ok t') :
    t linkPath = none ∧ ∀ q, ¬ linkPath <+: q → t' q = t q := by
  unfold linkLocalFolder at h
  simp only at h
  split at h
  · cases h
  · split_ifs at h with hexists hdir hlink hfree
    obtain rfl := Except.ok.inj h
    rw [not_or, not_not] at hfree
    refine ⟨hfree.1, ?_⟩
    intro q hq
    refine Function.update_of_ne ?_ _ _
    rintro rfl
    exact hq List.prefix_rfl

theorem removeWorkspacePath_frame (t : LinkTree) {target q : List String} (left : List String → Bool)
    (hq : ¬ target <+: q) : removeWorkspacePath t target left q = t q := by
  have hupdate : Function.update t target none q = t q := by
    refine Function.update_of_ne ?_ _ _
    rintro rfl
    exact hq List.prefix_rfl
  unfold removeWorkspacePath
  cases t.pathExists target with
  | false => rfl
  | true =>
    have hremoved : removeTree left t target q = t q := removeTree_frame hq
    rcases t target with _ | (_ | _ | _) <;> cases left target <;> first | exact hupdate | exact hremoved | rfl

theorem change_createFolder (hroot : Rooted m s.disk) (user : User) (req : FolderCreateRequest) (fresh : Fresh)
    (q : List String) : Change m s.disk (createFolder m s user req fresh).2.disk q := by
  have hchange := change_makeDirectories hroot user (plain_slugify m req.name fresh) List.prefix_rfl q
  unfold createFolder
  dsimp only
  split
  · rwa [disk_answer]
  · dsimp only
    exact hchange

theorem change_cloneGitRepo (hroot : Rooted m s.disk) (user : User) (req : FolderGitCloneRequest) (fresh : Fresh)
    (cloned : Except String LinkTree) (q : List String) :
    Change m s.disk (cloneGitRepo m s user req fresh cloned).2.disk q := by
  have hslug := plain_slugify m req.name fresh
  have hmade := change_makeDirectories hroot user hslug (folder_below_tenantRoot m user hslug)
  unfold cloneGitRepo
  dsimp only
  split
  · split
    · rename_i disk hdisk
      obtain ⟨hnone, hframe⟩ := cloneRepo_ok hdisk
      rw [disk_answer]
      exact Change.put_after hslug hmade hnone hframe q
    · exact hmade q
  · exact hmade q

theorem change_importLocalFolder (hroot : Rooted m s.disk) (user : User) (req : FolderLocalImportRequest)
    (fresh : Fresh) (q : List String) : Change m s.disk (importLocalFolder m s user req fresh).2.disk q := by
  have hslug := plain_slugify m req.name fresh
  have hmade := change_makeDirectories hroot user hslug (folder_below_tenantRoot m user hslug)
  unfold importLocalFolder
  dsimp only
  split
  · split
    · rename_i disk hdisk
      obtain ⟨hnone, hframe⟩ := linkLocalFolder_ok hdisk
      rw [disk_answer]
      exact Change.put_after hslug hmade hnone hframe q
    · exact hmade q
  · exact hmade q

/-- What a step can do to the disk. -/
theorem disk_of_step (hroot : Rooted m s.disk) {l : Label} (h : step m s l = some s') (q : List String) :
    Change m s.disk s'.disk q ∨
      (∃ user folderId left folder, l = .deletes user folderId left ∧ getOwnedFolder s.rows folderId user = .ok folder ∧
        folderPath m user.tenantId folder.slug <+: q) ∨
      ∃ node, l = .edits q node ∧ s'.disk q = node := by
  cases l with
  | creates user req fresh =>
    rw [step, Option.some.injEq] at h
    subst h
    exact Or.inl (change_createFolder hroot user req fresh q)
  | clones user req fresh cloned =>
    rw [step, Option.some.injEq] at h
    subst h
    exact Or.inl (change_cloneGitRepo hroot user req fresh cloned q)
  | imports user req fresh =>
    rw [step, Option.some.injEq] at h
    subst h
    exact Or.inl (change_importLocalFolder hroot user req fresh q)
  | deletes user folderId left =>
    rw [step, Option.some.injEq] at h
    subst h
    unfold deleteFolder
    split
    · exact Or.inl (.kept rfl)
    · rename_i folder hfolder
      by_cases hq : folderPath m user.tenantId folder.slug <+: q
      · exact Or.inr (Or.inl ⟨user, folderId, left, folder, rfl, hfolder, hq⟩)
      · exact Or.inl (.kept (removeWorkspacePath_frame _ left hq))
  | edits path node =>
    rw [step, Option.some.injEq] at h
    subst h
    by_cases hq : q = path
    · rw [hq]
      exact Or.inr (Or.inr ⟨node, rfl, Function.update_self _ _ _⟩)
    · exact Or.inl (.kept (Function.update_of_ne hq _ _))

/-! ## Rows -/

/-- A row that was added has a slug of its own. -/
structure Added (rows rows' : List FolderModel) (folder : FolderModel) : Prop where
  appended : rows' = rows ++ [folder]
  slug : ∀ r ∈ rows, r.slug ≠ folder.slug
  plain : IsPlain folder.tenantId ∧ IsPlain folder.slug

theorem rows_answer (rows : List FolderModel) {folder : FolderModel} (disk : LinkTree)
    (hplain : IsPlain folder.tenantId ∧ IsPlain folder.slug) :
    (answer rows folder disk).2.rows = rows ∨ Added rows (answer rows folder disk).2.rows folder := by
  unfold answer
  split
  · rename_i rows' hcommit
    obtain ⟨hrows, hfree⟩ := commit_ok hcommit
    exact Or.inr ⟨hrows, fun r hr => (hfree r hr).2, hplain⟩
  · exact Or.inl rfl

theorem rows_createFolder (m : Machine) (s : State) (user : User) (req : FolderCreateRequest) (fresh : Fresh) :
    (createFolder m s user req fresh).2.rows = s.rows ∨
      ∃ folder, Added s.rows (createFolder m s user req fresh).2.rows folder := by
  unfold createFolder
  dsimp only
  split
  · exact (rows_answer s.rows _ ⟨user.plain, plain_slugify m req.name fresh⟩).imp_right fun h => ⟨_, h⟩
  · exact Or.inl rfl

theorem rows_cloneGitRepo (m : Machine) (s : State) (user : User) (req : FolderGitCloneRequest) (fresh : Fresh)
    (cloned : Except String LinkTree) : (cloneGitRepo m s user req fresh cloned).2.rows = s.rows ∨
      ∃ folder, Added s.rows (cloneGitRepo m s user req fresh cloned).2.rows folder := by
  unfold cloneGitRepo
  dsimp only
  split
  · split
    · exact (rows_answer s.rows _ ⟨user.plain, plain_slugify m req.name fresh⟩).imp_right fun h => ⟨_, h⟩
    · exact Or.inl rfl
  · exact Or.inl rfl

theorem rows_importLocalFolder (m : Machine) (s : State) (user : User) (req : FolderLocalImportRequest)
    (fresh : Fresh) : (importLocalFolder m s user req fresh).2.rows = s.rows ∨
      ∃ folder, Added s.rows (importLocalFolder m s user req fresh).2.rows folder := by
  unfold importLocalFolder
  dsimp only
  split
  · split
    · exact (rows_answer s.rows _ ⟨user.plain, plain_slugify m req.name fresh⟩).imp_right fun h => ⟨_, h⟩
    · exact Or.inl rfl
  · exact Or.inl rfl

/-- What a step can do to the rows. -/
theorem rows_of_step {l : Label} (h : step m s l = some s') :
    s'.rows = s.rows ∨ (∃ folder, Added s.rows s'.rows folder) ∨
      ∃ user folderId left folder, l = .deletes user folderId left ∧ getOwnedFolder s.rows folderId user = .ok folder ∧
        s'.rows = s.rows.map (close folder) := by
  cases l with
  | creates user req fresh =>
    rw [step, Option.some.injEq] at h
    subst h
    exact (rows_createFolder m s user req fresh).imp_right Or.inl
  | clones user req fresh cloned =>
    rw [step, Option.some.injEq] at h
    subst h
    exact (rows_cloneGitRepo m s user req fresh cloned).imp_right Or.inl
  | imports user req fresh =>
    rw [step, Option.some.injEq] at h
    subst h
    exact (rows_importLocalFolder m s user req fresh).imp_right Or.inl
  | deletes user folderId left =>
    rw [step, Option.some.injEq] at h
    subst h
    unfold deleteFolder
    split
    · exact Or.inl rfl
    · rename_i folder hfolder
      exact Or.inr (Or.inr ⟨user, folderId, left, folder, rfl, hfolder, rfl⟩)
  | edits path node =>
    rw [step, Option.some.injEq] at h
    subst h
    exact Or.inl rfl

/-! ## The invariant -/

structure Inv (m : Machine) (s : State) : Prop where
  rooted : Rooted m s.disk
  slugs : (s.rows.map FolderModel.slug).Nodup
  plain : ∀ r ∈ s.rows, IsPlain r.tenantId ∧ IsPlain r.slug

theorem getOwnedFolder_ok {rows : List FolderModel} {folderId : String} {user : User} {folder : FolderModel}
    (h : getOwnedFolder rows folderId user = .ok folder) :
    folder ∈ rows ∧ folder.id = folderId ∧ folder.tenantId = user.tenantId ∧ folder.ownerId = user.userId := by
  unfold getOwnedFolder at h
  split at h
  · rename_i found hfound
    obtain rfl := Except.ok.inj h
    exact ⟨List.mem_of_find?_eq_some hfound, by simpa using List.find?_some hfound⟩
  · cases h

theorem not_prefix_root (m : Machine) {tenantId slug : String} {q : List String}
    (h : m.workspaceRoot ++ [tenantId, slug] <+: q) :
    ¬ q <+: m.workspaceRoot ∧ ∀ name, q ≠ m.workspaceRoot ++ [name] := by
  have hlength := h.length_le
  rw [List.length_append] at hlength
  refine ⟨?_, ?_⟩
  · intro hq
    have hle := hq.length_le
    simp only [List.length_cons, List.length_nil] at hlength
    omega
  · rintro name rfl
    simp at hlength

theorem Change.rooted {t t' : LinkTree} {q : List String} (hchange : Change m t t' q)
    (hq : q <+: m.workspaceRoot ∨ ∃ name, q = m.workspaceRoot ++ [name]) :
    t' q = t q ∨ t q = none ∧ t' q = some .directory := by
  cases hchange with
  | kept h => exact Or.inl h
  | made _ _ _ _ hnone hdirectory => exact Or.inr ⟨hnone, hdirectory⟩
  | put user slug hslug hprefix _ =>
    rw [folderPath_plain m user.plain hslug] at hprefix
    obtain ⟨hroot', hname⟩ := not_prefix_root m hprefix
    rcases hq with hq | ⟨name, hq⟩
    · exact absurd hq hroot'
    · exact absurd hq (hname name)

theorem slug_close (folder r : FolderModel) : (close folder r).slug = r.slug := by
  unfold close
  split <;> rfl

theorem tenantId_close (folder r : FolderModel) : (close folder r).tenantId = r.tenantId := by
  unfold close
  split <;> rfl

/-- Nothing that a deletion removes is a root. -/
theorem Inv.deleted (h : Inv m s) {user : User} {folderId : String} {folder : FolderModel}
    (hfolder : getOwnedFolder s.rows folderId user = .ok folder) {q : List String}
    (hq : folderPath m user.tenantId folder.slug <+: q) :
    ¬ q <+: m.workspaceRoot ∧ ∀ name, q ≠ m.workspaceRoot ++ [name] := by
  rw [folderPath_plain m user.plain (h.plain folder (getOwnedFolder_ok hfolder).1).2] at hq
  exact not_prefix_root m hq

theorem Inv.rooted_step (h : Inv m s) {l : Label} (hkeeps : l.KeepsRoots m) (hstep : Folders.step m s l = some s') :
    Rooted m s'.disk := by
  refine ⟨?_, ?_⟩
  · intro q hq
    rcases disk_of_step h.rooted hstep q with hchange | ⟨_, _, _, _, _, hfolder, hprefix⟩ | ⟨node, rfl, _⟩
    · rcases hchange.rooted (Or.inl hq) with hsame | ⟨_, hdirectory⟩
      · rw [hsame]
        exact h.rooted.root q hq
      · exact hdirectory
    · exact absurd hq (h.deleted hfolder hprefix).1
    · exact absurd hq hkeeps.1
  · intro name absolute names
    rcases disk_of_step h.rooted hstep (m.workspaceRoot ++ [name]) with
      hchange | ⟨_, _, _, _, _, hfolder, hprefix⟩ | ⟨node, rfl, hnode⟩
    · rcases hchange.rooted (Or.inr ⟨name, rfl⟩) with hsame | ⟨_, hdirectory⟩
      · rw [hsame]
        exact h.rooted.tenants name absolute names
      · rw [hdirectory]
        rintro ⟨⟩
    · exact absurd rfl ((h.deleted hfolder hprefix).2 name)
    · rw [hnode]
      exact hkeeps.2 name absolute names rfl

theorem Inv.step (h : Inv m s) {l : Label} (hkeeps : l.KeepsRoots m) (hstep : Folders.step m s l = some s') :
    Inv m s' := by
  have hrooted := h.rooted_step hkeeps hstep
  rcases rows_of_step hstep with hrows | ⟨folder, hadded⟩ | ⟨_, _, _, folder, _, _, hrows⟩
  · exact ⟨hrooted, by rw [hrows]; exact h.slugs, by rw [hrows]; exact h.plain⟩
  · refine ⟨hrooted, ?_, ?_⟩
    · rw [hadded.appended, List.map_append]
      refine List.nodup_append.mpr ⟨h.slugs, List.nodup_singleton _, ?_⟩
      intro slug hslug slug' hslug'
      obtain ⟨r, hr, rfl⟩ := List.mem_map.mp hslug
      rw [List.map_singleton, List.mem_singleton] at hslug'
      rw [hslug']
      exact hadded.slug r hr
    · intro r hr
      rw [hadded.appended] at hr
      rcases List.mem_append.mp hr with hr | hr
      · exact h.plain r hr
      · rw [List.mem_singleton.mp hr]
        exact hadded.plain
  · refine ⟨hrooted, ?_, ?_⟩
    · rw [hrows, List.map_map]
      have hsame : FolderModel.slug ∘ close folder = FolderModel.slug := funext (slug_close folder)
      rw [hsame]
      exact h.slugs
    · intro r hr
      rw [hrows] at hr
      obtain ⟨old, hold, rfl⟩ := List.mem_map.mp hr
      rw [slug_close, tenantId_close]
      exact h.plain old hold

/-! ## Folders apart -/

theorem Inv.same_place (h : Inv m s) {r folder : FolderModel} (hr : r ∈ s.rows) (hfolder : folder ∈ s.rows)
    {q : List String} (hq : folderPath m r.tenantId r.slug <+: q)
    (hq' : folderPath m folder.tenantId folder.slug <+: q) : folder = r := by
  obtain ⟨htenant, hslug⟩ := h.plain r hr
  obtain ⟨htenant', hslug'⟩ := h.plain folder hfolder
  rw [folderPath_plain m htenant hslug] at hq
  rw [folderPath_plain m htenant' hslug'] at hq'
  exact List.inj_on_of_nodup_map h.slugs hfolder hr (same_folder hq' hq).2

/-- A folder keeps its row and what is at its place. -/
theorem Inv.spared (h : Inv m s) {r : FolderModel} (hr : r ∈ s.rows)
    (hthere : s.disk (folderPath m r.tenantId r.slug) ≠ none) {l : Label} (hspares : l.Spares m r)
    (hstep : Folders.step m s l = some s') :
    r ∈ s'.rows ∧ ∀ q, folderPath m r.tenantId r.slug <+: q → s'.disk q = s.disk q := by
  refine ⟨?_, ?_⟩
  · rcases rows_of_step hstep with hrows | ⟨folder, hadded⟩ | ⟨user, folderId, _, folder, rfl, hfolder, hrows⟩
    · rwa [hrows]
    · rw [hadded.appended]
      exact List.mem_append_left _ hr
    · rw [hrows]
      refine List.mem_map.mpr ⟨r, hr, if_neg ?_⟩
      rintro rfl
      obtain ⟨_, hid, htenant, howner⟩ := getOwnedFolder_ok hfolder
      exact hspares ⟨hid.symm, htenant.symm, howner.symm⟩
  · intro q hq
    obtain ⟨htenant, hslug⟩ := h.plain r hr
    rcases disk_of_step h.rooted hstep q with
      hchange | ⟨user, folderId, _, folder, rfl, hfolder, hprefix⟩ | ⟨node, rfl, _⟩
    · cases hchange with
      | kept hsame => exact hsame
      | made user slug hslug' hprefix hnone _ =>
        have hlength : q.length ≤ (folderPath m r.tenantId r.slug).length := by
          have hle := hprefix.length_le
          rw [folderPath_plain m user.plain hslug'] at hle
          rw [folderPath_plain m htenant hslug]
          simpa using hle
        rw [← hq.eq_of_length_le hlength] at hnone
        exact absurd hnone hthere
      | put user slug hslug' hprefix hnone =>
        rw [folderPath_plain m user.plain hslug'] at hprefix hnone
        rw [folderPath_plain m htenant hslug] at hq hthere
        obtain ⟨hsame, hsame'⟩ := same_folder hq hprefix
        rw [hsame, hsame'] at hthere
        exact absurd hnone hthere
    · obtain ⟨hmem, hid, htenant', howner⟩ := getOwnedFolder_ok hfolder
      rw [← htenant'] at hprefix
      obtain rfl := h.same_place hr hmem hq hprefix
      exact absurd ⟨hid.symm, htenant'.symm, howner.symm⟩ hspares
    · exact absurd hq hspares

/-- What is outside of the workspace is left alone. -/
theorem Inv.outside (h : Inv m s) {l : Label} (hstep : Folders.step m s l = some s') {q : List String}
    (hq : ¬ m.workspaceRoot <+: q) (hedits : ∀ node, l ≠ .edits q node) : s'.disk q = s.disk q := by
  have hinside : ∀ tenantId slug, IsPlain tenantId → IsPlain slug → ¬ folderPath m tenantId slug <+: q := by
    intro tenantId slug htenant hslug hprefix
    rw [folderPath_plain m htenant hslug] at hprefix
    exact hq ((List.prefix_append _ _).trans hprefix)
  rcases disk_of_step h.rooted hstep q with hchange | ⟨user, _, _, folder, _, hfolder, hprefix⟩ | ⟨node, hlabel, _⟩
  · cases hchange with
    | kept hsame => exact hsame
    | made user slug hslug hprefix hnone _ =>
      rw [folderPath_plain m user.plain hslug] at hprefix
      rcases List.prefix_or_prefix_of_prefix hprefix (List.prefix_append m.workspaceRoot _) with hroot | hroot
      · rw [h.rooted.root q hroot] at hnone
        cases hnone
      · exact absurd hroot hq
    | put user slug hslug hprefix _ => exact absurd hprefix (hinside _ _ user.plain hslug)
  · exact absurd hprefix (hinside _ _ user.plain (h.plain folder (getOwnedFolder_ok hfolder).1).2)
  · exact absurd hlabel (hedits node)

theorem Inv.run {ls : List Label} (h : Inv m s) (hkeeps : ∀ l ∈ ls, l.KeepsRoots m)
    (hrun : exec (Folders.step m) s ls = some s') : Inv m s' :=
  exec_invariant (fun _ _ _ hs hok hstep => Inv.step hs hok hstep) h (guarded_of_forall hkeeps s) hrun

/-- **From every state that requests can reach: a project keeps its row and its files until its owner deletes it,
whatever other users create, clone, import or delete; and what is outside of the workspace stays as it is, that which
projects link to as well.** -/
theorem projects_apart (m : Machine) {disk : LinkTree} (hroot : Rooted m disk) {before ls : List Label} {s s' : State}
    (hbefore : exec (step m) ⟨[], disk⟩ before = some s) (hrun : exec (step m) s ls = some s')
    (hkeeps : ∀ l ∈ before ++ ls, l.KeepsRoots m) :
    (∀ r ∈ s.rows, s.disk (folderPath m r.tenantId r.slug) ≠ none → (∀ l ∈ ls, l.Spares m r) →
        r ∈ s'.rows ∧ ∀ q, folderPath m r.tenantId r.slug <+: q → s'.disk q = s.disk q) ∧
      ∀ q, ¬ m.workspaceRoot <+: q → (∀ node, .edits q node ∉ ls) → s'.disk q = s.disk q := by
  have hempty : Inv m ⟨[], disk⟩ := by
    refine ⟨hroot, List.nodup_nil, ?_⟩
    intro r hr
    cases hr
  have hs : Inv m s := hempty.run (fun l hl => hkeeps l (List.mem_append_left _ hl)) hbefore
  have hrest : ∀ l ∈ ls, l.KeepsRoots m := fun l hl => hkeeps l (List.mem_append_right _ hl)
  refine ⟨?_, ?_⟩
  · intro r hr hthere hspares
    have hstep : ∀ t l t', (Inv m t ∧ r ∈ t.rows ∧ ∀ q, folderPath m r.tenantId r.slug <+: q → t.disk q = s.disk q) →
        (l.KeepsRoots m ∧ l.Spares m r) → step m t l = some t' →
        Inv m t' ∧ r ∈ t'.rows ∧ ∀ q, folderPath m r.tenantId r.slug <+: q → t'.disk q = s.disk q := by
      rintro t l t' ⟨ht, hmem, hsame⟩ ⟨hkeep, hspare⟩ hnext
      have hthere' : t.disk (folderPath m r.tenantId r.slug) ≠ none := by
        rw [hsame _ List.prefix_rfl]
        exact hthere
      obtain ⟨hmem', hsame'⟩ := ht.spared hmem hthere' hspare hnext
      exact ⟨ht.step hkeep hnext, hmem', fun q hq => (hsame' q hq).trans (hsame q hq)⟩
    have hall : ∀ l ∈ ls, l.KeepsRoots m ∧ l.Spares m r := fun l hl => ⟨hrest l hl, hspares l hl⟩
    exact (exec_invariant hstep ⟨hs, hr, fun _ _ => rfl⟩ (guarded_of_forall hall s) hrun).2
  · intro q hq hedits
    have hstep : ∀ t l t', (Inv m t ∧ t.disk q = s.disk q) → (l.KeepsRoots m ∧ ∀ node, l ≠ .edits q node) →
        step m t l = some t' → Inv m t' ∧ t'.disk q = s.disk q := by
      rintro t l t' ⟨ht, hsame⟩ ⟨hkeep, hquiet⟩ hnext
      exact ⟨ht.step hkeep hnext, (ht.outside hnext hq hquiet).trans hsame⟩
    have hall : ∀ l ∈ ls, l.KeepsRoots m ∧ ∀ node, l ≠ .edits q node := by
      intro l hl
      refine ⟨hrest l hl, ?_⟩
      rintro node rfl
      exact hedits node hl
    exact (exec_invariant hstep ⟨hs, rfl⟩ (guarded_of_forall hall s) hrun).2

/-! ## A directory that is mounted -/

def laptop : Machine := ⟨id, ["srv"], fun _ => false, ["app"], 900⟩

def home : LinkTree := fun q =>
  if q ∈ [[], ["srv"], ["home"], ["home", "code"]] then some .directory
  else if q = ["home", "code", "main.py"] then some (.file [1]) else none

theorem rooted_home : Rooted laptop home := by
  refine ⟨?_, ?_⟩
  · intro q hq
    have hmem : q ∈ ["srv"].inits := (List.mem_inits _ _).mpr hq
    exact if_pos (List.mem_append_left [["home"], ["home", "code"]] hmem)
  · intro name absolute names h
    unfold home at h
    split_ifs at h
    · cases h
    · cases h

def alice : User := ⟨"local", "alice", by decide⟩

def bob : User := ⟨"acme", "bob", by decide⟩

def mount : List Label :=
  [.imports alice ⟨"code", "/home/code", "", "sky"⟩ ⟨"f1", "a1b2c3", by decide⟩,
    .creates bob ⟨"web", "", "cyan", ""⟩ ⟨"f2", "d4e5f6", by decide⟩]

def unmount : List Label := [.deletes bob "f1" fun _ => false, .deletes alice "f1" fun _ => false]

theorem isSome_mount : (exec (step laptop) ⟨[], home⟩ mount).isSome = true := by decide +kernel

def mounted : State := (exec (step laptop) ⟨[], home⟩ mount).get isSome_mount

theorem isSome_unmount : (exec (step laptop) mounted unmount).isSome = true := by decide +kernel

def unmounted : State := (exec (step laptop) mounted unmount).get isSome_unmount

theorem code_is_unmounted :
    mounted.disk ["srv", "local", "code-a1b2c3"] = some (.link true ["home", "code"]) ∧
      unmounted.disk ["srv", "local", "code-a1b2c3"] = none ∧
      unmounted.disk ["home", "code", "main.py"] = some (.file [1]) := by
  have hmount : exec (step laptop) ⟨[], home⟩ mount = some mounted := (Option.some_get isSome_mount).symm
  have hunmount : exec (step laptop) mounted unmount = some unmounted := (Option.some_get isSome_unmount).symm
  have hkeeps : ∀ l ∈ mount ++ unmount, l.KeepsRoots laptop := by
    intro l hl
    simp only [mount, unmount, List.mem_append, List.mem_cons, List.not_mem_nil, or_false] at hl
    rcases hl with (rfl | rfl) | (rfl | rfl) <;> trivial
  have hedits : ∀ node, Label.edits ["home", "code", "main.py"] node ∉ unmount := by
    intro node h
    unfold unmount at h
    simp at h
  refine ⟨by decide +kernel, by decide +kernel, ?_⟩
  rw [(projects_apart laptop rooted_home hmount hunmount hkeeps).2 _ (by decide) hedits]
  decide +kernel

end KernelRuntime.Folders
