import KernelRuntime.Governance.Routes
import KernelRuntime.Storage.Commit
import KernelRuntime.Storage.PathKeys
import KernelRuntime.Storage.Restore

/-! # The files that a mount touches

Where the operations on a mount read, write and remove files, on a disk without links. A path is joined as it
is to the clone, to the directory of changes, or to a workspace. -/

namespace KernelRuntime.Gvfs
open ToolExecution
set_option autoImplicit false

/-- The paths that no call of the operating system takes, the directories and the files that it does not let the
process make, open or remove, and what of a content gets to the disk, with whether that is all of it. -/
structure Machine where
  unusable : PurePath → Bool
  refusesDirectory : List String → Bool
  refusesFile : List String → Bool
  refusesRemoval : List String → Bool
  copied : List String → Bytes → Bytes × Bool

inductive Access where
  | read (place : List String)
  | write (place : List String)
  | remove (place : List String)
deriving DecidableEq

/-! ## The operating system -/

namespace Machine

/-- What a path leads to: there are directories all along the way. -/
def lookup (m : Machine) (t : FileTree) (p : PurePath) : Option Node :=
  if m.unusable p = false ∧ ∀ q ∈ p.parent.places, t q = some .directory then t p.place else none

/-- The path of a file that is not refused. -/
def fileAt (m : Machine) (refuses : List String → Bool) (t : FileTree) (p : PurePath) : Option (List String) :=
  match m.lookup t p with
  | some (.file _) => if refuses p.place then none else some p.place
  | _ => none

/-- `open(path, "rb")`: the file that is opened. -/
def openRead (m : Machine) (t : FileTree) (p : PurePath) : Option (List String) := m.fileAt m.refusesFile t p

/-- `path.unlink()`: the file that is removed. -/
def unlink (m : Machine) (t : FileTree) (p : PurePath) : Option (List String) := m.fileAt m.refusesRemoval t p

/-- What became of a file that was to be written: where it was opened, whether all of it was written, and the disk. -/
structure Stored where
  opened : Option (List String)
  complete : Bool
  disk : FileTree

/-- `path.parent.mkdir(parents=True, exist_ok=True)`, and `write` after `open(path, "wb")`. -/
def store (m : Machine) (t : FileTree) (p : PurePath) (content : Bytes) : Stored :=
  let parents := FileTree.mkdirs (m.unusable p.parent) m.refusesDirectory t p.parent.places
  if parents.done = false ∨ m.unusable p = true ∨ parents.tree p.place = some .directory ∨
      m.refusesFile p.place = true then
    ⟨none, false, parents.tree⟩
  else
    let copy := m.copied p.place content
    ⟨some p.place, copy.2, Function.update parents.tree p.place (some (.file copy.1))⟩

end Machine

/-! ## Paths -/

def clonePath (mount : SessionMount) : PurePath := ⟨.root, mount.localPath⟩

def sessionPath (storagePath : List String) (mount : SessionMount) : PurePath :=
  (PurePath.join ⟨.root, storagePath⟩ (.of "sessions")).join (.of mount.sessionId)

def changesPath (storagePath : List String) (mount : SessionMount) : PurePath :=
  (sessionPath storagePath mount).join (.of "changes")

/-- `get_modified_path`, as it is written. -/
def modifiedPath (storagePath : List String) (mount : SessionMount) (path : String) : PurePath :=
  (changesPath storagePath mount).join (.of path)

def stateFilePath (storagePath : List String) (mount : SessionMount) : PurePath :=
  (sessionPath storagePath mount).join (.of "vfs_state.json")

/-! ## Operations -/

inductive Call where
  | op (op : Op)
  | apply (workspacePath : List String)

section Calls
variable (m : Machine) (lib : Library) (storagePath : List String) (s : State)

/-- The entry whose content `read_file` loads. -/
def loadedEntry (path : String) (load : Bool) (now : ℕ) : Option VirtualFile :=
  let key := normalizePath path
  match s.mount.files.get? key with
  | some vfile => if load = true ∧ vfile.content = none then some vfile else none
  | none =>
    if load = true ∧ (m.lookup s.disk ((clonePath s.mount).join (.of key))).isSome then some (untrackedFile now key)
    else none

/-- `_load_content`: the file that is read. -/
def loadAccess (vfile : VirtualFile) : Option (List String) :=
  let modified := modifiedPath storagePath s.mount vfile.path
  if (m.lookup s.disk modified).isSome then m.openRead s.disk modified
  else m.openRead s.disk ((clonePath s.mount).join (.of vfile.path))

/-- The path of the entry that `write_file` changes. -/
def writtenPath (path : String) (now : ℕ) : String :=
  (writtenFile lib now (s.mount.files.get? (normalizePath path)) (normalizePath path) []).path

/-- `persist_file_change`. -/
def writeAccesses (path : String) (content : Bytes) (now : ℕ) : List Access :=
  let change := m.store s.disk (modifiedPath storagePath s.mount (writtenPath lib s path now)) content
  let state := m.store change.disk (stateFilePath storagePath s.mount)
    (lib.dumps (saveMount lib (writtenMount lib now s path content)))
  change.opened.toList.map Access.write ++
    if change.complete then state.opened.toList.map Access.write else []

/-- One turn of the loop of `apply_to_workspace`, for an entry that has changes. -/
def applyEntry (workspacePath : List String) (t : FileTree) (vfile : VirtualFile) : List Access × FileTree :=
  let target := PurePath.join ⟨.root, workspacePath⟩ (.of vfile.path)
  if vfile.status = .deleted then
    match m.unlink t target with
    | some place => ([.remove place], Function.update t place none)
    | none => ([], t)
  else
    match vfile.content with
    | none => ([], t)
    | some content =>
      let stored := m.store t target content
      (stored.opened.toList.map Access.write, stored.disk)

def applyAccesses (workspacePath : List String) (t : FileTree) : List VirtualFile → List Access
  | [] => []
  | vfile :: rest =>
    let done := applyEntry m workspacePath t vfile
    done.1 ++ applyAccesses workspacePath done.2 rest

/-- The entries that `apply_to_workspace` does not skip. -/
def changedFiles : List VirtualFile := s.mount.files.values.filter VirtualFile.hasChanges

/-- The files that a call opens or removes. -/
def accesses : Call → List Access
  | .op (.read path load now) =>
    ((loadedEntry m s path load now).bind (loadAccess m storagePath s)).toList.map Access.read
  | .op (.write path content now) => writeAccesses m lib storagePath s path content now
  | .op (.delete _ _) => []
  | .apply workspacePath => applyAccesses m workspacePath s.disk (changedFiles s)

end Calls

/-! ## Containment -/

def Access.Allowed (reads writes : List String → Prop) : Access → Prop
  | .read place => reads place
  | .write place => writes place
  | .remove place => writes place

/-- Below the clone or below the directory of changes. -/
def MayRead (storagePath : List String) (s : State) (place : List String) : Prop :=
  StrictlyInside (clonePath s.mount).place place ∨ StrictlyInside (changesPath storagePath s.mount).place place

/-- Below the directory of the session, or below the workspace that changes are applied to. -/
def MayWrite (storagePath : List String) (s : State) : Call → List String → Prop
  | .op _, place => StrictlyInside (sessionPath storagePath s.mount).place place
  | .apply workspacePath, place => StrictlyInside (PurePath.place ⟨.root, workspacePath⟩) place

def Contained (m : Machine) (lib : Library) (storagePath : List String) (s : State) (call : Call) : Prop :=
  ∀ access ∈ accesses m lib storagePath s call,
    access.Allowed (MayRead storagePath s) (MayWrite storagePath s call)

/-! ## Where a text leads -/

/-- Where a text ends that is read from a directory. -/
def textEnd (base : PurePath) (text : String) : List String := (route base text).place

namespace Machine
variable (m : Machine) (t : FileTree) (base : PurePath) (text : String)

/-- There are directories all along the text, up to its last name. -/
structure Walks : Prop where
  usable : m.unusable (route base text) = false
  way : Along (fun q => t q = some .directory) [] (route base text).parts.dropLast

/-- A file is at the end of the text, and it is not refused. -/
structure FindsFile (refuses : List String → Bool) : Prop extends Walks m t base text where
  file : ∃ content, t (textEnd base text) = some (.file content)
  allowed : refuses (textEnd base text) = false

/-- A file can be at the end of the text, once the directories on the way to it are made. -/
structure FindsRoom : Prop where
  usable : m.unusable (route base text) = false
  usableWay : m.unusable (route base text).parent = false
  way : Along (fun q => FileTree.blocked m.refusesDirectory t q = false ∧ q ≠ textEnd base text) []
    (route base text).parts.dropLast
  free : t (textEnd base text) ≠ some .directory
  allowed : m.refusesFile (textEnd base text) = false

/-- The disk with the directories that are missing on the way to the end of the text, as far as they can be made. -/
def wayMade : FileTree := fun q =>
  if m.unusable (route base text).parent = false ∧
      q ∈ FileTree.passed m.refusesDirectory t (walkPlaces [] (route base text).parts.dropLast) ∧ t q = none then
    some .directory
  else t q

end Machine

/-! ## Texts that stay inside -/

/-- Read from the directory `base`, the text comes to `dir` and leads on below it. -/
def EndsBelow (dir : List String) (base : PurePath) (text : String) : Prop := Descends dir (route base text).parts

section Stays
variable (m : Machine) (storagePath : List String) (s : State)

def ReadsBelow (base : PurePath) (text : String) : Prop :=
  EndsBelow (clonePath s.mount).place base text ∨ EndsBelow (changesPath storagePath s.mount).place base text

/-- From the directory of changes the text leads where it should, if it leads to a file, and from the clone if it leads
to nothing there. -/
structure LoadStays (text : String) : Prop where
  change : m.FindsFile s.disk (changesPath storagePath s.mount) text m.refusesFile →
    ReadsBelow storagePath s (changesPath storagePath s.mount) text
  clone : ¬ (m.Walks s.disk (changesPath storagePath s.mount) text ∧
      s.disk (textEnd (changesPath storagePath s.mount) text) ≠ none) →
    m.FindsFile s.disk (clonePath s.mount) text m.refusesFile → ReadsBelow storagePath s (clonePath s.mount) text

/-- The path of an entry stays in the workspace, if there is a file to remove or room for one to write. -/
structure EntryStays (workspace : PurePath) (t : FileTree) (vfile : VirtualFile) : Prop where
  removed : vfile.status = .deleted → m.FindsFile t workspace vfile.path m.refusesRemoval →
    EndsBelow workspace.place workspace vfile.path
  written : vfile.status ≠ .deleted → vfile.content ≠ none → m.FindsRoom t workspace vfile.path →
    EndsBelow workspace.place workspace vfile.path

/-- What is on the disk after the turn of an entry. -/
inductive Turn (workspace : PurePath) (t : FileTree) (vfile : VirtualFile) : FileTree → Prop
  | absent (hdeleted : vfile.status = .deleted) (hfile : ¬ m.FindsFile t workspace vfile.path m.refusesRemoval) :
      Turn workspace t vfile t
  | removed (hdeleted : vfile.status = .deleted) (hfile : m.FindsFile t workspace vfile.path m.refusesRemoval) :
      Turn workspace t vfile (Function.update t (textEnd workspace vfile.path) none)
  | unloaded (hdeleted : vfile.status ≠ .deleted) (hcontent : vfile.content = none) : Turn workspace t vfile t
  | stopped {content : Bytes} (hdeleted : vfile.status ≠ .deleted) (hcontent : vfile.content = some content)
      (hroom : ¬ m.FindsRoom t workspace vfile.path) : Turn workspace t vfile (m.wayMade t workspace vfile.path)
  | written {content : Bytes} (hdeleted : vfile.status ≠ .deleted) (hcontent : vfile.content = some content)
      (hroom : m.FindsRoom t workspace vfile.path) : Turn workspace t vfile
        (Function.update (m.wayMade t workspace vfile.path) (textEnd workspace vfile.path)
          (some (.file (m.copied (textEnd workspace vfile.path) content).1)))

/-- Every entry stays in the workspace, on the disk that the entries before it leave. -/
def TurnsStay (workspace : PurePath) : FileTree → List VirtualFile → Prop
  | _, [] => True
  | t, vfile :: rest =>
    EntryStays m workspace t vfile ∧ ∀ t', Turn m workspace t vfile t' → TurnsStay workspace t' rest

/-- The paths of the client and of the entries stay where they should, wherever they lead to something. -/
def Stays : Call → Prop
  | .op (.read path load _) => load = true → ∀ key, LeavesKey path key →
      (∀ vfile, s.mount.files.get? key = some vfile → vfile.content = none → LoadStays m storagePath s vfile.path) ∧
      (s.mount.files.get? key = none → m.Walks s.disk (clonePath s.mount) key →
        s.disk (textEnd (clonePath s.mount) key) ≠ none → LoadStays m storagePath s key)
  | .op (.write path _ _) => ∀ key text, LeavesKey path key →
      text = ((s.mount.files.get? key).map VirtualFile.path).getD key →
      m.FindsRoom s.disk (changesPath storagePath s.mount) text →
      EndsBelow (sessionPath storagePath s.mount).place (changesPath storagePath s.mount) text
  | .op (.delete _ _) => True
  | .apply workspacePath => TurnsStay m ⟨.root, workspacePath⟩ s.disk (changedFiles s)

end Stays

/-! ## What is opened -/

theorem inside_join_iff (dir : List String) (base : PurePath) (text : String) :
    StrictlyInside dir (base.join (.of text)).place ↔ EndsBelow dir base text := by
  rw [join_of]
  exact inside_iff_descends dir _

theorem place_join (base : PurePath) (text : String) : (base.join (.of text)).place = textEnd base text := by
  rw [join_of]
  rfl

section Opened
variable {m : Machine} {t : FileTree} {base : PurePath} {text : String}

theorem Machine.lookup_eq_some_iff {node : Node} : m.lookup t (base.join (.of text)) = some node ↔
    m.Walks t base text ∧ t (textEnd base text) = some node := by
  unfold lookup
  rw [join_of]
  have hway : (∀ q ∈ (route base text).parent.places, t q = some .directory) ↔
      Along (fun q => t q = some .directory) [] (route base text).parts.dropLast := (along_iff ..).symm
  constructor
  · intro h
    split_ifs at h with hwalks
    exact ⟨⟨hwalks.1, hway.mp hwalks.2⟩, h⟩
  · rintro ⟨⟨husable, halong⟩, hend⟩
    rw [if_pos ⟨husable, hway.mpr halong⟩]
    exact hend

theorem Machine.lookup_isSome_iff : (m.lookup t (base.join (.of text))).isSome = true ↔
    m.Walks t base text ∧ t (textEnd base text) ≠ none := by
  rw [Option.isSome_iff_exists, Option.ne_none_iff_exists']
  exact ⟨fun ⟨node, h⟩ => ⟨(lookup_eq_some_iff.mp h).1, node, (lookup_eq_some_iff.mp h).2⟩,
    fun ⟨hwalks, node, h⟩ => ⟨node, lookup_eq_some_iff.mpr ⟨hwalks, h⟩⟩⟩

theorem Machine.fileAt_eq_some_iff {refuses : List String → Bool} {place : List String} :
    m.fileAt refuses t (base.join (.of text)) = some place ↔
      m.FindsFile t base text refuses ∧ textEnd base text = place := by
  unfold fileAt
  rw [place_join]
  constructor
  · intro h
    split at h
    · next content hlookup =>
      split_ifs at h with hrefuses
      obtain ⟨hwalks, hend⟩ := lookup_eq_some_iff.mp hlookup
      exact ⟨⟨hwalks, ⟨content, hend⟩, Bool.eq_false_iff.mpr hrefuses⟩, Option.some.inj h⟩
    · cases h
  · rintro ⟨⟨hwalks, ⟨content, hend⟩, hallowed⟩, rfl⟩
    rw [lookup_eq_some_iff.mpr ⟨hwalks, hend⟩]
    simp [hallowed]

/-- The directories that are made for a file. -/
theorem Machine.made_tree (q : List String) : (FileTree.mkdirs (m.unusable (route base text).parent) m.refusesDirectory t
    (route base text).parent.places).tree q = m.wayMade t base text q := by
  rw [FileTree.mkdirs_tree]
  unfold wayMade
  exact if_congr (FileTree.mem_mkdirs_iff _ q) rfl rfl

/-- The parents can be made, and the end of the text is then no directory. -/
theorem Machine.findsRoom_iff : m.FindsRoom t base text ↔
    (FileTree.mkdirs (m.unusable (route base text).parent) m.refusesDirectory t (route base text).parent.places).done =
        true ∧ m.unusable (route base text) = false ∧ m.wayMade t base text (textEnd base text) ≠ some .directory ∧
      m.refusesFile (textEnd base text) = false := by
  rw [FileTree.mkdirs_done_iff]
  constructor
  · intro h
    have hway := (along_iff _ _).mp h.way
    refine ⟨⟨h.usableWay, fun q hq => (hway q hq).1⟩, h.usable, ?_, h.allowed⟩
    have hnever : textEnd base text ∉
        FileTree.passed m.refusesDirectory t (walkPlaces [] (route base text).parts.dropLast) := fun hpassed =>
      (hway _ (List.takeWhile_subset _ hpassed)).2 rfl
    unfold wayMade
    rw [if_neg fun hmade => hnever hmade.2.1]
    exact h.free
  · rintro ⟨hmade, husable, hfree, hallowed⟩
    have hdirectory : ∀ q ∈ walkPlaces [] (route base text).parts.dropLast, q ≠ textEnd base text := by
      rintro q hq rfl
      refine hfree ?_
      rw [← made_tree]
      exact FileTree.directory_of_mkdirs (FileTree.mkdirs_done_iff _ |>.mpr hmade) hq
    refine ⟨husable, hmade.1, (along_iff _ _).mpr fun q hq => ⟨hmade.2 q hq, hdirectory q hq⟩, fun hend => hfree ?_,
      hallowed⟩
    unfold wayMade
    rw [hend, ite_self]

theorem Machine.store_fails_iff :
    ((FileTree.mkdirs (m.unusable (route base text).parent) m.refusesDirectory t
          (route base text).parent.places).done = false ∨ m.unusable (route base text) = true ∨
        (FileTree.mkdirs (m.unusable (route base text).parent) m.refusesDirectory t
          (route base text).parent.places).tree (route base text).place = some .directory ∨
        m.refusesFile (route base text).place = true) ↔ ¬ m.FindsRoom t base text := by
  rw [findsRoom_iff, made_tree, not_and_or, not_and_or, not_and_or, not_not, Bool.not_eq_true, Bool.not_eq_false,
    Bool.not_eq_false]
  rfl

theorem Machine.store_of_room (h : m.FindsRoom t base text) (content : Bytes) :
    m.store t (base.join (.of text)) content = ⟨some (textEnd base text), (m.copied (textEnd base text) content).2,
      Function.update (m.wayMade t base text) (textEnd base text)
        (some (.file (m.copied (textEnd base text) content).1))⟩ := by
  unfold store
  rw [join_of]
  simp only
  rw [if_neg (fun hfails => store_fails_iff.mp hfails h), funext made_tree]
  rfl

theorem Machine.store_of_no_room (h : ¬ m.FindsRoom t base text) (content : Bytes) :
    m.store t (base.join (.of text)) content = ⟨none, false, m.wayMade t base text⟩ := by
  unfold store
  rw [join_of]
  simp only
  rw [if_pos (store_fails_iff.mpr h), funext made_tree]

theorem Machine.opened_eq_some_iff {content : Bytes} {place : List String} :
    (m.store t (base.join (.of text)) content).opened = some place ↔
      m.FindsRoom t base text ∧ textEnd base text = place := by
  by_cases hroom : m.FindsRoom t base text
  · rw [store_of_room hroom]
    exact Option.some_inj.trans (and_iff_right hroom).symm
  · rw [store_of_no_room hroom]
    exact iff_of_false nofun fun h => hroom h.1

end Opened

section Calls
variable {m : Machine} {lib : Library} {storagePath : List String} {s : State}

/-- The file that is read for the path of an entry. -/
theorem loadAccess_eq_some_iff {vfile : VirtualFile} {place : List String} :
    loadAccess m storagePath s vfile = some place ↔
      (m.FindsFile s.disk (changesPath storagePath s.mount) vfile.path m.refusesFile ∧
        textEnd (changesPath storagePath s.mount) vfile.path = place) ∨
      (¬ (m.Walks s.disk (changesPath storagePath s.mount) vfile.path ∧
          s.disk (textEnd (changesPath storagePath s.mount) vfile.path) ≠ none) ∧
        m.FindsFile s.disk (clonePath s.mount) vfile.path m.refusesFile ∧
        textEnd (clonePath s.mount) vfile.path = place) := by
  unfold loadAccess modifiedPath
  simp only
  by_cases hthere : (m.lookup s.disk ((changesPath storagePath s.mount).join (.of vfile.path))).isSome = true
  · rw [if_pos hthere]
    refine Machine.fileAt_eq_some_iff.trans ⟨Or.inl, fun h => h.resolve_right fun hnone => ?_⟩
    exact hnone.1 (Machine.lookup_isSome_iff.mp hthere)
  · rw [if_neg hthere]
    refine Machine.fileAt_eq_some_iff.trans ⟨fun h => Or.inr ⟨fun hwalks => hthere (Machine.lookup_isSome_iff.mpr hwalks), h⟩, fun h => ?_⟩
    rcases h with ⟨hfile, -⟩ | ⟨-, h⟩
    · obtain ⟨content, hcontent⟩ := hfile.file
      refine absurd (Machine.lookup_isSome_iff.mpr ⟨hfile.toWalks, ?_⟩) hthere
      rw [hcontent]
      exact Option.some_ne_none _
    · exact h

theorem mayRead_iff {base : PurePath} {text : String} :
    MayRead storagePath s (textEnd base text) ↔ ReadsBelow storagePath s base text := by
  unfold MayRead ReadsBelow
  rw [← place_join, inside_join_iff, inside_join_iff]

theorem loadAccess_allowed_iff {vfile : VirtualFile} :
    (∀ place, loadAccess m storagePath s vfile = some place → MayRead storagePath s place) ↔
      LoadStays m storagePath s vfile.path := by
  constructor
  · intro h
    exact ⟨fun hfile => mayRead_iff.mp (h _ (loadAccess_eq_some_iff.mpr (Or.inl ⟨hfile, rfl⟩))),
      fun hnone hfile => mayRead_iff.mp (h _ (loadAccess_eq_some_iff.mpr (Or.inr ⟨hnone, hfile, rfl⟩)))⟩
  · rintro ⟨hchange, hclone⟩ place hplace
    rcases loadAccess_eq_some_iff.mp hplace with ⟨hfile, rfl⟩ | ⟨hnone, hfile, rfl⟩
    · exact mayRead_iff.mpr (hchange hfile)
    · exact mayRead_iff.mpr (hclone hnone hfile)

/-- An entry that is loaded: one without a content in the index, or a new one for a file that is found. -/
theorem loadedEntry_eq_some_iff {path : String} {load : Bool} {now : ℕ} {vfile : VirtualFile} :
    loadedEntry m s path load now = some vfile ↔ load = true ∧
      ((s.mount.files.get? (normalizePath path) = some vfile ∧ vfile.content = none) ∨
        (s.mount.files.get? (normalizePath path) = none ∧ m.Walks s.disk (clonePath s.mount) (normalizePath path) ∧
          s.disk (textEnd (clonePath s.mount) (normalizePath path)) ≠ none ∧
          untrackedFile now (normalizePath path) = vfile)) := by
  unfold loadedEntry
  simp only
  cases hget : s.mount.files.get? (normalizePath path) with
  | some entry =>
    simp only
    split_ifs with hload
    · constructor
      · rintro ⟨⟩
        exact ⟨hload.1, Or.inl ⟨rfl, hload.2⟩⟩
      · rintro ⟨-, ⟨⟨⟩, -⟩ | ⟨⟨⟩, -⟩⟩
        rfl
    · refine iff_of_false not_false ?_
      rintro ⟨hloads, ⟨⟨⟩, hcontent⟩ | ⟨⟨⟩, -⟩⟩
      exact hload ⟨hloads, hcontent⟩
  | none =>
    simp only
    split_ifs with hload
    · obtain ⟨hwalks, hthere⟩ := Machine.lookup_isSome_iff.mp hload.2
      constructor
      · intro h
        exact ⟨hload.1, Or.inr ⟨True.intro, hwalks, hthere, Option.some.inj h⟩⟩
      · rintro ⟨-, ⟨⟨⟩, -⟩ | ⟨-, -, -, rfl⟩⟩
        rfl
    · refine iff_of_false not_false ?_
      rintro ⟨hloads, ⟨⟨⟩, -⟩ | ⟨-, hwalks, hthere, -⟩⟩
      exact hload ⟨hloads, Machine.lookup_isSome_iff.mpr ⟨hwalks, hthere⟩⟩

theorem read_contained_iff {path : String} {load : Bool} {now : ℕ} :
    Contained m lib storagePath s (.op (.read path load now)) ↔ Stays m storagePath s (.op (.read path load now)) := by
  have haccess : Contained m lib storagePath s (.op (.read path load now)) ↔
      ∀ vfile, loadedEntry m s path load now = some vfile →
        ∀ place, loadAccess m storagePath s vfile = some place → MayRead storagePath s place := by
    unfold Contained accesses
    constructor
    · intro h vfile hvfile place hplace
      exact h (.read place) (List.mem_map_of_mem (Option.mem_toList.mpr (Option.bind_eq_some_iff.mpr
        ⟨vfile, hvfile, hplace⟩)))
    · intro h access hmem
      obtain ⟨place, hplace, rfl⟩ := List.mem_map.mp hmem
      obtain ⟨vfile, hvfile, hload⟩ := Option.bind_eq_some_iff.mp (Option.mem_toList.mp hplace)
      exact h vfile hvfile place hload
  rw [haccess]
  constructor
  · intro h hload key hkey
    obtain rfl := (normalizePath_eq_iff path key).mpr hkey
    refine ⟨fun vfile hget hcontent => ?_, fun hget hwalks hthere => ?_⟩
    · exact loadAccess_allowed_iff.mp (h vfile (loadedEntry_eq_some_iff.mpr ⟨hload, Or.inl ⟨hget, hcontent⟩⟩))
    · exact loadAccess_allowed_iff.mp
        (h _ (loadedEntry_eq_some_iff.mpr ⟨hload, Or.inr ⟨hget, hwalks, hthere, rfl⟩⟩))
  · intro h vfile hvfile
    obtain ⟨hload, hentry⟩ := loadedEntry_eq_some_iff.mp hvfile
    obtain ⟨hentries, hnew⟩ := h hload _ ((normalizePath_eq_iff path _).mp rfl)
    rcases hentry with ⟨hget, hcontent⟩ | ⟨hget, hwalks, hthere, rfl⟩
    · exact loadAccess_allowed_iff.mpr (hentries vfile hget hcontent)
    · exact loadAccess_allowed_iff.mpr (hnew hget hwalks hthere)

/-- The state file lies in the directory of the session, whatever that is. -/
theorem stateFilePath_inside (storagePath : List String) (mount : SessionMount) :
    StrictlyInside (sessionPath storagePath mount).place (stateFilePath storagePath mount).place := by
  have hname : PurePath.of "vfs_state.json" = ⟨.relative, ["vfs_state.json"]⟩ := by decide +kernel
  have hplace : (stateFilePath storagePath mount).place =
      (sessionPath storagePath mount).place ++ ["vfs_state.json"] := by
    unfold stateFilePath PurePath.place PurePath.join
    rw [hname, if_pos rfl, List.foldl_append, List.foldl_cons, List.foldl_nil]
    exact walk_plain _ (by decide)
  rw [hplace]
  exact ⟨List.prefix_append _ _, fun h => absurd (List.append_right_eq_self.mp h) (List.cons_ne_nil _ _)⟩

/-- The entry that is written has its own path, or the key. -/
theorem writtenPath_eq (path : String) (now : ℕ) : writtenPath lib s path now =
    ((s.mount.files.get? (normalizePath path)).map VirtualFile.path).getD (normalizePath path) := by
  unfold writtenPath
  cases s.mount.files.get? (normalizePath path) <;> rfl

theorem write_contained_iff {path : String} {content : Bytes} {now : ℕ} :
    Contained m lib storagePath s (.op (.write path content now)) ↔
      Stays m storagePath s (.op (.write path content now)) := by
  have hplace : ∀ text, EndsBelow (sessionPath storagePath s.mount).place (changesPath storagePath s.mount) text ↔
      StrictlyInside (sessionPath storagePath s.mount).place (textEnd (changesPath storagePath s.mount) text) := by
    intro text
    rw [← place_join, inside_join_iff]
  constructor
  · rintro h key text hkey rfl hroom
    obtain rfl := (normalizePath_eq_iff path key).mpr hkey
    rw [← @writtenPath_eq lib s path now] at hroom ⊢
    refine (hplace _).mpr (h (.write _) (List.mem_append_left _ (List.mem_map_of_mem (Option.mem_toList.mpr ?_))))
    exact Machine.opened_eq_some_iff.mpr ⟨hroom, rfl⟩
  · intro h access hmem
    unfold accesses writeAccesses at hmem
    rcases List.mem_append.mp hmem with hchange | hstate
    · obtain ⟨place, hopened, rfl⟩ := List.mem_map.mp hchange
      obtain ⟨hroom, rfl⟩ := Machine.opened_eq_some_iff.mp (Option.mem_toList.mp hopened)
      exact (hplace _).mp (h _ _ ((normalizePath_eq_iff path _).mp rfl) (writtenPath_eq path now) hroom)
    · split_ifs at hstate
      · obtain ⟨place, hopened, rfl⟩ := List.mem_map.mp hstate
        obtain ⟨-, rfl⟩ := Machine.opened_eq_some_iff.mp (Option.mem_toList.mp hopened)
        rw [← place_join]
        exact stateFilePath_inside storagePath s.mount
      · cases hstate

/-! ### Applying -/

section Entries
variable {workspacePath : List String} {t : FileTree} {vfile : VirtualFile}

/-- The disk after the turn of an entry is the one that the code leaves. -/
theorem turn_iff {t' : FileTree} :
    Turn m ⟨.root, workspacePath⟩ t vfile t' ↔ t' = (applyEntry m workspacePath t vfile).2 := by
  unfold applyEntry
  simp only
  constructor
  · intro h
    cases h with
    | absent hdeleted hfile =>
      rw [if_pos hdeleted]
      cases hunlink : m.unlink t (PurePath.join ⟨.root, workspacePath⟩ (.of vfile.path)) with
      | some place => exact absurd (Machine.fileAt_eq_some_iff.mp hunlink).1 hfile
      | none => rfl
    | removed hdeleted hfile =>
      rw [if_pos hdeleted, show m.unlink t (PurePath.join ⟨.root, workspacePath⟩ (.of vfile.path)) = some _ from
        Machine.fileAt_eq_some_iff.mpr ⟨hfile, rfl⟩]
    | unloaded hdeleted hcontent => rw [if_neg hdeleted, hcontent]
    | stopped hdeleted hcontent hroom =>
      rw [if_neg hdeleted, hcontent]
      simp only
      rw [Machine.store_of_no_room hroom]
    | written hdeleted hcontent hroom =>
      rw [if_neg hdeleted, hcontent]
      simp only
      rw [Machine.store_of_room hroom]
  · rintro rfl
    by_cases hdeleted : vfile.status = .deleted
    · rw [if_pos hdeleted]
      cases hunlink : m.unlink t (PurePath.join ⟨.root, workspacePath⟩ (.of vfile.path)) with
      | some place =>
        obtain ⟨hfile, rfl⟩ := Machine.fileAt_eq_some_iff.mp hunlink
        exact .removed hdeleted hfile
      | none =>
        refine .absent hdeleted fun hfile => ?_
        cases hunlink.symm.trans (Machine.fileAt_eq_some_iff.mpr ⟨hfile, rfl⟩)
    · rw [if_neg hdeleted]
      cases hcontent : vfile.content with
      | none => exact .unloaded hdeleted hcontent
      | some content =>
        simp only
        by_cases hroom : m.FindsRoom t ⟨.root, workspacePath⟩ vfile.path
        · rw [Machine.store_of_room hroom]
          exact .written hdeleted hcontent hroom
        · rw [Machine.store_of_no_room hroom]
          exact .stopped hdeleted hcontent hroom

/-- One entry is applied inside the workspace exactly when it stays there. -/
theorem entry_contained_iff :
    (∀ access ∈ (applyEntry m workspacePath t vfile).1,
      access.Allowed (MayRead storagePath s) (MayWrite storagePath s (.apply workspacePath))) ↔
      EntryStays m ⟨.root, workspacePath⟩ t vfile := by
  have hplace : EndsBelow (PurePath.place ⟨.root, workspacePath⟩) ⟨.root, workspacePath⟩ vfile.path ↔
      StrictlyInside (PurePath.place ⟨.root, workspacePath⟩) (textEnd ⟨.root, workspacePath⟩ vfile.path) := by
    rw [← place_join, inside_join_iff]
  unfold applyEntry
  simp only
  by_cases hdeleted : vfile.status = .deleted
  · rw [if_pos hdeleted]
    cases hunlink : m.unlink t (PurePath.join ⟨.root, workspacePath⟩ (.of vfile.path)) with
    | some place =>
      obtain ⟨hfile, rfl⟩ := Machine.fileAt_eq_some_iff.mp hunlink
      constructor
      · exact fun h => ⟨fun _ _ => hplace.mpr (h _ List.mem_cons_self), fun hkept => absurd hdeleted hkept⟩
      · intro h access hmem
        rw [List.mem_singleton.mp hmem]
        exact hplace.mp (h.removed hdeleted hfile)
    | none =>
      refine iff_of_true nofun ⟨fun _ hfile => ?_, fun hkept => absurd hdeleted hkept⟩
      cases hunlink.symm.trans (Machine.fileAt_eq_some_iff.mpr ⟨hfile, rfl⟩)
  · rw [if_neg hdeleted]
    cases hcontent : vfile.content with
    | none => exact iff_of_true nofun ⟨fun h => absurd h hdeleted, fun _ h => absurd hcontent h⟩
    | some content =>
      simp only
      constructor
      · intro h
        refine ⟨fun hgone => absurd hgone hdeleted, fun _ _ hroom => hplace.mpr (h (.write _) ?_)⟩
        exact List.mem_map_of_mem (Option.mem_toList.mpr (Machine.opened_eq_some_iff.mpr ⟨hroom, rfl⟩))
      · intro h access hmem
        obtain ⟨place, hopened, rfl⟩ := List.mem_map.mp hmem
        obtain ⟨hroom, rfl⟩ := Machine.opened_eq_some_iff.mp (Option.mem_toList.mp hopened)
        refine hplace.mp (h.written hdeleted ?_ hroom)
        rw [hcontent]
        exact Option.some_ne_none content

end Entries

theorem applyAccesses_contained_iff {workspacePath : List String} {t : FileTree} {files : List VirtualFile} :
    (∀ access ∈ applyAccesses m workspacePath t files,
      access.Allowed (MayRead storagePath s) (MayWrite storagePath s (.apply workspacePath))) ↔
      TurnsStay m ⟨.root, workspacePath⟩ t files := by
  induction files generalizing t with
  | nil => exact iff_of_true nofun True.intro
  | cons vfile files ih =>
    unfold applyAccesses TurnsStay
    rw [List.forall_mem_append, entry_contained_iff, ih]
    exact and_congr_right fun _ => ⟨fun h t' ht' => turn_iff.mp ht' ▸ h, fun h => h _ (turn_iff.mpr rfl)⟩

end Calls

/-- **A call opens and removes files only where it should exactly when the path of the client and the paths of the
entries lead below the directories that they should, wherever they lead to a file or to room for one.** -/
theorem contained_iff_stays (m : Machine) (lib : Library) (storagePath : List String) (s : State) (call : Call) :
    Contained m lib storagePath s call ↔ Stays m storagePath s call := by
  cases call with
  | op op =>
    cases op with
    | read path load now => exact read_contained_iff
    | write path content now => exact write_contained_iff
    | delete path now => exact iff_of_true nofun True.intro
  | apply workspacePath => exact applyAccesses_contained_iff

/-! ## Relative paths -/

section Relative
variable {m : Machine} {lib : Library} {storagePath : List String} {s : State}

theorem of_relative {path : String} (h : RelativePath path) : PurePath.of path = ⟨.relative, pathNames path⟩ := by
  have hproper : (pathNames path).filter (fun name => decide (name ≠ "" ∧ name ≠ ".")) = pathNames path :=
    List.filter_eq_self.mpr fun name hname => decide_eq_true ⟨(h name hname).1, (h name hname).2.1⟩
  unfold PurePath.of
  rw [PurePath.anchorOf_relative.mpr h.not_absolute, ContainerPaths.pureParts_eq, hproper]

theorem join_relative (p : PurePath) {path : String} (h : RelativePath path) :
    p.join (.of path) = ⟨p.anchor, p.parts ++ pathNames path⟩ := by
  unfold PurePath.join
  rw [of_relative h, if_pos rfl]

theorem place_join_relative (p : PurePath) {path : String} (h : RelativePath path) :
    (p.join (.of path)).place = p.place ++ pathNames path := by
  rw [join_relative p h]
  unfold PurePath.place
  rw [List.foldl_append]
  exact foldl_walk_plain h _

theorem inside_of_relative (p : PurePath) {path : String} (h : RelativePath path) :
    StrictlyInside p.place (p.join (.of path)).place := by
  have hnames : pathNames path ≠ [] := fun hnil =>
    List.splitOn_ne_nil '/' path.toList (List.map_eq_nil_iff.mp hnil)
  rw [place_join_relative p h]
  exact ⟨List.prefix_append _ _, fun heq => hnames (List.append_right_eq_self.mp heq)⟩

/-- The changes are kept below the directory of the session. -/
theorem modified_inside_session (storagePath : List String) (mount : SessionMount) {path : String}
    (h : RelativePath path) :
    StrictlyInside (sessionPath storagePath mount).place (modifiedPath storagePath mount path).place := by
  have hchanges : (changesPath storagePath mount).place = (sessionPath storagePath mount).place ++ ["changes"] :=
    place_join_relative _ (by unfold RelativePath; decide +kernel)
  obtain ⟨hle, -⟩ := inside_of_relative (changesPath storagePath mount) h
  rw [hchanges] at hle
  refine ⟨(List.prefix_append _ _).trans hle, fun heq => ?_⟩
  have hlength := hle.length_le
  unfold modifiedPath at heq
  rw [heq, List.length_append, List.length_singleton] at hlength
  omega

theorem endsBelow_of_relative (base : PurePath) {path : String} (h : RelativePath path) :
    EndsBelow base.place base path :=
  (inside_join_iff base.place base path).mp (inside_of_relative base h)

theorem loadStays_of_relative {path : String} (h : RelativePath path) : LoadStays m storagePath s path :=
  ⟨fun _ => Or.inr (endsBelow_of_relative _ h), fun _ _ => Or.inl (endsBelow_of_relative _ h)⟩

theorem turnsStay_of_relative {workspace : PurePath} {files : List VirtualFile}
    (hfiles : ∀ vfile ∈ files, RelativePath vfile.path) (t : FileTree) : TurnsStay m workspace t files := by
  induction files generalizing t with
  | nil => exact True.intro
  | cons vfile files ih =>
    have hends := endsBelow_of_relative workspace (hfiles vfile List.mem_cons_self)
    exact ⟨⟨fun _ _ => hends, fun _ _ _ => hends⟩,
      fun t' _ => ih (fun v hv => hfiles v (List.mem_cons_of_mem _ hv)) t'⟩

/-- Paths without `..` that are no absolute paths never leave. -/
theorem contained_of_relative (hentries : ∀ key vfile, s.mount.files.get? key = some vfile → RelativePath vfile.path)
    (call : Call) (hcall : ∀ op, call = .op op → RelativePath (normalizePath op.path)) :
    Contained m lib storagePath s call := by
  rw [contained_iff_stays]
  cases call with
  | apply workspacePath =>
    refine turnsStay_of_relative (fun vfile hvfile => ?_) s.disk
    obtain ⟨key, hget⟩ := (OrderedDict.mem_values_iff _ _).mp (List.mem_of_mem_filter hvfile)
    exact hentries key vfile hget
  | op op =>
    have hkey := hcall op rfl
    cases op with
    | delete path now => exact True.intro
    | read path load now =>
      intro _ key hleaves
      obtain rfl := (normalizePath_eq_iff path key).mpr hleaves
      exact ⟨fun vfile hget _ => loadStays_of_relative (hentries _ _ hget), fun _ _ _ => loadStays_of_relative hkey⟩
    | write path content now =>
      intro key text hleaves htext _
      obtain rfl := (normalizePath_eq_iff path key).mpr hleaves
      refine (inside_join_iff _ _ text).mp (modified_inside_session storagePath s.mount ?_)
      rw [htext]
      cases hget : s.mount.files.get? (normalizePath path) with
      | none => exact hkey
      | some entry => exact hentries _ _ hget

end Relative

/-! ## A run -/

/-- A machine that refuses nothing. -/
def plainMachine : Machine where
  unusable _ := false
  refusesDirectory _ := false
  refusesFile _ := false
  refusesRemoval _ := false
  copied _ content := (content, true)

/-- The disk of the clone with the accounts of the system. -/
def accountsMount : State where
  mount := noteMount.mount
  disk := fun q =>
    if q = ["etc"] then some .directory
    else if q = ["etc", "passwd"] then some (.file hiBytes)
    else noteDisk q

/-- Taking the workspace off the path leaves an absolute one. -/
theorem accounts_are_read : ¬ ∀ (m : Machine) (lib : Library) (storagePath : List String) (s : State) (call : Call),
    Contained m lib storagePath s call := by
  intro h
  have hread : Access.read ["etc", "passwd"] ∈ accesses plainMachine noteLibrary noteStorage accountsMount
      (.op (.read "workspace//etc/passwd" true 0)) := by decide +kernel
  have hallowed := h plainMachine noteLibrary noteStorage accountsMount _ _ hread
  rcases hallowed with hinside | hinside
  · exact absurd hinside (by decide +kernel)
  · exact absurd hinside (by decide +kernel)

end KernelRuntime.Gvfs
