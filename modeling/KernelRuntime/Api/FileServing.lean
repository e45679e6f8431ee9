import KernelRuntime.Api.SessionConfig
import KernelRuntime.Foundations.LinkTree
import KernelRuntime.Governance.PurePaths

/-! # Files that the routes serve

`get_workspace_file` serves a file of a session and `get_artifact` an image from the directory for temporary files.
The disk has links, as the commands of an agent may make them; both routes compare the resolved path with their root. -/

namespace KernelRuntime.FileServing
open SessionConfig (Owns httpException)
open LinkTree
set_option autoImplicit false

/-- `WORKSPACE_ROOT`, which is resolved at the start, `tempfile.gettempdir()`, the directory of the process, and how
deep calls may be nested. -/
structure Machine where
  workspaceRoot : List String
  tempDir : String
  cwd : List String
  recursionLimit : ℕ

/-- `get_session_workspace`. -/
def getSessionWorkspace (m : Machine) (tenantId sessionId : String) : PurePath :=
  ((⟨.root, m.workspaceRoot⟩ : PurePath).join (.of ("t_" ++ shortId tenantId))).join (.of ("s_" ++ shortId sessionId))

/-- The names of a path from the top of the disk. -/
def Machine.names (m : Machine) (p : PurePath) : List String :=
  if p.anchor = .relative then m.cwd ++ p.parts else p.parts

/-- The error of a path that is not resolved. -/
def resolveError : ResolveError → PyError
  | .recursion => ⟨.other, "maximum recursion depth exceeded"⟩
  | .loop place => ⟨.other, "Symlink loop from '" ++ pathText place ++ "'"⟩

/-- `path.resolve()`. -/
def resolvePath (m : Machine) (t : LinkTree) (p : PurePath) : Except PyError (List String) :=
  (t.resolve m.recursionLimit (m.names p)).mapError resolveError

/-- `FileResponse(path)` of a path that is a file. -/
def fileResponse (t : LinkTree) (place : List String) (missing : String) : Except PyError Bytes :=
  match stat t place with
  | .ok (some (.file content)) => .ok content
  | _ => .error (httpException "404" missing)

def getWorkspaceFile (m : Machine) (t : LinkTree) (sessions : List SessionModel) (sessionId tenantId path : String) :
    Except PyError Bytes :=
  if (sessions.find? fun s => decide (Owns sessionId tenantId s)).isNone then
    .error (httpException "404" "Session not found")
  else do
    let workspace := getSessionWorkspace m tenantId sessionId
    let requested ← resolvePath m t (workspace.join (.of path))
    if workspace.parts <+: requested then fileResponse t requested "File not found"
    else .error (httpException "403" "Access denied")

/-- `path.suffix` for a name. -/
def suffix (name : String) : String :=
  let letters := name.toList.reverse.takeWhile (· ≠ '.')
  match name.toList.reverse.dropWhile (· ≠ '.') with
  | '.' :: stem => if letters = [] ∨ stem = [] then "" else String.ofList ('.' :: letters.reverse)
  | _ => ""

def imageSuffixes : List String := [".png", ".jpg", ".jpeg", ".webp", ".gif"]

/-- `suffix.lower()`, as far as it can become one of the suffixes above. -/
def lower (text : String) : String := String.ofList (text.toList.map Char.toLower)

def getArtifact (m : Machine) (t : LinkTree) (path : String) : Except PyError Bytes := do
  let tempRoot ← resolvePath m t (.of m.tempDir)
  let requested ← resolvePath m t (.of path)
  if tempRoot <+: requested then
    let content ← fileResponse t requested "Artifact not found"
    if lower (suffix (requested.getLast?.getD "")) ∈ imageSuffixes then return content
    else .error (httpException "403" "Access denied: Only image artifacts are permitted")
  else .error (httpException "403" "Access denied: Artifact outside temp root")

example : suffix "shot.final.PNG" = ".PNG" ∧ suffix ".png" = "" ∧ suffix "shot." = "" := by decide +kernel

variable {m : Machine} {t : LinkTree}

/-! ## Resolution -/

theorem resolvePath_of_settles {p : PurePath} (h : Settles t m.recursionLimit (m.names p)) :
    ∃ place, resolvePath m t p = .ok place ∧ Resolves t [] (m.names p) place ∧ LinkFree t place := by
  obtain ⟨place, hplace, hresolves, hfree⟩ := resolve_of_settles h
  refine ⟨place, ?_, hresolves, hfree⟩
  unfold resolvePath
  rw [hplace]
  rfl

theorem fileResponse_iff {place : List String} (hfree : LinkFree t place) {missing : String} {content : Bytes} :
    fileResponse t place missing = .ok content ↔ FileAt t place content := by
  rw [← stat_file_iff hfree]
  unfold fileResponse
  split
  · rename_i found hfound
    rw [hfound]
    simp
  · rename_i hother
    constructor
    · rintro ⟨⟩
    · intro h
      exact absurd h (hother content)

/-- A file of a place below a root, when that is where the path leads. -/
theorem below_iff {names root place : List String} (hresolves : Resolves t [] names place) (hfree : LinkFree t place)
    (missing : String) {content : Bytes} :
    (root <+: place ∧ fileResponse t place missing = .ok content) ↔
      ∃ rest, Resolves t [] names (root ++ rest) ∧ FileAt t (root ++ rest) content := by
  rw [fileResponse_iff hfree]
  constructor
  · rintro ⟨⟨rest, rfl⟩, hfile⟩
    exact ⟨rest, hresolves, hfile⟩
  · rintro ⟨rest, hresolves', hfile⟩
    obtain rfl := hresolves.unique hresolves'
    exact ⟨List.prefix_append _ _, hfile⟩

/-! ## What is served -/

/-- Where no loop of links is met, an image is served just when it lies itself in the directory for temporary files. -/
theorem getArtifact_iff {path : String} (htemp : Settles t m.recursionLimit (m.names (.of m.tempDir)))
    (hsettles : Settles t m.recursionLimit (m.names (.of path))) (content : Bytes) :
    getArtifact m t path = .ok content ↔
      ∃ root rest, Resolves t [] (m.names (.of m.tempDir)) root ∧ Resolves t [] (m.names (.of path)) (root ++ rest) ∧
        FileAt t (root ++ rest) content ∧ lower (suffix ((root ++ rest).getLast?.getD "")) ∈ imageSuffixes := by
  obtain ⟨root, hroot, hresolvesRoot, _⟩ := resolvePath_of_settles htemp
  obtain ⟨place, hplace, hresolves, hfree⟩ := resolvePath_of_settles hsettles
  have hcases : getArtifact m t path = .ok content ↔
      (root <+: place ∧ fileResponse t place "Artifact not found" = .ok content) ∧
        lower (suffix (place.getLast?.getD "")) ∈ imageSuffixes := by
    unfold getArtifact
    simp only [hroot, hplace, bind, Except.bind]
    split_ifs with hin himage
    · cases fileResponse t place "Artifact not found" <;> simp [hin, himage, pure, Except.pure]
    · cases fileResponse t place "Artifact not found" <;> simp [himage]
    · simp [hin]
  rw [hcases, below_iff hresolves hfree "Artifact not found"]
  constructor
  · rintro ⟨⟨rest, hrest, hfile⟩, himage⟩
    rw [hresolves.unique hrest] at himage
    exact ⟨root, rest, hresolvesRoot, hrest, hfile, himage⟩
  · rintro ⟨root', rest, hroot', hrest, hfile, himage⟩
    rw [← hresolvesRoot.unique hroot'] at hrest hfile himage
    rw [hresolves.unique hrest]
    exact ⟨⟨rest, hrest, hfile⟩, himage⟩

/-- **Where no loop of links is met, `get_workspace_file` serves just the files that lie in the directory of the session
itself, whatever the links of the session point to, and only to its tenant.** -/
theorem getWorkspaceFile_iff (sessions : List SessionModel) (sessionId tenantId path : String)
    (hsettles : Settles t m.recursionLimit (m.names ((getSessionWorkspace m tenantId sessionId).join (.of path))))
    (content : Bytes) :
    getWorkspaceFile m t sessions sessionId tenantId path = .ok content ↔
      (∃ s ∈ sessions, Owns sessionId tenantId s) ∧
        ∃ rest, Resolves t [] (m.names ((getSessionWorkspace m tenantId sessionId).join (.of path)))
            ((getSessionWorkspace m tenantId sessionId).parts ++ rest) ∧
          FileAt t ((getSessionWorkspace m tenantId sessionId).parts ++ rest) content := by
  obtain ⟨place, hplace, hresolves, hfree⟩ := resolvePath_of_settles hsettles
  rw [← below_iff hresolves hfree "File not found"]
  have hfind : (sessions.find? fun s => decide (Owns sessionId tenantId s)).isNone = true ↔
      ¬ ∃ s ∈ sessions, Owns sessionId tenantId s := by
    simp
  unfold getWorkspaceFile
  simp only [hplace, bind, Except.bind, hfind]
  split_ifs with howned hin
  · exact ⟨fun h => ⟨howned, hin, h⟩, fun h => h.2.2⟩
  · refine iff_of_false ?_ fun h => hin h.2.1
    rintro ⟨⟩
  · refine iff_of_false ?_ fun h => howned h.1
    rintro ⟨⟩

/-! ## A session with links -/

/-- The session has notes, a link to them, one to the secret of the machine, and one to itself. -/
def linkedDisk : LinkTree := fun place =>
  if place ∈ [[], ["srv"], ["srv", "t_acme"], ["srv", "t_acme", "s_s1"], ["etc"]] then some .directory
  else if place = ["srv", "t_acme", "s_s1", "notes"] then some (.file [104, 105])
  else if place = ["srv", "t_acme", "s_s1", "latest"] then some (.link false ["gone", "..", "notes"])
  else if place = ["srv", "t_acme", "s_s1", "evil"] then some (.link true ["etc", "secret"])
  else if place = ["srv", "t_acme", "s_s1", "loop"] then some (.link false ["loop"])
  else if place = ["etc", "secret"] then some (.file [0]) else none

def server : Machine := ⟨["srv"], "/tmp", ["app"], 900⟩

def acmeSession : SessionModel := ⟨"s1", "acme", "developer", [], "auto", []⟩

theorem latest_is_served :
    getWorkspaceFile server linkedDisk [acmeSession] "s1" "acme" "docs/../latest" = .ok [104, 105] := by
  have hsettles : Settles linkedDisk server.recursionLimit
      (server.names ((getSessionWorkspace server "acme" "s1").join (.of "docs/../latest"))) := by decide +kernel
  have hreal : realpath linkedDisk server.recursionLimit
      (server.names ((getSessionWorkspace server "acme" "s1").join (.of "docs/../latest"))) =
        some ((getSessionWorkspace server "acme" "s1").parts ++ ["notes"]) := by decide +kernel
  obtain ⟨place, hplace, hresolves, hfree⟩ := realpath_of_settles hsettles
  obtain rfl := Option.some.inj (hplace.symm.trans hreal)
  exact (getWorkspaceFile_iff [acmeSession] "s1" "acme" "docs/../latest" hsettles [104, 105]).mpr
    ⟨⟨acmeSession, List.mem_singleton_self _, by decide⟩, ["notes"], hresolves,
      (stat_file_iff hfree).mp (by decide +kernel)⟩

example : getWorkspaceFile server linkedDisk [acmeSession] "s1" "acme" "evil" =
    .error (httpException "403" "Access denied") := by decide +kernel

-- A loop of links ends the resolution: the link behind it is not followed, and served as if it were a file.
example : getWorkspaceFile server linkedDisk [acmeSession] "s1" "acme" "loop/../evil" = .ok [0] := by decide +kernel

end KernelRuntime.FileServing
