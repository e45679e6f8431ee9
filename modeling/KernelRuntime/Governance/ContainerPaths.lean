import KernelRuntime.Governance.SessionIsolation
import KernelRuntime.Tools.Router

/-! # The two names of a workspace path

A path is named from the root of its session, or under `/workspace` as inside the container. On a disk without links
both names lead to one place, and no name leads out of the root except into the temporary directory. A name that the
system cannot be asked about, with a NUL or a character that does not encode, is an error of its own. -/

namespace KernelRuntime.ContainerPaths
open ToolExecution
set_option autoImplicit false

/-- `Path(text).resolve()` of an absolute path. -/
def resolved (text : String) : List String := (pathNames text).foldl walk []

/-- The encoding of the file system: what `os.fsencode` gets through, and the text of its `UnicodeEncodeError` for a
path. In UTF-8 a lone surrogate does not encode. -/
structure Encoding where
  encodes : Char → Bool
  encodeError : String → String
  ascii : ∀ c : Char, c.toNat < 128 → encodes c = true

def Encoding.Accepts (e : Encoding) (text : String) : Prop := ∀ c ∈ text.toList, e.encodes c = true ∧ c ≠ '\x00'

instance (e : Encoding) (text : String) : Decidable (e.Accepts text) :=
  List.decidableBAll (fun c => e.encodes c = true ∧ c ≠ '\x00') text.toList

/-- A path on its way to the system. A `UnicodeEncodeError` is a `ValueError`. -/
def Encoding.ask (e : Encoding) (path : String) : Except PyError Unit :=
  if path.toList.any fun c => !e.encodes c then .error ⟨.valueError, e.encodeError path⟩
  else if '\x00' ∈ path.toList then .error ⟨.valueError, "embedded null byte"⟩
  else .ok ()

/-- A machine without links. Its two directories are there. -/
structure Host where
  encoding : Encoding
  workspaceRoot : String
  tempDir : String
  workspaceRoot_accepted : encoding.Accepts workspaceRoot
  tempDir_accepted : encoding.Accepts tempDir

/-- `WORKSPACE_ROOT` is resolved when the configuration is loaded. To resolve a path is to ask for what each part
of it is; the `mkdir` before it asks for the same path. -/
def Host.fs (h : Host) : FileSystem :=
  { plainFileSystem (pathText (resolved h.workspaceRoot)) h.tempDir with
    resolve := fun path => do
      h.encoding.ask path
      return resolved path }

/-- The root of a session, resolved. -/
def rootOf (workspaceRoot tenantId sessionId : String) : List String :=
  resolved workspaceRoot ++ ["t_" ++ shortId tenantId, "s_" ++ shortId sessionId]

/-- The working directory that `SandboxAdapter.execute` gives to the container. -/
def containerWorkdir (fs : FileSystem) (workingPath : List String) (sessionId tenantId : String) : Option String :=
  (relativeTo workingPath (getSessionRoot fs tenantId sessionId)).map fun relativeWorkdir =>
    if relativeWorkdir = [] then "/workspace" else "/workspace/" ++ String.intercalate "/" relativeWorkdir

theorem pathText_workspace (names : List String) :
    pathText ("workspace" :: names) = if names = [] then "/workspace" else "/workspace/" ++ String.intercalate "/" names := by
  unfold pathText
  cases names with
  | nil => rfl
  | cons name names =>
    rw [if_neg (List.cons_ne_nil _ _)]
    apply String.toList_inj.mp
    simp

/-- The container starts in the components of that directory. -/
theorem sandboxAdapter_workdir {m : Machine} (hdocker : m.dockerAvailable = true) (disk : Disk) (command : Json)
    {sessionId tenantId workdir : String} {workingDir : Json} {workingPath : List String}
    (hpath : resolveWorkspacePath m.fs workingDir sessionId tenantId = .ok workingPath)
    (hworkdir : containerWorkdir m.fs workingPath sessionId tenantId = some workdir) :
    ∃ components, pathText components = workdir ∧ sandboxAdapter m disk command sessionId tenantId workingDir =
      runInDocker m command (getSessionRoot m.fs tenantId sessionId) components := by
  obtain ⟨relativeWorkdir, hrelative, rfl⟩ := Option.map_eq_some_iff.mp hworkdir
  refine ⟨"workspace" :: relativeWorkdir, pathText_workspace relativeWorkdir, ?_⟩
  unfold sandboxAdapter
  simp only [hpath, hrelative, hdocker, if_true]

/-! ## The prefix of the virtual root -/

theorem stripWorkspace_prefix (p : String) : stripWorkspace ("/workspace/" ++ p) = p := by
  unfold stripWorkspace
  have hdrop : ("/workspace/" ++ p).toList.dropPrefix? "/workspace/".toList = some p.toList := by
    rw [String.toList_append]
    exact List.dropPrefix?_append_of_beq _ (beq_self_eq_true _)
  rw [hdrop]
  exact String.ofList_toList

theorem not_isVirtualRoot_workspace (p : String) : ¬ IsVirtualRoot ("/workspace/" ++ p) := by
  have hlength : 11 ≤ ("/workspace/" ++ p).toList.length := by
    rw [String.toList_append, List.length_append]
    exact Nat.le_add_right 11 _
  rintro (h | h)
  · rw [h] at hlength
    exact absurd hlength (by decide)
  · rw [h] at hlength
    exact absurd hlength (by decide)

theorem ne_empty_workspace (p : String) : "/workspace/" ++ p ≠ "" := by
  intro h
  have hlength := congrArg String.length h
  simp at hlength

/-! ## On a disk without links -/

theorem pureParts_eq (path : String) :
    pureParts path = (pathNames path).filter fun name => decide (name ≠ "" ∧ name ≠ ".") := by
  unfold pureParts pathNames
  rw [splitPath_eq]
  cases path.toList.splitOn '/' with
  | nil => rfl
  | cons first more => simp

theorem filter_plain {names : List String} (h : ∀ name ∈ names, IsPlain name) :
    names.filter (fun name => decide (name ≠ "" ∧ name ≠ ".")) = names :=
  List.filter_eq_self.mpr fun name hname => decide_eq_true ⟨(h name hname).1, (h name hname).2.1⟩

/-! ## What the system is asked about -/

section Encoding
variable {e : Encoding}

theorem Encoding.accepts_append {a b : String} : e.Accepts (a ++ b) ↔ e.Accepts a ∧ e.Accepts b := by
  unfold Encoding.Accepts
  rw [String.toList_append, List.forall_mem_append]

theorem Encoding.accepts_of_ascii {text : String}
    (h : (text.toList.all fun c => decide (c.toNat < 128 ∧ c ≠ '\x00')) = true) : e.Accepts text := by
  intro c hc
  have hascii := of_decide_eq_true (List.all_eq_true.mp h c hc)
  exact ⟨e.ascii c hascii.1, hascii.2⟩

theorem Encoding.accepts_slash : e.Accepts "/" := Encoding.accepts_of_ascii (by decide)

theorem mem_intercalate_of_mem {sep : List Char} {parts : List (List Char)} {part : List Char} (hpart : part ∈ parts)
    {c : Char} (hc : c ∈ part) : c ∈ sep.intercalate parts := by
  induction parts with
  | nil => cases hpart
  | cons first rest ih =>
    by_cases hrest : rest = []
    · subst hrest
      rw [List.mem_singleton.mp hpart] at hc
      simpa using hc
    · rw [List.intercalate_cons_of_ne_nil hrest, List.mem_append, List.mem_append]
      rcases List.mem_cons.mp hpart with rfl | hmore
      · exact Or.inl (Or.inl hc)
      · exact Or.inr (ih hmore)

/-- The names of a path are made of its characters. -/
theorem mem_of_mem_pathNames {path name : String} (hname : name ∈ pathNames path) {c : Char} (hc : c ∈ name.toList) :
    c ∈ path.toList := by
  obtain ⟨cs, hcs, rfl⟩ := List.mem_map.mp hname
  rw [String.toList_ofList] at hc
  have hjoin : ['/'].intercalate (path.toList.splitOn '/') = path.toList := List.intercalate_splitOn '/'
  rw [← hjoin]
  exact mem_intercalate_of_mem hcs hc

theorem mem_foldl_walk {names components : List String} {name : String} (h : name ∈ names.foldl walk components) :
    name ∈ components ∨ name ∈ names := by
  induction names generalizing components with
  | nil => exact Or.inl h
  | cons first rest ih =>
    rcases ih h with hwalk | hrest
    · unfold walk at hwalk
      split_ifs at hwalk
      · exact Or.inl hwalk
      · exact Or.inl (List.dropLast_subset _ hwalk)
      · rcases List.mem_append.mp hwalk with hold | hnew
        · exact Or.inl hold
        · exact Or.inr (List.mem_singleton.mp hnew ▸ List.mem_cons_self)
    · exact Or.inr (List.mem_cons_of_mem _ hrest)

theorem Encoding.accepts_resolved {text : String} (h : e.Accepts text) : ∀ name ∈ resolved text, e.Accepts name := by
  intro name hname c hc
  rcases mem_foldl_walk hname with hnil | hpath
  · cases hnil
  · exact h c (mem_of_mem_pathNames hpath hc)

theorem Encoding.accepts_intercalate {names : List String} (h : ∀ name ∈ names, e.Accepts name) :
    e.Accepts (String.intercalate "/" names) := by
  induction names with
  | nil => exact fun c hc => absurd hc (by simp)
  | cons name rest ih =>
    have hname := h name List.mem_cons_self
    by_cases hrest : rest = []
    · subst hrest
      simpa using hname
    · rw [String.intercalate_cons_of_ne_nil hrest, Encoding.accepts_append, Encoding.accepts_append]
      exact ⟨⟨hname, Encoding.accepts_slash⟩, ih fun n hn => h n (List.mem_cons_of_mem _ hn)⟩

theorem Encoding.accepts_pathText {names : List String} (h : ∀ name ∈ names, e.Accepts name) :
    e.Accepts (pathText names) :=
  Encoding.accepts_append.mpr ⟨Encoding.accepts_slash, Encoding.accepts_intercalate h⟩

theorem Encoding.ask_accepted {path : String} (h : e.Accepts path) : e.ask path = .ok () := by
  unfold Encoding.ask
  rw [if_neg, if_neg]
  · exact fun hnul => (h _ hnul).2 rfl
  · intro hfails
    obtain ⟨c, hc, hfail⟩ := List.any_eq_true.mp hfails
    rw [(h c hc).1] at hfail
    cases hfail

theorem Encoding.ask_refused {path : String} (h : ¬ e.Accepts path) :
    ∃ error, e.ask path = .error error ∧ error.cls = .valueError := by
  unfold Encoding.ask
  split_ifs with hencodes hnul
  · exact ⟨_, rfl, rfl⟩
  · exact ⟨_, rfl, rfl⟩
  · refine absurd (fun c hc => ⟨?_, fun hc' => hnul (hc' ▸ hc)⟩) h
    by_contra hfails
    exact hencodes (List.any_eq_true.mpr ⟨c, hc, by rw [Bool.eq_false_iff.mpr hfails]; rfl⟩)

end Encoding

section Host
variable {h : Host} {tenantId sessionId : String}

theorem isPlain_resolved (text : String) : ∀ name ∈ resolved text, IsPlain name :=
  isPlain_foldl_walk (no_slash_pathNames text) (List.forall_mem_nil _)

theorem resolve_accepted {path : String} (haccepts : h.encoding.Accepts path) :
    h.fs.resolve path = .ok (resolved path) := by
  show (h.encoding.ask path >>= fun _ => .ok (resolved path)) = _
  rw [Encoding.ask_accepted haccepts]
  rfl

theorem resolve_refused {path : String} (hrefused : ¬ h.encoding.Accepts path) :
    ∃ e, h.fs.resolve path = .error e ∧ e.cls = .valueError := by
  obtain ⟨e, he, hcls⟩ := Encoding.ask_refused hrefused
  refine ⟨e, ?_, hcls⟩
  show (h.encoding.ask path >>= fun _ => .ok (resolved path)) = _
  rw [he]
  rfl

theorem resolve_eq_ok {path : String} {names : List String} (hok : h.fs.resolve path = .ok names) :
    h.encoding.Accepts path ∧ resolved path = names := by
  by_cases haccepts : h.encoding.Accepts path
  · rw [resolve_accepted haccepts] at hok
    exact ⟨haccepts, Except.ok.inj hok⟩
  · obtain ⟨e, he, -⟩ := resolve_refused haccepts
    rw [he] at hok
    cases hok

theorem host_lawful (h : Host) : h.fs.Lawful where
  names path names hok name hname := by
    obtain ⟨-, rfl⟩ := resolve_eq_ok hok
    exact ⟨(isPlain_resolved path name hname).1, (isPlain_resolved path name hname).2.2.2⟩
  stable path root rest hok hrest := by
    obtain ⟨haccepts, hresolved⟩ := resolve_eq_ok hok
    have hnames : ∀ name ∈ root ++ rest, h.encoding.Accepts name := hresolved ▸ Encoding.accepts_resolved haccepts
    have hplain : ∀ name ∈ root ++ rest, IsPlain name := hresolved ▸ isPlain_resolved path
    have hunder : h.encoding.Accepts (underRoot root (String.intercalate "/" rest)) := by
      unfold underRoot
      rw [Encoding.accepts_append, Encoding.accepts_append]
      exact ⟨⟨Encoding.accepts_pathText fun n hn => hnames n (List.mem_append_left _ hn), Encoding.accepts_slash⟩,
        Encoding.accepts_intercalate fun n hn => hnames n (List.mem_append_right _ hn)⟩
    rw [resolve_accepted hunder]
    unfold resolved underRoot
    rw [pathNames_append, List.foldl_append,
      foldl_walk_pathText fun n hn => hplain n (List.mem_append_left _ hn),
      pathNames_intercalate hrest fun n hn => (hplain n (List.mem_append_right _ hn)).2.2.2,
      foldl_walk_plain fun n hn => hplain n (List.mem_append_right _ hn)]

theorem shortName_of_no_slash {identifier : String} (h : '/' ∉ identifier.toList) : ShortName identifier := by
  unfold ShortName shortId
  rw [String.toList_ofList]
  exact fun hmem => h (List.mem_of_mem_take hmem)

/-- The root of a session as it is written. -/
theorem getSessionRoot_text : getSessionRoot h.fs tenantId sessionId =
    pathText (resolved h.workspaceRoot) ++ "/" ++ ("t_" ++ shortId tenantId) ++ "/" ++ ("s_" ++ shortId sessionId) := by
  unfold getSessionRoot Host.fs plainFileSystem
  apply String.toList_inj.mp
  simp

/-- The parts of the identifiers that are kept have characters that the system can be asked about. -/
def Host.Names (h : Host) (tenantId sessionId : String) : Prop :=
  h.encoding.Accepts (shortId tenantId) ∧ h.encoding.Accepts (shortId sessionId)

instance (h : Host) (tenantId sessionId : String) : Decidable (h.Names tenantId sessionId) :=
  inferInstanceAs (Decidable (_ ∧ _))

theorem accepts_workspaceRoot : ∀ name ∈ resolved h.workspaceRoot, h.encoding.Accepts name :=
  Encoding.accepts_resolved h.workspaceRoot_accepted

theorem accepts_getSessionRoot :
    h.encoding.Accepts (getSessionRoot h.fs tenantId sessionId) ↔ h.Names tenantId sessionId := by
  have htags : h.encoding.Accepts "t_" ∧ h.encoding.Accepts "s_" :=
    ⟨Encoding.accepts_of_ascii (by decide), Encoding.accepts_of_ascii (by decide)⟩
  rw [getSessionRoot_text]
  simp only [Encoding.accepts_append, Encoding.accepts_slash, Encoding.accepts_pathText accepts_workspaceRoot, htags,
    true_and, and_true]
  exact Iff.rfl

theorem accepts_rootOf (hnames : h.Names tenantId sessionId) :
    ∀ name ∈ rootOf h.workspaceRoot tenantId sessionId, h.encoding.Accepts name := by
  intro name hname
  rcases List.mem_append.mp hname with hname | hname
  · exact accepts_workspaceRoot name hname
  · simp only [List.mem_cons, List.not_mem_nil, or_false] at hname
    rcases hname with rfl | rfl
    · exact Encoding.accepts_append.mpr ⟨Encoding.accepts_of_ascii (by decide), hnames.1⟩
    · exact Encoding.accepts_append.mpr ⟨Encoding.accepts_of_ascii (by decide), hnames.2⟩

section Names
variable (htenant : '/' ∉ tenantId.toList) (hsession : '/' ∉ sessionId.toList)
include htenant hsession

theorem isPlain_rootOf (workspaceRoot : String) : ∀ name ∈ rootOf workspaceRoot tenantId sessionId, IsPlain name := by
  intro name hname
  rcases List.mem_append.mp hname with hname | hname
  · exact isPlain_resolved workspaceRoot name hname
  · simp only [List.mem_cons, List.not_mem_nil, or_false] at hname
    rcases hname with rfl | rfl
    · exact isPlain_tagged (shortName_of_no_slash htenant) 't' (by decide)
    · exact isPlain_tagged (shortName_of_no_slash hsession) 's' (by decide)

theorem isPlain_tags : IsPlain ("t_" ++ shortId tenantId) ∧ IsPlain ("s_" ++ shortId sessionId) :=
  ⟨isPlain_tagged (shortName_of_no_slash htenant) 't' (by decide),
    isPlain_tagged (shortName_of_no_slash hsession) 's' (by decide)⟩

theorem resolved_getSessionRoot :
    resolved (getSessionRoot h.fs tenantId sessionId) = rootOf h.workspaceRoot tenantId sessionId := by
  obtain ⟨ht, hs⟩ := isPlain_tags htenant hsession
  rw [getSessionRoot_text]
  show (pathNames (pathText (resolved h.workspaceRoot) ++ "/" ++ _ ++ "/" ++ _)).foldl walk [] = _
  rw [pathNames_append, pathNames_append, pathNames_of_no_slash ht.2.2.2, pathNames_of_no_slash hs.2.2.2,
    List.append_assoc, List.foldl_append, foldl_walk_pathText (isPlain_resolved h.workspaceRoot)]
  exact foldl_walk_plain (by simpa using ⟨ht, hs⟩) _

theorem sessionRoot_host (hne : sessionId ≠ "") (hnames : h.Names tenantId sessionId) :
    sessionRoot h.fs sessionId tenantId = .ok (rootOf h.workspaceRoot tenantId sessionId) := by
  unfold sessionRoot
  rw [if_neg hne, resolve_accepted (accepts_getSessionRoot.mpr hnames), resolved_getSessionRoot htenant hsession]

/-- The unresolved root, which the adapter takes, has the same parts. -/
theorem pureParts_root : pureParts (getSessionRoot h.fs tenantId sessionId) =
    rootOf h.workspaceRoot tenantId sessionId := by
  obtain ⟨ht, hs⟩ := isPlain_tags htenant hsession
  rw [getSessionRoot_text, pureParts_eq, pathNames_append, pathNames_append, pathNames_of_no_slash ht.2.2.2,
    pathNames_of_no_slash hs.2.2.2, List.append_assoc, List.filter_append]
  have hbase : (pathNames (pathText (resolved h.workspaceRoot))).filter
      (fun name => decide (name ≠ "" ∧ name ≠ ".")) = resolved h.workspaceRoot := by
    by_cases hnil : resolved h.workspaceRoot = []
    · rw [hnil]
      decide
    · rw [pathNames_pathText hnil (isPlain_resolved h.workspaceRoot)]
      exact filter_plain (isPlain_resolved h.workspaceRoot)
  rw [hbase]
  exact congrArg (resolved h.workspaceRoot ++ ·) (filter_plain (by simpa using ⟨ht, hs⟩))

theorem relativeTo_root (rest : List String) :
    relativeTo (rootOf h.workspaceRoot tenantId sessionId ++ rest) (getSessionRoot h.fs tenantId sessionId) =
      some rest := by
  have habsolute : isAbsolute (getSessionRoot h.fs tenantId sessionId) = true := by
    rw [getSessionRoot_text]
    unfold isAbsolute pathText
    simp
  unfold relativeTo
  rw [if_pos habsolute, pureParts_root htenant hsession]
  exact List.dropPrefix?_append_of_beq _ (beq_self_eq_true _)

end Names

theorem sessionRoot_refused (hne : sessionId ≠ "") (hnames : ¬ h.Names tenantId sessionId) :
    ∃ e, sessionRoot h.fs sessionId tenantId = .error e ∧ e.cls = .valueError := by
  unfold sessionRoot
  rw [if_neg hne]
  exact resolve_refused (mt accepts_getSessionRoot.mp hnames)

/-! ## Where a path leads -/

section Root
variable {root : List String} {p : String}

theorem accepts_stripWorkspace : h.encoding.Accepts (stripWorkspace p) ↔ h.encoding.Accepts p := by
  unfold stripWorkspace
  cases hdrop : p.toList.dropPrefix? "/workspace/".toList with
  | none => exact Iff.rfl
  | some rest =>
    have htext : p = "/workspace/" ++ String.ofList rest := by
      obtain ⟨front, htext, hfront⟩ := List.dropPrefix?_eq_some_iff.mp hdrop
      rw [eq_of_beq hfront] at htext
      apply String.toList_inj.mp
      rw [htext, String.toList_append]
      exact congrArg _ String.toList_ofList.symm
    conv_rhs => rw [htext, Encoding.accepts_append]
    exact (and_iff_right (Encoding.accepts_of_ascii (by decide))).symm

theorem accepts_underRoot (hroot : ∀ name ∈ root, h.encoding.Accepts name) :
    h.encoding.Accepts (underRoot root p) ↔ h.encoding.Accepts p := by
  unfold underRoot
  rw [Encoding.accepts_append, Encoding.accepts_append]
  exact and_iff_right ⟨Encoding.accepts_pathText hroot, Encoding.accepts_slash⟩

theorem accepts_pathString : h.encoding.Accepts (pathString h.fs (.str p)) ↔ h.encoding.Accepts p := by
  by_cases hempty : p = ""
  · subst hempty
    rw [pathString_empty]
    exact iff_of_true (Encoding.accepts_of_ascii (by decide)) (Encoding.accepts_of_ascii (by decide))
  · rw [pathString_str hempty]

/-- A path is refused, or it leads into the root or into the temporary directory. -/
theorem resolveFrom_contained (hroot : ∀ name ∈ root, h.encoding.Accepts name) (hp : h.encoding.Accepts p) :
    (∃ e, resolveFrom h.fs (.str p) root = .error e ∧ e.cls = .governanceDeniedError) ∨
      ∃ path, resolveFrom h.fs (.str p) root = .ok path ∧ (root <+: path ∨ resolved h.tempDir <+: path) := by
  have hcandidate : h.encoding.Accepts (stripWorkspace (pathString h.fs (.str p))) :=
    accepts_stripWorkspace.mpr (accepts_pathString.mpr hp)
  have htemp : h.fs.resolve h.fs.tempDir = .ok (resolved h.tempDir) := resolve_accepted h.tempDir_accepted
  cases hresult : resolveFrom h.fs (.str p) root with
  | ok path =>
    refine Or.inr ⟨path, rfl, ?_⟩
    cases (resolveFrom_ok_iff _ _ _ _).mp hresult with
    | virtual _ => exact Or.inl List.prefix_rfl
    | absolute tempRoot _ _ _ htemp' _ hinside =>
      rw [htemp] at htemp'
      obtain rfl := Except.ok.inj htemp'
      exact hinside.symm
    | relative _ _ _ _ hinside => exact Or.inl hinside
  | error e =>
    refine Or.inl ⟨e, rfl, ?_⟩
    unfold resolveFrom at hresult
    simp only [htemp, resolve_accepted hcandidate, resolve_accepted ((accepts_underRoot hroot).mpr hcandidate), bind,
      Except.bind] at hresult
    split_ifs at hresult
    all_goals cases hresult
    all_goals rfl

/-- A path that the system cannot be asked about is a `ValueError`. -/
theorem resolveFrom_refused (hroot : ∀ name ∈ root, h.encoding.Accepts name) (hp : ¬ h.encoding.Accepts p) :
    ∃ e, resolveFrom h.fs (.str p) root = .error e ∧ e.cls = .valueError := by
  have hstring : ¬ h.encoding.Accepts (pathString h.fs (.str p)) := mt accepts_pathString.mp hp
  have hcandidate := mt accepts_stripWorkspace.mp hstring
  have hvirtual : ¬ IsVirtualRoot (pathString h.fs (.str p)) := by
    rintro (hslash | hname)
    · exact hstring (hslash ▸ Encoding.accepts_slash)
    · exact hstring (hname ▸ Encoding.accepts_of_ascii (by decide))
  have htemp : h.fs.resolve h.fs.tempDir = .ok (resolved h.tempDir) := resolve_accepted h.tempDir_accepted
  unfold resolveFrom
  simp only [if_neg hvirtual]
  by_cases habsolute : isAbsolute (stripWorkspace (pathString h.fs (.str p))) = true
  · obtain ⟨e, he, hcls⟩ := resolve_refused hcandidate
    refine ⟨e, ?_, hcls⟩
    rw [if_pos habsolute, htemp, he]
    rfl
  · obtain ⟨e, he, hcls⟩ := resolve_refused (mt (accepts_underRoot hroot).mp hcandidate)
    refine ⟨e, ?_, hcls⟩
    rw [if_neg habsolute, he]
    rfl

/-- A relative path does not reach the temporary directory from outside of the root. -/
theorem resolveFrom_relative_inside {path : List String} (hp : isAbsolute p = false)
    (hok : resolveFrom h.fs (.str p) root = .ok path) : root <+: path := by
  cases (resolveFrom_ok_iff _ _ _ _).mp hok with
  | virtual _ => exact List.prefix_rfl
  | relative _ _ _ _ hinside => exact hinside
  | absolute _ _ _ habsolute _ _ _ =>
    by_cases hempty : p = ""
    · subst hempty
      rw [pathString_empty] at habsolute
      exact absurd habsolute (by decide)
    · rw [pathString_str hempty, stripWorkspace_of_relative hp, hp] at habsolute
      cases habsolute

/-- The prefix of the virtual root makes no difference to a relative path. -/
theorem resolveFrom_workspace (hp : isAbsolute p = false) (hroot : ∀ name ∈ root, h.encoding.Accepts name) :
    resolveFrom h.fs (.str ("/workspace/" ++ p)) root = resolveFrom h.fs (.str p) root := by
  have hprefixed : resolveFrom h.fs (.str ("/workspace/" ++ p)) root =
      (do
        let path ← h.fs.resolve (underRoot root p)
        if root.isPrefixOf path then return path
        throw (pathEscapes path)) := by
    unfold resolveFrom
    simp only [pathString_str (ne_empty_workspace p), if_neg (not_isVirtualRoot_workspace p), stripWorkspace_prefix, hp,
      Bool.false_eq_true, if_false]
  rw [hprefixed]
  by_cases hempty : p = ""
  · subst hempty
    have hdot : h.fs.resolve (underRoot root "") = h.fs.resolve (underRoot root ".") := by
      rw [resolve_accepted ((accepts_underRoot hroot).mpr (Encoding.accepts_of_ascii (by decide))),
        resolve_accepted ((accepts_underRoot hroot).mpr (Encoding.accepts_of_ascii (by decide)))]
      unfold resolved underRoot
      rw [pathNames_append, pathNames_append, List.foldl_append, List.foldl_append]
      rfl
    have hrelative : isAbsolute "." = false := by decide
    unfold resolveFrom
    simp only [pathString_empty, if_neg (not_isVirtualRoot_of_relative hrelative), stripWorkspace_of_relative hrelative,
      hrelative, Bool.false_eq_true, if_false, hdot]
  · unfold resolveFrom
    simp only [pathString_str hempty, if_neg (not_isVirtualRoot_of_relative hp), stripWorkspace_of_relative hp, hp,
      Bool.false_eq_true, if_false]

/-- A path that is accepted has been resolved from some text. -/
theorem exists_resolve_of_ok {path : List String} (hplain : ∀ name ∈ root, IsPlain name)
    (hroot : ∀ name ∈ root, h.encoding.Accepts name) (hok : resolveFrom h.fs (.str p) root = .ok path) :
    ∃ source, h.fs.resolve source = .ok path := by
  cases (resolveFrom_ok_iff _ _ _ _).mp hok with
  | virtual _ =>
    exact ⟨pathText root, (resolve_accepted (Encoding.accepts_pathText hroot)).trans
      (congrArg Except.ok (foldl_walk_pathText hplain))⟩
  | absolute _ _ _ _ _ hresolve _ => exact ⟨_, hresolve⟩
  | relative _ _ _ hresolve _ => exact ⟨_, hresolve⟩

/-- The directory in the container is the path again. -/
theorem resolveFrom_workdir {rest : List String} (hroot : ∀ name ∈ root, h.encoding.Accepts name)
    (hresolve : h.fs.resolve p = .ok (root ++ rest)) :
    resolveFrom h.fs
      (.str (if rest = [] then "/workspace" else "/workspace/" ++ String.intercalate "/" rest)) root =
        .ok (root ++ rest) := by
  by_cases hrest : rest = []
  · subst hrest
    rw [if_pos rfl, List.append_nil]
    exact (resolveFrom_ok_iff _ _ _ _).mpr (.virtual (Or.inr rfl))
  · rw [if_neg hrest]
    have hrelative := resolveFrom_relative (host_lawful h) hresolve hrest
    have hnames := (host_lawful h).names _ _ hresolve
    rw [resolveFrom_workspace (isAbsolute_intercalate hrest fun n hn => hnames n (List.mem_append_right _ hn)) hroot]
    exact hrelative

end Root

end Host

/-- How `resolve_workspace_path` ends for a path: refused by governance, or inside the root of the session or the
temporary directory. -/
def Contained (h : Host) (tenantId sessionId p : String) : Prop :=
  (∃ e, resolveWorkspacePath h.fs (.str p) sessionId tenantId = .error e ∧ e.cls = .governanceDeniedError) ∨
    ∃ path, resolveWorkspacePath h.fs (.str p) sessionId tenantId = .ok path ∧
      (rootOf h.workspaceRoot tenantId sessionId <+: path ∨ resolved h.tempDir <+: path)

section Outcomes
variable {h : Host} {tenantId sessionId : String}

theorem resolveWorkspacePath_of_names (htenant : '/' ∉ tenantId.toList) (hsession : '/' ∉ sessionId.toList)
    (hne : sessionId ≠ "") (hnames : h.Names tenantId sessionId) (p : String) :
    resolveWorkspacePath h.fs (.str p) sessionId tenantId =
      resolveFrom h.fs (.str p) (rootOf h.workspaceRoot tenantId sessionId) := by
  rw [resolveWorkspacePath_eq, sessionRoot_host htenant hsession hne hnames]
  rfl

/-- Identifiers that the system cannot be asked about are refused before the path is looked at. -/
theorem resolveWorkspacePath_of_not_names (hne : sessionId ≠ "") (hnames : ¬ h.Names tenantId sessionId) :
    ∃ e, e.cls = .valueError ∧ ∀ p, resolveWorkspacePath h.fs (.str p) sessionId tenantId = .error e := by
  obtain ⟨e, he, hcls⟩ := sessionRoot_refused hne hnames
  refine ⟨e, hcls, fun p => ?_⟩
  rw [resolveWorkspacePath_eq, he]
  rfl

theorem names_of_resolveWorkspacePath_ok {p : String} {path : List String} (hne : sessionId ≠ "")
    (hok : resolveWorkspacePath h.fs (.str p) sessionId tenantId = .ok path) : h.Names tenantId sessionId := by
  by_contra hnames
  obtain ⟨e, -, he⟩ := resolveWorkspacePath_of_not_names hne hnames
  rw [he] at hok
  cases hok

theorem resolveWorkspacePath_outcome (htenant : '/' ∉ tenantId.toList) (hsession : '/' ∉ sessionId.toList)
    (hne : sessionId ≠ "") (p : String) : if h.Names tenantId sessionId ∧ h.encoding.Accepts p then
        Contained h tenantId sessionId p
      else ∃ e, resolveWorkspacePath h.fs (.str p) sessionId tenantId = .error e ∧ e.cls = .valueError := by
  have hresolve := resolveWorkspacePath_of_names (h := h) htenant hsession hne
  split_ifs with hasked
  · unfold Contained
    rw [hresolve hasked.1]
    exact resolveFrom_contained (accepts_rootOf hasked.1) hasked.2
  · by_cases hnames : h.Names tenantId sessionId
    · rw [hresolve hnames]
      exact resolveFrom_refused (accepts_rootOf hnames) fun hp => hasked ⟨hnames, hp⟩
    · obtain ⟨e, hcls, he⟩ := resolveWorkspacePath_of_not_names hne hnames
      exact ⟨e, he p, hcls⟩

theorem resolveWorkspacePath_prefixed (htenant : '/' ∉ tenantId.toList) (hsession : '/' ∉ sessionId.toList)
    (hne : sessionId ≠ "") {p : String} (hp : isAbsolute p = false) :
    resolveWorkspacePath h.fs (.str ("/workspace/" ++ p)) sessionId tenantId =
      resolveWorkspacePath h.fs (.str p) sessionId tenantId := by
  by_cases hnames : h.Names tenantId sessionId
  · have hresolve := resolveWorkspacePath_of_names htenant hsession hne hnames
    rw [hresolve, hresolve]
    exact resolveFrom_workspace hp (accepts_rootOf hnames)
  · obtain ⟨e, -, he⟩ := resolveWorkspacePath_of_not_names hne hnames
    rw [he, he]

/-- A path inside the root has a directory in the container, which resolves to the path again. -/
theorem containerWorkdir_resolves (htenant : '/' ∉ tenantId.toList) (hsession : '/' ∉ sessionId.toList)
    (hne : sessionId ≠ "") {p : String} {path : List String}
    (hok : resolveWorkspacePath h.fs (.str p) sessionId tenantId = .ok path)
    (hinside : rootOf h.workspaceRoot tenantId sessionId <+: path) :
    ∃ workdir, containerWorkdir h.fs path sessionId tenantId = some workdir ∧
      resolveWorkspacePath h.fs (.str workdir) sessionId tenantId = .ok path := by
  obtain ⟨rest, rfl⟩ := hinside
  have hnames := names_of_resolveWorkspacePath_ok hne hok
  have hresolve := resolveWorkspacePath_of_names htenant hsession hne hnames
  have hworkdir : containerWorkdir h.fs (rootOf h.workspaceRoot tenantId sessionId ++ rest) sessionId tenantId =
      some (if rest = [] then "/workspace" else "/workspace/" ++ String.intercalate "/" rest) := by
    unfold containerWorkdir
    rw [relativeTo_root htenant hsession]
    rfl
  rw [hresolve] at hok
  obtain ⟨source, hsource⟩ :=
    exists_resolve_of_ok (isPlain_rootOf htenant hsession h.workspaceRoot) (accepts_rootOf hnames) hok
  refine ⟨_, hworkdir, ?_⟩
  rw [hresolve]
  exact resolveFrom_workdir (accepts_rootOf hnames) hsource

end Outcomes

/-- **A path leads into the root or the temporary directory or nowhere, a relative one into the root; `/workspace/`
before it changes nothing; and the directory that the container starts in leads back. What the system cannot be asked
about, in the identifiers or in the path, is a `ValueError`.** -/
theorem workspace_paths (h : Host) (tenantId sessionId : String) (htenant : '/' ∉ tenantId.toList)
    (hsession : '/' ∉ sessionId.toList) (hne : sessionId ≠ "") :
    (∀ p, if h.Names tenantId sessionId ∧ h.encoding.Accepts p then Contained h tenantId sessionId p
        else ∃ e, resolveWorkspacePath h.fs (.str p) sessionId tenantId = .error e ∧ e.cls = .valueError) ∧
      (∀ p path, isAbsolute p = false → resolveWorkspacePath h.fs (.str p) sessionId tenantId = .ok path →
        rootOf h.workspaceRoot tenantId sessionId <+: path) ∧
      (∀ p, isAbsolute p = false →
        resolveWorkspacePath h.fs (.str ("/workspace/" ++ p)) sessionId tenantId =
          resolveWorkspacePath h.fs (.str p) sessionId tenantId) ∧
      ∀ (m : Machine) (disk : Disk) (command : Json) (p : String) (path : List String),
        m.fs = h.fs → m.dockerAvailable = true → resolveWorkspacePath m.fs (.str p) sessionId tenantId = .ok path →
        rootOf h.workspaceRoot tenantId sessionId <+: path →
          ∃ workdir components, containerWorkdir m.fs path sessionId tenantId = some workdir ∧
            pathText components = workdir ∧
            sandboxAdapter m disk command sessionId tenantId (.str p) =
              runInDocker m command (getSessionRoot m.fs tenantId sessionId) components ∧
            resolveWorkspacePath m.fs (.str workdir) sessionId tenantId = .ok path := by
  refine ⟨resolveWorkspacePath_outcome htenant hsession hne, fun p path hp hok => ?_,
    fun p => resolveWorkspacePath_prefixed htenant hsession hne, ?_⟩
  · have hnames := names_of_resolveWorkspacePath_ok hne hok
    rw [resolveWorkspacePath_of_names htenant hsession hne hnames] at hok
    exact resolveFrom_relative_inside hp hok
  · intro m disk command p path hfs hdocker hpath hinside
    rw [hfs] at hpath
    obtain ⟨workdir, hworkdir, hresolves⟩ := containerWorkdir_resolves htenant hsession hne hpath hinside
    rw [← hfs] at hpath hworkdir hresolves
    obtain ⟨components, htext, hruns⟩ := sandboxAdapter_workdir hdocker disk command hpath hworkdir
    exact ⟨workdir, components, hworkdir, htext, hruns, hresolves⟩

/-- A machine whose file names are UTF-8. -/
def utf8Host : Host where
  encoding :=
    { encodes := fun _ => true
      encodeError := fun _ => "'utf-8' codec can't encode character: surrogates not allowed"
      ascii := fun _ _ => rfl }
  workspaceRoot := "/srv/ws"
  tempDir := "/tmp"
  workspaceRoot_accepted := by decide
  tempDir_accepted := by decide

theorem workspace_paths_acme : Contained utf8Host "acme" "one" "../one/notes.md" ∧
    resolveWorkspacePath utf8Host.fs (.str "/workspace/notes.md") "one" "acme" =
      resolveWorkspacePath utf8Host.fs (.str "notes.md") "one" "acme" := by
  obtain ⟨hcontained, -, hprefix, -⟩ :=
    workspace_paths utf8Host "acme" "one" (by decide) (by decide) (by decide)
  have hasked : utf8Host.Names "acme" "one" ∧ utf8Host.encoding.Accepts "../one/notes.md" :=
    ⟨⟨by decide, by decide⟩, by decide⟩
  have hfirst := hcontained "../one/notes.md"
  rw [if_pos hasked] at hfirst
  exact ⟨hfirst, hprefix "notes.md" (by decide)⟩

/-- A session id with a NUL is a `ValueError`, whatever the path. -/
theorem nul_id_raises : ¬ ∀ (h : Host) (tenantId sessionId p : String), tenantId ≠ "" → sessionId ≠ "" →
    '/' ∉ tenantId.toList → '/' ∉ sessionId.toList → '\x00' ∉ p.toList → Contained h tenantId sessionId p := by
  intro h
  have hresult : (match resolveWorkspacePath utf8Host.fs (.str "notes.md") "s\x00" "acme" with
      | .ok _ => none
      | .error e => some e.cls) = some ExceptionClass.valueError := by decide +kernel
  rcases h utf8Host "acme" "s\x00" "notes.md" (by decide) (by decide) (by decide) (by decide) (by decide) with
    ⟨e, he, hcls⟩ | ⟨path, hpath, -⟩
  · rw [he] at hresult
    exact absurd (Option.some.inj hresult) (by rw [hcls]; decide)
  · rw [hpath] at hresult
    cases hresult

end KernelRuntime.ContainerPaths
