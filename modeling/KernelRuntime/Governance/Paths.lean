import KernelRuntime.Foundations.Json

/-! # Workspace paths

`resolve_workspace_path` maps the path of a tool call into the root of its session, or refuses it.
The file system is a parameter: it resolves an absolute path, links included, to its components, or fails. The `mkdir`
of the root is left out: it asks for the same path as the resolution that follows, and a path that the system cannot
be asked about fails in both. -/

namespace KernelRuntime
set_option autoImplicit false

/-- What path resolution depends on. `resolve` may fail, as on a loop of links; `str` is `str(v)`
for values other than strings. -/
structure FileSystem where
  workspaceRoot : String
  tempDir : String
  resolve : String → Except PyError (List String)
  str : Json → String

/-- `str(v)`. -/
def FileSystem.textOf (fs : FileSystem) : Json → String
  | .str s => s
  | v => fs.str v

/-- `str(path)` of an absolute path. -/
def pathText (components : List String) : String := "/" ++ String.intercalate "/" components

/-- `s[:8]`. -/
def shortId (s : String) : String := String.ofList (s.toList.take 8)

def getSessionRoot (fs : FileSystem) (tenantId sessionId : String) : String :=
  fs.workspaceRoot ++ "/t_" ++ shortId tenantId ++ "/s_" ++ shortId sessionId

def pathEscapes (resolved : List String) : PyError :=
  ⟨.governanceDeniedError, "Path escapes session root: " ++ pathText resolved⟩

/-- The path under the virtual root: `/workspace/` is cut off once. -/
def stripWorkspace (pathStr : String) : String :=
  match pathStr.toList.dropPrefix? "/workspace/".toList with
  | some rest => String.ofList rest
  | none => pathStr

def isAbsolute (path : String) : Bool := "/".toList.isPrefixOf path.toList

def resolveWorkspacePath (fs : FileSystem) (path : Json) (sessionId tenantId : String) :
    Except PyError (List String) := do
  let root ← fs.resolve
    (if sessionId = "" then fs.workspaceRoot else getSessionRoot fs tenantId sessionId)
  let pathStr := if path.truthy then fs.textOf path else "."
  if pathStr = "/" ∨ pathStr = "/workspace" then return root
  let candidate := stripWorkspace pathStr
  if isAbsolute candidate then
    let tempRoot ← fs.resolve fs.tempDir
    let resolved ← fs.resolve candidate
    if tempRoot.isPrefixOf resolved then return resolved
    if root.isPrefixOf resolved then return resolved
    throw (pathEscapes resolved)
  else
    let resolved ← fs.resolve (pathText root ++ "/" ++ candidate)
    if root.isPrefixOf resolved then return resolved
    throw (pathEscapes resolved)

/-! ## The two steps of the resolution -/

/-- The root of `resolve_workspace_path`, resolved. -/
def sessionRoot (fs : FileSystem) (sessionId tenantId : String) : Except PyError (List String) :=
  fs.resolve (if sessionId = "" then fs.workspaceRoot else getSessionRoot fs tenantId sessionId)

/-- `str(path or ".")`. -/
def pathString (fs : FileSystem) (path : Json) : String := if path.truthy then fs.textOf path else "."

/-- The two names of the root itself. -/
def IsVirtualRoot (pathStr : String) : Prop := pathStr = "/" ∨ pathStr = "/workspace"

instance (pathStr : String) : Decidable (IsVirtualRoot pathStr) := by
  unfold IsVirtualRoot
  infer_instance

/-- The path that is resolved for a relative path: it is taken from the root. -/
def underRoot (root : List String) (candidate : String) : String := pathText root ++ "/" ++ candidate

/-- `resolve_workspace_path` once the root is there. -/
def resolveFrom (fs : FileSystem) (path : Json) (root : List String) : Except PyError (List String) := do
  let pathStr := pathString fs path
  if IsVirtualRoot pathStr then return root
  let candidate := stripWorkspace pathStr
  if isAbsolute candidate then
    let tempRoot ← fs.resolve fs.tempDir
    let resolved ← fs.resolve candidate
    if tempRoot.isPrefixOf resolved then return resolved
    if root.isPrefixOf resolved then return resolved
    throw (pathEscapes resolved)
  else
    let resolved ← fs.resolve (underRoot root candidate)
    if root.isPrefixOf resolved then return resolved
    throw (pathEscapes resolved)

theorem resolveWorkspacePath_eq (fs : FileSystem) (path : Json) (sessionId tenantId : String) :
    resolveWorkspacePath fs path sessionId tenantId =
      (do let root ← sessionRoot fs sessionId tenantId; resolveFrom fs path root) := rfl

/-- How a path is accepted: as the root itself, as an absolute path in the temporary directory or in
the root, or as a path that stays in the root. -/
inductive ResolvesTo (fs : FileSystem) (pathStr : String) (root : List String) : List String → Prop
  | virtual (hvirtual : IsVirtualRoot pathStr) : ResolvesTo fs pathStr root root
  | absolute (tempRoot resolved : List String) (hvirtual : ¬ IsVirtualRoot pathStr)
      (habsolute : isAbsolute (stripWorkspace pathStr) = true)
      (htemp : fs.resolve fs.tempDir = .ok tempRoot)
      (hresolve : fs.resolve (stripWorkspace pathStr) = .ok resolved)
      (hinside : tempRoot <+: resolved ∨ root <+: resolved) : ResolvesTo fs pathStr root resolved
  | relative (resolved : List String) (hvirtual : ¬ IsVirtualRoot pathStr)
      (hrelative : isAbsolute (stripWorkspace pathStr) = false)
      (hresolve : fs.resolve (underRoot root (stripWorkspace pathStr)) = .ok resolved)
      (hinside : root <+: resolved) : ResolvesTo fs pathStr root resolved

/-- **`resolve_workspace_path` accepts a path in these three ways only.** -/
theorem resolveFrom_ok_iff (fs : FileSystem) (path : Json) (root resolved : List String) :
    resolveFrom fs path root = .ok resolved ↔ ResolvesTo fs (pathString fs path) root resolved := by
  unfold resolveFrom
  simp only
  by_cases hvirtual : IsVirtualRoot (pathString fs path)
  · rw [if_pos hvirtual]
    constructor
    · intro h
      cases h
      exact .virtual hvirtual
    · intro h
      cases h with
      | virtual _ => rfl
      | absolute _ _ hnot => exact absurd hvirtual hnot
      | relative _ hnot => exact absurd hvirtual hnot
  · rw [if_neg hvirtual]
    by_cases habsolute : isAbsolute (stripWorkspace (pathString fs path)) = true
    · rw [if_pos habsolute]
      constructor
      · intro h
        obtain ⟨tempRoot, htemp, h⟩ := bind_eq_ok_iff.mp h
        obtain ⟨p, hresolve, h⟩ := bind_eq_ok_iff.mp h
        by_cases hin : tempRoot.isPrefixOf p = true
        · rw [if_pos hin] at h
          cases h
          exact .absolute tempRoot resolved hvirtual habsolute htemp hresolve
            (Or.inl (List.isPrefixOf_iff_prefix.mp hin))
        · rw [if_neg hin] at h
          by_cases hroot : root.isPrefixOf p = true
          · rw [if_pos hroot] at h
            cases h
            exact .absolute tempRoot resolved hvirtual habsolute htemp hresolve
              (Or.inr (List.isPrefixOf_iff_prefix.mp hroot))
          · rw [if_neg hroot] at h
            cases h
      · intro h
        cases h with
        | virtual h => exact absurd h hvirtual
        | absolute tempRoot _ _ _ htemp hresolve hinside =>
          refine bind_eq_ok_iff.mpr ⟨tempRoot, htemp, bind_eq_ok_iff.mpr ⟨resolved, hresolve, ?_⟩⟩
          by_cases hin : tempRoot.isPrefixOf resolved = true
          · rw [if_pos hin]
            rfl
          · rw [if_neg hin, if_pos]
            · rfl
            · rw [List.isPrefixOf_iff_prefix] at hin ⊢
              exact hinside.resolve_left hin
        | relative _ _ hrelative => exact absurd habsolute (by rw [hrelative]; decide)
    · rw [if_neg habsolute]
      constructor
      · intro h
        obtain ⟨p, hresolve, h⟩ := bind_eq_ok_iff.mp h
        by_cases hroot : root.isPrefixOf p = true
        · rw [if_pos hroot] at h
          cases h
          exact .relative resolved hvirtual (Bool.not_eq_true _ ▸ habsolute) hresolve
            (List.isPrefixOf_iff_prefix.mp hroot)
        · rw [if_neg hroot] at h
          cases h
      · intro h
        cases h with
        | virtual h => exact absurd h hvirtual
        | absolute _ _ _ h => exact absurd h habsolute
        | relative _ _ _ hresolve hinside =>
          refine bind_eq_ok_iff.mpr ⟨resolved, hresolve, ?_⟩
          rw [if_pos (List.isPrefixOf_iff_prefix.mpr hinside)]
          rfl

/-- The path is resolved to the same place from both roots: the roots are one, or the path does not
depend on the root, or it leads to one place from both. -/
def NamesSamePlace (fs : FileSystem) (pathStr : String) (root root' : List String) : Prop :=
  root' = root ∨ ¬ IsVirtualRoot pathStr ∧
    (isAbsolute (stripWorkspace pathStr) = true ∨
      fs.resolve (underRoot root' (stripWorkspace pathStr)) =
        fs.resolve (underRoot root (stripWorkspace pathStr)))

theorem ResolvesTo.eq_iff {fs : FileSystem} {pathStr : String} {root root' path path' : List String}
    (h : ResolvesTo fs pathStr root path) (h' : ResolvesTo fs pathStr root' path') :
    path' = path ↔ NamesSamePlace fs pathStr root root' := by
  unfold NamesSamePlace
  cases h with
  | virtual hvirtual =>
    cases h' with
    | virtual _ => simp [hvirtual]
    | absolute _ _ hnot => exact absurd hvirtual hnot
    | relative _ hnot => exact absurd hvirtual hnot
  | absolute _ _ hvirtual habsolute _ hresolve _ =>
    cases h' with
    | virtual h => exact absurd h hvirtual
    | absolute _ _ _ _ _ hresolve' _ =>
      rw [hresolve] at hresolve'
      cases hresolve'
      simp [hvirtual, habsolute]
    | relative _ _ hrelative => rw [habsolute] at hrelative; cases hrelative
  | relative _ hvirtual hrelative hresolve _ =>
    cases h' with
    | virtual h => exact absurd h hvirtual
    | absolute _ _ _ habsolute => rw [habsolute] at hrelative; cases hrelative
    | relative _ _ _ hresolve' _ =>
      rw [hresolve, hresolve', hrelative]
      constructor
      · rintro rfl
        exact Or.inr ⟨hvirtual, Or.inr rfl⟩
      · rintro (rfl | ⟨-, h | h⟩)
        · rw [hresolve] at hresolve'
          cases hresolve'
          rfl
        · cases h
        · cases h
          rfl

/-! ## A file system without links -/

/-- The names between the slashes. -/
def splitPath : List Char → List Char → List String
  | name, [] => [String.ofList name]
  | name, c :: cs => if c = '/' then String.ofList name :: splitPath [] cs else splitPath (name ++ [c]) cs

/-- One name of a path, from the components before it. -/
def walk (components : List String) (name : String) : List String :=
  if name = "" ∨ name = "." then components
  else if name = ".." then components.dropLast
  else components ++ [name]

def plainFileSystem (workspaceRoot tempDir : String) : FileSystem where
  workspaceRoot := workspaceRoot
  tempDir := tempDir
  resolve path := .ok ((splitPath [] path.toList).foldl walk [])
  str v := v.typeName

example : resolveWorkspacePath (plainFileSystem "/srv/ws" "/tmp") (.str "/workspace/a/../b")
    "session-one" "acme" = .ok ["srv", "ws", "t_acme", "s_session-", "b"] := by decide

example : resolveWorkspacePath (plainFileSystem "/srv/ws" "/tmp") (.str "../../etc") "s1" "acme" =
    .error ⟨.governanceDeniedError, "Path escapes session root: /srv/ws/etc"⟩ := by decide

/-! ## The names of a path -/

/-- The names of a path as it is written. -/
def pathNames (path : String) : List String := (path.toList.splitOn '/').map String.ofList

theorem splitPath_eq (name cs : List Char) :
    splitPath name cs = ((cs.splitOn '/').modifyHead (name ++ ·)).map String.ofList := by
  induction cs generalizing name with
  | nil => simp [splitPath]
  | cons c cs ih =>
    unfold splitPath
    rw [List.splitOn_cons_eq_if_modifyHead]
    by_cases hc : c = '/'
    · rw [if_pos hc, if_pos (beq_iff_eq.mpr hc), ih []]
      cases hsplit : cs.splitOn '/' with
      | nil => simp
      | cons first rest => simp
    · rw [if_neg hc, if_neg (by simpa using hc), ih (name ++ [c])]
      cases hsplit : cs.splitOn '/' with
      | nil => rfl
      | cons first rest => simp

theorem resolve_plain (workspaceRoot tempDir path : String) :
    (plainFileSystem workspaceRoot tempDir).resolve path = .ok ((pathNames path).foldl walk []) := by
  unfold plainFileSystem pathNames
  simp only [splitPath_eq]
  cases path.toList.splitOn '/' with
  | nil => rfl
  | cons first rest => simp

theorem pathNames_append (a b : String) : pathNames (a ++ "/" ++ b) = pathNames a ++ pathNames b := by
  unfold pathNames
  have h : (a ++ "/" ++ b).toList = a.toList ++ '/' :: b.toList := by simp
  rw [h, List.splitOn_append_cons_self, List.map_append]

theorem pathNames_of_no_slash {name : String} (hname : '/' ∉ name.toList) : pathNames name = [name] := by
  unfold pathNames
  rw [List.splitOn_eq_singleton hname]
  simp

theorem pathNames_intercalate {names : List String} (hne : names ≠ [])
    (hnames : ∀ name ∈ names, '/' ∉ name.toList) :
    pathNames (String.intercalate "/" names) = names := by
  unfold pathNames
  have hchars : (String.intercalate "/" names).toList = ['/'].intercalate (names.map String.toList) := by
    simp
  have hslash : ∀ l ∈ names.map String.toList, '/' ∉ l := by
    intro l hl
    obtain ⟨name, hmem, rfl⟩ := List.mem_map.mp hl
    exact hnames name hmem
  rw [hchars, List.splitOn_intercalate '/' hslash (by simpa using hne), List.map_map]
  simp

/-- A name that `walk` appends. -/
def IsPlain (name : String) : Prop := name ≠ "" ∧ name ≠ "." ∧ name ≠ ".." ∧ '/' ∉ name.toList

instance (name : String) : Decidable (IsPlain name) := inferInstanceAs (Decidable (_ ∧ _ ∧ _ ∧ _))

theorem walk_plain (components : List String) {name : String} (hname : IsPlain name) :
    walk components name = components ++ [name] := by
  obtain ⟨hempty, hdot, hup, -⟩ := hname
  unfold walk
  rw [if_neg (not_or.mpr ⟨hempty, hdot⟩), if_neg hup]

theorem foldl_walk_plain {names : List String} (hnames : ∀ name ∈ names, IsPlain name)
    (components : List String) : names.foldl walk components = components ++ names := by
  induction names generalizing components with
  | nil => simp
  | cons name names ih =>
    rw [List.foldl_cons, walk_plain components (hnames name List.mem_cons_self),
      ih fun n hn => hnames n (List.mem_cons_of_mem _ hn)]
    simp

theorem pathNames_pathText {names : List String} (hne : names ≠ []) (hnames : ∀ name ∈ names, IsPlain name) :
    pathNames (pathText names) = "" :: names := by
  unfold pathText
  have hslash : "/" ++ String.intercalate "/" names = "" ++ "/" ++ String.intercalate "/" names := by simp
  rw [hslash, pathNames_append, pathNames_intercalate hne fun n hn => (hnames n hn).2.2.2]
  rfl

/-- A path that is written from proper names has these as its components. -/
theorem foldl_walk_pathText {names : List String} (hnames : ∀ name ∈ names, IsPlain name) :
    (pathNames (pathText names)).foldl walk [] = names := by
  by_cases hnil : names = []
  · subst hnil
    decide
  · rw [pathNames_pathText hnil hnames]
    exact foldl_walk_plain hnames []

theorem isPlain_foldl_walk {names components : List String} (hnames : ∀ name ∈ names, '/' ∉ name.toList)
    (hcomponents : ∀ name ∈ components, IsPlain name) :
    ∀ name ∈ names.foldl walk components, IsPlain name := by
  induction names generalizing components with
  | nil => exact hcomponents
  | cons name names ih =>
    refine ih (fun n hn => hnames n (List.mem_cons_of_mem _ hn)) ?_
    unfold walk
    split_ifs with hstay hup
    · exact hcomponents
    · exact fun n hn => hcomponents n (List.dropLast_subset _ hn)
    · intro n hn
      rcases List.mem_append.mp hn with hn | hn
      · exact hcomponents n hn
      · obtain rfl := List.mem_singleton.mp hn
        rw [not_or] at hstay
        exact ⟨hstay.1, hstay.2, hup, hnames n List.mem_cons_self⟩

theorem not_mem_of_mem_splitOn {sep : Char} {cs part : List Char} (hpart : part ∈ cs.splitOn sep) : sep ∉ part := by
  induction cs generalizing part with
  | nil =>
    rw [List.splitOn_nil, List.mem_singleton] at hpart
    simp [hpart]
  | cons c cs ih =>
    rw [List.splitOn_cons_eq_if_modifyHead] at hpart
    split_ifs at hpart with hc
    · rcases List.mem_cons.mp hpart with rfl | hpart
      · exact List.not_mem_nil
      · exact ih hpart
    · cases hsplit : cs.splitOn sep with
      | nil => exact absurd hsplit (List.splitOn_ne_nil _ _)
      | cons first rest =>
        rw [hsplit] at hpart ih
        rcases List.mem_cons.mp hpart with rfl | hpart
        · have hfirst := ih List.mem_cons_self
          have hc' : c ≠ sep := by simpa using hc
          simp [hfirst, hc'.symm]
        · exact ih (List.mem_cons_of_mem _ hpart)

theorem no_slash_pathNames (path : String) : ∀ name ∈ pathNames path, '/' ∉ name.toList := by
  intro name hname
  obtain ⟨cs, hcs, rfl⟩ := List.mem_map.mp hname
  rw [String.toList_ofList]
  exact not_mem_of_mem_splitOn hcs

/-! ## Relative paths -/

theorem pathString_str {p : String} (h : p ≠ "") (fs : FileSystem) : pathString fs (.str p) = p := by
  unfold pathString
  rw [if_pos (by simpa [Json.truthy] using h)]
  rfl

theorem pathString_empty (fs : FileSystem) : pathString fs (.str "") = "." := rfl

section Relative
variable {p : String} (h : isAbsolute p = false)
include h

theorem not_isVirtualRoot_of_relative : ¬ IsVirtualRoot p := by
  rintro (rfl | rfl)
  · exact absurd h (by decide)
  · exact absurd h (by decide)

theorem stripWorkspace_of_relative : stripWorkspace p = p := by
  unfold stripWorkspace
  unfold isAbsolute at h
  cases hchars : p.toList with
  | nil => rfl
  | cons c cs =>
    rw [hchars] at h
    have hne : c ≠ '/' := by
      rintro rfl
      exact absurd h (by simp)
    have hdrop : (c :: cs).dropPrefix? "/workspace/".toList = none := by
      change List.dropPrefix? (c :: cs) ('/' :: "workspace/".toList) = none
      rw [List.dropPrefix?, if_neg (by simpa using hne)]
    rw [hdrop]

end Relative

/-- Proper names, written one after the other, are a relative path. -/
theorem isAbsolute_intercalate {names : List String} (hne : names ≠ [])
    (hnames : ∀ name ∈ names, name ≠ "" ∧ '/' ∉ name.toList) : isAbsolute (String.intercalate "/" names) = false := by
  obtain ⟨first, more, rfl⟩ := List.exists_cons_of_ne_nil hne
  obtain ⟨hempty, hslash⟩ := hnames first List.mem_cons_self
  obtain ⟨c, cs, hc⟩ := List.exists_cons_of_ne_nil fun h => hempty (String.toList_eq_nil_iff.mp h)
  obtain ⟨cs', hchars⟩ : ∃ cs', (String.intercalate "/" (first :: more)).toList = c :: cs' := by
    rw [String.toList_intercalate, List.map_cons, hc]
    cases more with
    | nil => exact ⟨cs, by simp⟩
    | cons second more => exact ⟨_, rfl⟩
  have hfirst : '/' ≠ c := by
    rintro rfl
    exact hslash (by rw [hc]; exact List.mem_cons_self)
  unfold isAbsolute
  rw [hchars]
  change ('/' :: []).isPrefixOf (c :: cs') = false
  rw [List.isPrefixOf, Bool.and_eq_false_iff]
  exact Or.inl (by simpa using hfirst)

end KernelRuntime
