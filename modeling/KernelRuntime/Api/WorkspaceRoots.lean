import KernelRuntime.Api.Workspaces
import KernelRuntime.Governance.Routes

/-! # The directories of the workspaces of a tenant

`prepare_workspaces` makes a directory for every binding under `tenant_<tenant>`, by a slug that the client sends or
that comes from its path or its URL. The slug is joined to the root as it is. -/

namespace KernelRuntime.WorkspaceRoots
open Workspaces
set_option autoImplicit false

/-- A binding with all that a client may send. -/
structure WorkspaceBinding extends Workspaces.WorkspaceBinding where
  branch : String
deriving DecidableEq

/-- Where the workspaces are, `str.lower`, the paths that no call of the operating system takes, and the directories
that it does not let the process make. Lower case neither makes nor unmakes a slash or a text of dots. -/
structure Machine where
  workspaceRoot : String
  lower : String → String
  unusable : PurePath → Bool
  refusesDirectory : List String → Bool
  lower_slash : ∀ text, '/' ∈ (lower text).toList → '/' ∈ text.toList
  lower_dots : ∀ text dots, (∀ c ∈ dots.toList, c = '.') → (lower text = dots ↔ text = dots)

/-- A dictionary of the list that `prepare_workspaces` returns. -/
structure WorkspaceRow where
  type : String
  slug : String
  branch : String
  name : String
  path : Option String
  url : Option String
deriving DecidableEq

/-- `WORKSPACE_ROOT`. -/
def rootPath (m : Machine) : PurePath := ⟨.root, ContainerPaths.resolved m.workspaceRoot⟩

/-- `workspace_root() / f"tenant_{tenant_id}"`. -/
def tenantPath (m : Machine) (tenantId : String) : PurePath := (rootPath m).join (.of ("tenant_" ++ tenantId))

/-- `ws_root`. -/
def wsRoot (m : Machine) (tenantId slug : String) : PurePath := (tenantPath m tenantId).join (.of slug)

def rowOf (ws : WorkspaceBinding) (slug : String) (path : PurePath) : WorkspaceRow where
  type := ws.type
  slug := slug
  branch := ws.branch
  name := slug
  path := if ws.type = "local" then some path.text else none
  url := if ws.type = "git" then ws.url else none

/-- `path.mkdir(parents=True, exist_ok=True)`. -/
def mkdir (m : Machine) (t : FileTree) (path : PurePath) : FileTree.Walked :=
  FileTree.mkdirs (m.unusable path) m.refusesDirectory t path.places

/-- What one turn of the loop did: the directories it made, its row unless it raised, and the disk after it. -/
structure Prepared where
  made : List (List String)
  row : Option WorkspaceRow
  disk : FileTree

/-- One turn of the loop of `prepare_workspaces`. -/
def prepareWorkspace (m : Machine) (tenantId : String) (t : FileTree) (ws : WorkspaceBinding) (hex : String) :
    Prepared :=
  let slug := makeSlug m.lower ws.toWorkspaceBinding hex
  let root := mkdir m t (rootPath m)
  if root.done then
    let walked := mkdir m root.tree (wsRoot m tenantId slug)
    ⟨root.made ++ walked.made, if walked.done then some (rowOf ws slug (wsRoot m tenantId slug)) else none,
      walked.tree⟩
  else ⟨root.made, none, root.tree⟩

/-- A turn that raised is the last one. -/
def step (m : Machine) (tenantId : String) (t : FileTree) (ws : WorkspaceBinding × String) : Option FileTree :=
  let prepared := prepareWorkspace m tenantId t ws.1 ws.2
  if prepared.row.isSome then some prepared.disk else none

def prepareAll (m : Machine) (tenantId : String) (t : FileTree) : List (WorkspaceBinding × String) → List Prepared
  | [] => []
  | ws :: rest =>
    let prepared := prepareWorkspace m tenantId t ws.1 ws.2
    prepared :: if prepared.row.isSome then prepareAll m tenantId prepared.disk rest else []

/-- `workspaces or [WorkspaceBinding(type="local")]`, with the hex text of a fresh identifier for each. -/
def bindingsOf (workspaces : List (WorkspaceBinding × String)) (hex : String) : List (WorkspaceBinding × String) :=
  if workspaces = [] then [(⟨⟨"local", none, none, none⟩, "main"⟩, hex)] else workspaces

/-- `prepare_workspaces`: what it does for each binding that it comes to. -/
def prepareWorkspaces (m : Machine) (tenantId : String) (t : FileTree) (workspaces : List (WorkspaceBinding × String))
    (hex : String) : List Prepared :=
  prepareAll m tenantId t (bindingsOf workspaces hex)

/-! ## Containment -/

/-- Every directory that was made, and the path in the row, lie strictly inside the directory of the tenant. -/
structure Contained (tenantRoot : List String) (p : Prepared) : Prop where
  made : ∀ q ∈ p.made, StrictlyInside tenantRoot q
  recorded : ∀ row path, p.row = some row → row.path = some path →
    isAbsolute path = true ∧ StrictlyInside tenantRoot (PurePath.of path).place

/-- The path and its parents can all be directories. -/
structure Stands (m : Machine) (t : FileTree) (path : PurePath) : Prop where
  usable : m.unusable path = false
  way : ∀ q ∈ path.places, FileTree.blocked m.refusesDirectory t q = false

/-- The places that a turn comes to: on the way to the root of all workspaces, and from there on the way to its own
directory. -/
def Reaches (m : Machine) (t : FileTree) (path : PurePath) (q : List String) : Prop :=
  (m.unusable (rootPath m) = false ∧ q ∈ FileTree.passed m.refusesDirectory t (rootPath m).places) ∨
    Stands m t (rootPath m) ∧ m.unusable path = false ∧ q ∈ FileTree.passed m.refusesDirectory t path.places

/-! ## What a client may send -/

section Sent
variable (m : Machine) (t : FileTree) (tenant : PurePath)

/-- A directory is there, or nothing is and it can be made. -/
def Free (q : List String) : Prop := FileTree.blocked m.refusesDirectory t q = false

/-- What is missing along these names lies below the directory of the tenant. -/
def MissingBelow (names : List String) : Prop :=
  Visits (Free m t) (fun q => t q = none → StrictlyInside tenant.place q) [] names

/-- A text that is joined as it is. What is missing on its way lies below the directory of the tenant, and so does its
end if a local workspace is made there. -/
structure TextOk (isLocal : Prop) (text : String) : Prop where
  missing : MissingBelow m t tenant (route tenant text).parts
  ends : isLocal → Along (Free m t) [] (route tenant text).parts →
    StrictlyInside tenant.place ((route tenant text).parts.foldl walk [])

/-- A single name. What is missing on the way to the directory of the tenant lies below it, so that is there already,
and a local workspace has a name of its own. -/
structure NameOk (isLocal : Prop) (name : String) : Prop where
  missing : MissingBelow m t tenant tenant.parts
  proper : isLocal → Along (Free m t) [] tenant.parts → name ≠ "" ∧ name ≠ "." ∧ name ≠ ".."

/-- The slug of the client, else the last name of its path, else that of its URL, else a fresh name. A way that the
operating system does not take is not gone. -/
def BindingOk (ws : WorkspaceBinding) (hex : String) : Prop :=
  let path := ws.path.getD ""
  let url := ws.url.getD ""
  if ws.slug.getD "" ≠ "" then
    m.unusable (route tenant (ws.slug.getD "")) = false → TextOk m t tenant (ws.type = "local") (ws.slug.getD "")
  else if ws.type = "local" ∧ path ≠ "" then
    m.unusable (route tenant (slugText m.lower ((textNames path).getLast?.getD ""))) = false →
      NameOk m t tenant True ((textNames path).getLast?.getD "")
  else if ws.type = "git" ∧ url ≠ "" then
    m.unusable (route tenant (slugText m.lower (repositoryName url))) = false →
      NameOk m t tenant False (repositoryName url)
  else
    m.unusable (route tenant ("workspace-" ++ shortId hex)) = false →
      TextOk m t tenant (ws.type = "local") ("workspace-" ++ shortId hex)

end Sent

/-- What is missing on the way to the root of all workspaces lies below the directory of the tenant, and with the root
there, what the client sent does not lead out of that directory. -/
structure StepOk (m : Machine) (tenantId : String) (t : FileTree) (ws : WorkspaceBinding × String) : Prop where
  root : m.unusable (rootPath m) = false → MissingBelow m t (tenantPath m tenantId) (rootPath m).parts
  sent : Stands m t (rootPath m) → BindingOk m t (tenantPath m tenantId) ws.1 ws.2

/-! ## One binding -/

section Binding
variable {m : Machine} {t : FileTree} {path : PurePath}

theorem mem_mkdir {q : List String} : q ∈ (mkdir m t path).made ↔
    m.unusable path = false ∧ q ∈ FileTree.passed m.refusesDirectory t path.places ∧ t q = none :=
  FileTree.mem_mkdirs_iff _ q

/-- What a second path makes is what the first one left missing. -/
theorem mem_mkdir_mkdir {path' : PurePath} {q : List String} : q ∈ (mkdir m (mkdir m t path).tree path').made ↔
    m.unusable path' = false ∧ q ∈ FileTree.passed m.refusesDirectory t path'.places ∧
      q ∉ (mkdir m t path).made ∧ t q = none := by
  have hpassed : FileTree.passed m.refusesDirectory (mkdir m t path).tree path'.places =
      FileTree.passed m.refusesDirectory t path'.places := FileTree.passed_mkdirs _ _
  have htree : (mkdir m t path).tree q = if q ∈ (mkdir m t path).made then some .directory else t q :=
    FileTree.mkdirs_tree _ q
  rw [mem_mkdir, hpassed, htree]
  split_ifs with hmade
  · exact iff_of_false nofun fun h => h.2.2.1 hmade
  · rw [and_iff_right (a := q ∉ _) hmade]

theorem mkdir_done : (mkdir m t path).done = true ↔ Stands m t path :=
  (FileTree.mkdirs_done_iff _).trans ⟨fun h => ⟨h.1, h.2⟩, fun h => ⟨h.usable, h.way⟩⟩

theorem stands_mkdir {path' : PurePath} : Stands m (mkdir m t path).tree path' ↔ Stands m t path' := by
  have hblocked : FileTree.blocked m.refusesDirectory (mkdir m t path).tree = FileTree.blocked m.refusesDirectory t :=
    funext fun q => FileTree.blocked_mkdirs _ q
  refine ⟨fun h => ⟨h.usable, ?_⟩, fun h => ⟨h.usable, ?_⟩⟩
  · rw [← hblocked]
    exact h.way
  · rw [hblocked]
    exact h.way

variable {tenantId hex : String} {ws : WorkspaceBinding}

theorem mem_prepared {q : List String} : q ∈ (prepareWorkspace m tenantId t ws hex).made ↔
    Reaches m t (wsRoot m tenantId (makeSlug m.lower ws.toWorkspaceBinding hex)) q ∧ t q = none := by
  unfold prepareWorkspace Reaches
  simp only
  by_cases hroot : Stands m t (rootPath m)
  · rw [if_pos (mkdir_done.mpr hroot), List.mem_append, mem_mkdir_mkdir]
    constructor
    · rintro (hmade | ⟨husable, hpassed, _, hnone⟩)
      · obtain ⟨husable, hpassed, hnone⟩ := mem_mkdir.mp hmade
        exact ⟨Or.inl ⟨husable, hpassed⟩, hnone⟩
      · exact ⟨Or.inr ⟨hroot, husable, hpassed⟩, hnone⟩
    · rintro ⟨⟨husable, hpassed⟩ | ⟨_, husable, hpassed⟩, hnone⟩
      · exact Or.inl (mem_mkdir.mpr ⟨husable, hpassed, hnone⟩)
      · by_cases hmade : q ∈ (mkdir m t (rootPath m)).made
        · exact Or.inl hmade
        · exact Or.inr ⟨husable, hpassed, hmade, hnone⟩
  · rw [if_neg fun h => hroot (mkdir_done.mp h), mem_mkdir]
    constructor
    · exact fun h => ⟨Or.inl ⟨h.1, h.2.1⟩, h.2.2⟩
    · rintro ⟨⟨husable, hpassed⟩ | ⟨h, _⟩, hnone⟩
      · exact ⟨husable, hpassed, hnone⟩
      · exact absurd h hroot

theorem row_prepared {row : WorkspaceRow} : (prepareWorkspace m tenantId t ws hex).row = some row ↔
    Stands m t (rootPath m) ∧ Stands m t (wsRoot m tenantId (makeSlug m.lower ws.toWorkspaceBinding hex)) ∧
      row = rowOf ws (makeSlug m.lower ws.toWorkspaceBinding hex)
        (wsRoot m tenantId (makeSlug m.lower ws.toWorkspaceBinding hex)) := by
  unfold prepareWorkspace
  simp only
  by_cases hroot : Stands m t (rootPath m)
  · rw [if_pos (mkdir_done.mpr hroot), and_iff_right hroot, ← @stands_mkdir m t (rootPath m), ← mkdir_done]
    split_ifs with hdone
    · exact ⟨fun h => ⟨hdone, (Option.some.inj h).symm⟩, fun h => congrArg some h.2.symm⟩
    · exact iff_of_false nofun fun h => hdone h.1
  · rw [if_neg fun h => hroot (mkdir_done.mp h)]
    exact iff_of_false nofun fun h => hroot h.1

/-! ## The path of a workspace -/

theorem isName_rootPath (m : Machine) : ∀ name ∈ (rootPath m).parts, PurePath.IsName name := by
  intro name hname
  have hplain := isPlain_foldl_walk (no_slash_pathNames m.workspaceRoot) (List.forall_mem_nil _) name hname
  exact ⟨hplain.1, hplain.2.1, hplain.2.2.2⟩

theorem isName_wsRoot (m : Machine) (tenantId slug : String) :
    ∀ name ∈ (wsRoot m tenantId slug).parts, PurePath.IsName name :=
  PurePath.isName_join (PurePath.isName_join (isName_rootPath m) (PurePath.isName_of _)) (PurePath.isName_of _)

theorem wsRoot_absolute (m : Machine) (tenantId slug : String) : (wsRoot m tenantId slug).anchor ≠ .relative :=
  PurePath.join_absolute (PurePath.join_absolute (show Anchor.root ≠ .relative from nofun) _) _

/-- A turn goes along the text of its slug. -/
theorem contained_iff_text {slug : String} (hslug : makeSlug m.lower ws.toWorkspaceBinding hex = slug) :
    Contained (tenantPath m tenantId).place (prepareWorkspace m tenantId t ws hex) ↔
      (m.unusable (rootPath m) = false → MissingBelow m t (tenantPath m tenantId) (rootPath m).parts) ∧
      (Stands m t (rootPath m) → m.unusable (route (tenantPath m tenantId) slug) = false →
        TextOk m t (tenantPath m tenantId) (ws.type = "local") slug) := by
  subst hslug
  have hpath : wsRoot m tenantId (makeSlug m.lower ws.toWorkspaceBinding hex) =
      route (tenantPath m tenantId) (makeSlug m.lower ws.toWorkspaceBinding hex) := join_of _ _
  have hnames : ∀ name ∈ (wsRoot m tenantId (makeSlug m.lower ws.toWorkspaceBinding hex)).parts,
      PurePath.IsName name := isName_wsRoot m tenantId _
  constructor
  · intro h
    refine ⟨fun husable => ?_, fun hroot husable => ⟨?_, fun hlocal hway => ?_⟩⟩
    · exact (visits_iff _ _).mpr fun q hq hnone => h.made q (mem_prepared.mpr ⟨Or.inl ⟨husable, hq⟩, hnone⟩)
    · rw [← hpath] at husable ⊢
      exact (visits_iff _ _).mpr fun q hq hnone =>
        h.made q (mem_prepared.mpr ⟨Or.inr ⟨hroot, husable, hq⟩, hnone⟩)
    · rw [← hpath] at husable hway ⊢
      have hstands : Stands m t (wsRoot m tenantId (makeSlug m.lower ws.toWorkspaceBinding hex)) :=
        ⟨husable, (along_iff _ _).mp hway⟩
      have hplace := (h.recorded _ _ (row_prepared.mpr ⟨hroot, hstands, rfl⟩) (if_pos hlocal)).2
      rwa [PurePath.place_of_text hnames] at hplace
  · rintro ⟨hrootWay, htext⟩
    refine ⟨fun q hq => ?_, fun row path hrow hrecorded => ?_⟩
    · obtain ⟨⟨husable, hpassed⟩ | ⟨hroot, husable, hpassed⟩, hnone⟩ := mem_prepared.mp hq
      · exact (visits_iff _ _).mp (hrootWay husable) q hpassed hnone
      · rw [hpath] at husable hpassed
        exact (visits_iff _ _).mp (htext hroot husable).missing q hpassed hnone
    · obtain ⟨hroot, hstands, rfl⟩ := row_prepared.mp hrow
      unfold rowOf at hrecorded
      simp only at hrecorded
      split_ifs at hrecorded with hlocal
      obtain rfl := Option.some.inj hrecorded
      refine ⟨PurePath.isAbsolute_text (wsRoot_absolute m tenantId _) _, ?_⟩
      rw [PurePath.place_of_text hnames]
      rw [hpath] at hstands ⊢
      exact (htext hroot hstands.usable).ends hlocal ((along_iff _ _).mpr hstands.way)

end Binding

/-! ## Single names -/

section Names
variable {m : Machine} {t : FileTree} {tenant : PurePath} {isLocal : Prop} {name : String}

/-- All above the directory of the tenant is there once nothing outside it is missing. -/
theorem there_above (hmissing : MissingBelow m t tenant tenant.parts) (hway : Along (Free m t) [] tenant.parts)
    {q : List String} (hq : q <+: tenant.place) : t q ≠ none := by
  intro hnone
  obtain ⟨hle, hne⟩ := (hmissing.along hway).above_end hq hnone
  exact hne (hq.eq_of_length (le_antisymm hq.length_le hle.length_le))

/-- One name more leads to the directory of the tenant, to the one above it, or to one below it. -/
theorem textOk_iff_nameOk (hslash : '/' ∉ name.toList) : TextOk m t tenant isLocal name ↔
    NameOk m t tenant isLocal name := by
  have hroute : (route tenant name).parts = tenant.parts ++ if name = "" ∨ name = "." then [] else [name] := by
    rw [route_name tenant hslash]
  have hplace : tenant.parts.foldl walk [] = tenant.place := rfl
  by_cases hstay : name = "" ∨ name = "."
  · rw [if_pos hstay, List.append_nil] at hroute
    constructor
    · intro h
      refine ⟨hroute ▸ h.missing, fun hlocal hway => ?_⟩
      have hends := h.ends hlocal (hroute.symm ▸ hway)
      rw [hroute] at hends
      exact absurd rfl hends.2
    · intro h
      refine ⟨hroute.symm ▸ h.missing, fun hlocal hway => ?_⟩
      obtain ⟨hempty, hdot, -⟩ := h.proper hlocal (hroute ▸ hway)
      exact absurd hstay (not_or.mpr ⟨hempty, hdot⟩)
  · rw [if_neg hstay] at hroute
    have hmissing : MissingBelow m t tenant (route tenant name).parts ↔ MissingBelow m t tenant tenant.parts := by
      unfold MissingBelow
      rw [hroute, visits_append, hplace]
      refine and_iff_left_of_imp fun hbelow hway hfree => ⟨fun hnone => ?_, fun _ hnone => ?_⟩
      · exact absurd hnone (there_above hbelow hway List.prefix_rfl)
      · by_cases hup : name = ".."
        · rw [hup] at hnone
          exact absurd hnone (there_above hbelow hway (List.dropLast_prefix _))
        · rw [walk_plain _ ⟨(not_or.mp hstay).1, (not_or.mp hstay).2, hup, hslash⟩]
          exact ⟨List.prefix_append _ _, by simp⟩
    have hend : (route tenant name).parts.foldl walk [] = walk tenant.place name := by
      rw [hroute, List.foldl_append, hplace]
      rfl
    have hway : MissingBelow m t tenant tenant.parts → Along (Free m t) [] tenant.parts → name = ".." →
        Along (Free m t) [] (route tenant name).parts := by
      rintro - halong rfl
      rw [hroute, along_append, hplace]
      have hfree : ∀ q, q <+: tenant.place → Free m t q := fun q hq => halong.above_end hq
      exact ⟨halong, hfree _ List.prefix_rfl, hfree _ (List.dropLast_prefix _)⟩
    constructor
    · intro h
      have hbelow := hmissing.mp h.missing
      refine ⟨hbelow, fun hlocal halong => ⟨(not_or.mp hstay).1, (not_or.mp hstay).2, fun hup => ?_⟩⟩
      have hinside := h.ends hlocal (hway hbelow halong hup)
      rw [hend, hup] at hinside
      have hup_le : tenant.place.dropLast <+: tenant.place := List.dropLast_prefix _
      have hle : tenant.place <+: tenant.place.dropLast := hinside.1
      exact hinside.2 (hup_le.eq_of_length (le_antisymm hup_le.length_le hle.length_le))
    · intro h
      refine ⟨hmissing.mpr h.missing, fun hlocal halong => ?_⟩
      rw [hroute] at halong
      obtain ⟨hempty, hdot, hup⟩ := h.proper hlocal ((along_append _ _ _).mp halong).1
      rw [hend, walk_plain _ ⟨hempty, hdot, hup, hslash⟩]
      exact ⟨List.prefix_append _ _, by simp⟩

end Names

section Slugs
variable (m : Machine) {name : String}

theorem slash_slugText (h : '/' ∉ name.toList) : '/' ∉ (slugText m.lower name).toList := by
  unfold slugText
  rw [String.toList_ofList]
  intro hmem
  obtain ⟨c, hc, hslash⟩ := List.mem_map.mp (List.mem_of_mem_take hmem)
  split_ifs at hslash with hblank
  · exact absurd hslash (by decide)
  · rw [hslash] at hc
    exact h (m.lower_slash name hc)

/-- A slug of a few dots comes from a name of these dots only. -/
theorem slugText_eq_dots {dots : String} (hall : (dots.toList.all (· == '.')) = true) (hshort : dots.toList.length < 64) :
    slugText m.lower name = dots ↔ name = dots := by
  have hdots : ∀ c ∈ dots.toList, c = '.' := fun c hc => beq_iff_eq.mp (List.all_eq_true.mp hall c hc)
  have hkept : ∀ cs : List Char, (∀ c ∈ cs, (if c = ' ' then '-' else c) = '.') →
      (cs.map fun c => if c = ' ' then '-' else c) = cs := by
    intro cs hcs
    refine (List.map_congr_left fun c hc => ?_).trans (List.map_id cs)
    have hdot := hcs c hc
    split_ifs at hdot ⊢
    · exact absurd hdot (by decide)
    · rfl
  rw [← m.lower_dots name dots hdots]
  unfold slugText
  constructor
  · intro h
    have htake : ((m.lower name).toList.map fun c => if c = ' ' then '-' else c).take 64 = dots.toList := by
      rw [← h, String.toList_ofList]
    have hlength := congrArg List.length htake
    rw [List.length_take] at hlength
    rw [List.take_of_length_le (by omega)] at htake
    have hall : ∀ c ∈ (m.lower name).toList, (if c = ' ' then '-' else c) = '.' := fun c hc =>
      hdots _ (htake ▸ List.mem_map_of_mem (f := fun c => if c = ' ' then '-' else c) hc)
    rw [hkept _ hall] at htake
    exact String.toList_inj.mp htake
  · intro h
    have hall : ∀ c ∈ dots.toList, (if c = ' ' then '-' else c) = '.' := fun c hc => by rw [hdots c hc]; rfl
    rw [h, hkept _ hall, List.take_of_length_le hshort.le, String.ofList_toList]

/-- The slug of a name leads where the name does. -/
theorem nameOk_slugText {t : FileTree} {tenant : PurePath} {isLocal : Prop} :
    NameOk m t tenant isLocal (slugText m.lower name) ↔ NameOk m t tenant isLocal name := by
  have hempty : slugText m.lower name = "" ↔ name = "" := slugText_eq_dots m (by decide) (by decide)
  have hdot : slugText m.lower name = "." ↔ name = "." := slugText_eq_dots m (by decide) (by decide)
  have hup : slugText m.lower name = ".." ↔ name = ".." := slugText_eq_dots m (by decide) (by decide)
  have hproper : slugText m.lower name ≠ "" ∧ slugText m.lower name ≠ "." ∧ slugText m.lower name ≠ ".." ↔
      name ≠ "" ∧ name ≠ "." ∧ name ≠ ".." :=
    and_congr (not_congr hempty) (and_congr (not_congr hdot) (not_congr hup))
  exact ⟨fun h => ⟨h.missing, fun hlocal hway => hproper.mp (h.proper hlocal hway)⟩,
    fun h => ⟨h.missing, fun hlocal hway => hproper.mpr (h.proper hlocal hway)⟩⟩

theorem no_slash_last (path : String) : '/' ∉ ((pathNames path).getLast?.getD "").toList := by
  cases hlast : (pathNames path).getLast? with
  | none => exact List.not_mem_nil
  | some name => exact no_slash_pathNames path name (List.mem_of_getLast? hlast)

theorem slash_lastName (path : String) : '/' ∉ ((textNames path).getLast?.getD "").toList := by
  cases hlast : (textNames path).getLast? with
  | none => exact List.not_mem_nil
  | some name => exact no_slash_pathNames path name (List.mem_filter.mp (List.mem_of_getLast? hlast)).1

theorem slash_repositoryName (url : String) : '/' ∉ (repositoryName url).toList := by
  have hsplit : ∀ cs, splitPath [] cs = pathNames (String.ofList cs) := by
    intro cs
    unfold pathNames
    rw [splitPath_eq, String.toList_ofList]
    cases cs.splitOn '/' with
    | nil => rfl
    | cons first rest => simp
  unfold repositoryName
  simp only
  rw [hsplit]
  have hslash := no_slash_last (String.ofList (url.toList.reverse.dropWhile (· = '/')).reverse)
  split
  · next rest hrest =>
    obtain ⟨suffix, happend, -⟩ := List.dropPrefix?_eq_some_iff.mp hrest
    rw [String.toList_ofList, List.mem_reverse]
    intro hmem
    refine hslash (List.mem_reverse.mp ?_)
    rw [happend]
    exact List.mem_append_right _ hmem
  · exact hslash

end Slugs

/-! ## One turn -/

theorem contained_iff {m : Machine} {tenantId hex : String} {t : FileTree} {ws : WorkspaceBinding} :
    Contained (tenantPath m tenantId).place (prepareWorkspace m tenantId t ws hex) ↔
      StepOk m tenantId t (ws, hex) := by
  rw [contained_iff_text rfl]
  have hsent : ∀ tenant : PurePath, BindingOk m t tenant ws hex ↔
      (m.unusable (route tenant (makeSlug m.lower ws.toWorkspaceBinding hex)) = false →
        TextOk m t tenant (ws.type = "local") (makeSlug m.lower ws.toWorkspaceBinding hex)) := by
    intro tenant
    have hlast : (ToolExecution.pureParts (ws.path.getD "")).getLast?.getD "" =
        (textNames (ws.path.getD "")).getLast?.getD "" := by
      rw [ContainerPaths.pureParts_eq]
      rfl
    unfold BindingOk makeSlug
    simp only
    rw [hlast]
    split_ifs with hslug hpath hurl
    · exact Iff.rfl
    · rw [textOk_iff_nameOk (slash_slugText m (slash_lastName _)), nameOk_slugText, eq_true hpath.1]
    · have hremote : (ws.type = "local") = False := eq_false (by rw [hurl.1]; decide)
      rw [textOk_iff_nameOk (slash_slugText m (slash_repositoryName _)), nameOk_slugText, hremote]
    · exact Iff.rfl
  exact ⟨fun h => ⟨h.1, fun hroot => (hsent _).mpr (h.2 hroot)⟩,
    fun h => ⟨h.root, fun hroot => (hsent _).mp (h.sent hroot)⟩⟩

/-! ## All bindings -/

theorem prepareAll_contained_iff (m : Machine) (tenantId : String) (t : FileTree)
    (workspaces : List (WorkspaceBinding × String)) :
    (∀ p ∈ prepareAll m tenantId t workspaces, Contained (tenantPath m tenantId).place p) ↔
      Guarded (step m tenantId) (StepOk m tenantId) t workspaces := by
  induction workspaces generalizing t with
  | nil => exact iff_of_true nofun True.intro
  | cons ws rest ih =>
    unfold prepareAll
    rw [List.forall_mem_cons, contained_iff]
    refine and_congr_right fun _ => ?_
    cases hrow : (prepareWorkspace m tenantId t ws.1 ws.2).row with
    | none =>
      have hstep : step m tenantId t ws = none := by simp [step, hrow]
      rw [hstep]
      exact iff_of_true nofun nofun
    | some row =>
      have hstep : step m tenantId t ws = some (prepareWorkspace m tenantId t ws.1 ws.2).disk := by simp [step, hrow]
      rw [hstep]
      exact (ih _).trans ⟨fun h t' ht' => Option.some.inj ht' ▸ h, fun h => h _ rfl⟩

/-- The directories and the recorded paths of bindings lie inside the directory of the tenant exactly when what the
client sent does not lead out of it. -/
theorem prepareWorkspaces_contained_iff (m : Machine) (tenantId : String) (t : FileTree)
    (workspaces : List (WorkspaceBinding × String)) (hex : String) :
    (∀ p ∈ prepareWorkspaces m tenantId t workspaces hex, Contained (tenantPath m tenantId).place p) ↔
      Guarded (step m tenantId) (StepOk m tenantId) t (bindingsOf workspaces hex) :=
  prepareAll_contained_iff m tenantId t _

/-! ## Slugs that stay inside -/

theorem of_plain {slug : String} (h : IsPlain slug) : PurePath.of slug = ⟨.relative, [slug]⟩ := by
  have hanchor : anchorOf slug = .relative := by
    rw [PurePath.anchorOf_relative, ← Bool.not_eq_true, PurePath.isAbsolute_iff]
    rintro ⟨cs, hcs⟩
    exact h.2.2.2 (hcs ▸ List.mem_cons_self)
  have hparts : ToolExecution.pureParts slug = [slug] := by
    rw [ContainerPaths.pureParts_eq, pathNames_of_no_slash h.2.2.2]
    exact ContainerPaths.filter_plain fun name hname => List.mem_singleton.mp hname ▸ h
  unfold PurePath.of
  rw [hanchor, hparts]

/-- A machine that refuses nothing, and the directory of a tenant on it. -/
def openMachine : Machine := ⟨"/srv", id, fun _ => false, fun _ => false, fun _ h => h, fun _ _ _ => Iff.rfl⟩

def acmeTree : FileTree := fun q => if q <+: ["srv", "tenant_acme"] then some .directory else none

/-- A slug of a client leads to a directory beside that of the tenant. -/
theorem slug_escapes : ¬ ∀ p ∈ prepareWorkspaces openMachine "acme" acmeTree
    [(⟨⟨"local", none, none, some "../tenant_other"⟩, "main"⟩, "0123456789")] "0123456789",
    Contained (tenantPath openMachine "acme").place p := by
  intro h
  have hlog : (prepareWorkspaces openMachine "acme" acmeTree
      [(⟨⟨"local", none, none, some "../tenant_other"⟩, "main"⟩, "0123456789")] "0123456789").map Prepared.made =
        [[["srv", "tenant_other"]]] := by decide +kernel
  obtain ⟨p, hp, hmade⟩ := List.mem_map.mp (hlog ▸ List.mem_singleton_self _)
  exact absurd ((h p hp).made _ (hmade ▸ List.mem_singleton_self _)) (by decide +kernel)

end KernelRuntime.WorkspaceRoots
