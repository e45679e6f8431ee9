import KernelRuntime.Foundations.FileTree

/-! # A file tree with symbolic links

A node is found under the names that lead to it without a link. `Resolves` is what a path means when links are
followed; `lookup` is the walk of the kernel, which needs the directories on the way, and `realpath` the one of
`os.path`, which goes on without them and gives up at a loop of links. -/

namespace KernelRuntime
set_option autoImplicit false

inductive LinkNode where
  | directory
  | file (content : Bytes)
  | link (absolute : Bool) (names : List String)
deriving DecidableEq

abbrev LinkTree := List String → Option LinkNode

namespace LinkTree

/-- Where the names of a link are taken from. -/
def base (absolute : Bool) (dir : List String) : List String := if absolute then [] else dir

/-- The names, taken from a directory, lead to a place. -/
inductive Resolves (t : LinkTree) : List String → List String → List String → Prop
  | done (dir : List String) : Resolves t dir [] dir
  | up {dir rest place : List String} (h : Resolves t dir.dropLast rest place) : Resolves t dir (".." :: rest) place
  | plain {dir rest place : List String} {name : String} (hname : name ≠ "..")
      (hnode : ∀ absolute names, t (dir ++ [name]) ≠ some (.link absolute names))
      (h : Resolves t (dir ++ [name]) rest place) : Resolves t dir (name :: rest) place
  | link {dir names target rest place : List String} {name : String} {absolute : Bool} (hname : name ≠ "..")
      (hnode : t (dir ++ [name]) = some (.link absolute names)) (htarget : Resolves t (base absolute dir) names target)
      (h : Resolves t target rest place) : Resolves t dir (name :: rest) place

/-- No link on the way. -/
def LinkFree (t : LinkTree) (place : List String) : Prop :=
  ".." ∉ place ∧ ∀ q, q <+: place → ∀ absolute names, q ≠ [] → t q ≠ some (.link absolute names)

/-- A file with the directories above it. -/
def FileAt (t : LinkTree) (place : List String) (content : Bytes) : Prop :=
  t place = some (.file content) ∧ ∀ q, FileTree.Above q place → t q = some .directory

/-! ## The kernel -/

inductive Errno where
  | enoent
  | enotdir
  | eloop
deriving DecidableEq

/-- How far names lead before the next link. -/
inductive Stride where
  | arrived (place : List String)
  | failed (errno : Errno)
  | link (base names : List String)
deriving DecidableEq

def stride (t : LinkTree) : List String → List String → Stride
  | dir, [] => .arrived dir
  | dir, name :: rest =>
    if t dir ≠ some .directory then .failed (if t dir = none then .enoent else .enotdir)
    else if name = ".." then stride t dir.dropLast rest
    else match t (dir ++ [name]) with
      | none => .failed .enoent
      | some (.link absolute names) => .link (base absolute dir) (names ++ rest)
      | some _ => stride t (dir ++ [name]) rest

/-- `stat` with a number of links that may be followed. -/
def lookup (t : LinkTree) : ℕ → List String → List String → Except Errno (List String)
  | links, dir, names =>
    match stride t dir names with
    | .arrived place => .ok place
    | .failed errno => .error errno
    | .link dir' names' =>
      match links with
      | 0 => .error .eloop
      | links + 1 => lookup t links dir' names'

/-- `MAXSYMLINKS`. -/
def maxSymlinks : ℕ := 40

/-- The errors of `os.stat`, or the node. -/
def stat (t : LinkTree) (path : List String) : Except Errno (Option LinkNode) := do
  return t (← lookup t maxSymlinks [] path)

/-! ## `os.path.realpath` -/

/-- The links that were met, with the places of those that are resolved. -/
abbrev Seen := List (List String × Option (List String))

structure Walked where
  path : List String
  ok : Bool
  seen : Seen

/-- The loop of `_joinrealpath`, which calls itself for the target of a link. -/
def walkNames (t : LinkTree) (follow : List String → List String → Seen → Option Walked) :
    List String → List String → Seen → Option Walked
  | path, [], seen => some ⟨path, true, seen⟩
  | path, name :: rest, seen =>
    if name = ".." then walkNames t follow path.dropLast rest seen
    else match t (path ++ [name]) with
      | some (.link absolute names) =>
        match seen.lookup (path ++ [name]) with
        | some (some place) => walkNames t follow place rest seen
        | some none => some ⟨path ++ name :: rest, false, seen⟩
        | none =>
          match follow (base absolute path) names ((path ++ [name], none) :: seen) with
          | none => none
          | some w =>
            if w.ok then walkNames t follow w.path rest ((path ++ [name], some w.path) :: w.seen)
            else some ⟨w.path ++ rest, false, w.seen⟩
      | _ => walkNames t follow (path ++ [name]) rest seen

/-- `_joinrealpath`; none where the calls are nested too deeply. -/
def joinrealpath (t : LinkTree) : ℕ → List String → List String → Seen → Option Walked
  | 0 => fun _ _ _ => none
  | depth + 1 => walkNames t (joinrealpath t depth)

def abspath (names : List String) : List String :=
  names.foldl (fun dir name => if name = ".." then dir.dropLast else dir ++ [name]) []

def realpath (t : LinkTree) (depth : ℕ) (names : List String) : Option (List String) :=
  (joinrealpath t depth [] names []).map fun w => abspath w.path

/-- `RecursionError`, and the `RuntimeError` for a loop of links. -/
inductive ResolveError where
  | recursion
  | loop (place : List String)
deriving DecidableEq

/-- `path.resolve()`, which looks at the real path once more. -/
def resolve (t : LinkTree) (depth : ℕ) (names : List String) : Except ResolveError (List String) :=
  match realpath t depth names with
  | none => .error .recursion
  | some place => if stat t place = .error .eloop then .error (.loop place) else .ok place

/-- No link leads back to itself on the way. -/
def Settles (t : LinkTree) (depth : ℕ) (names : List String) : Prop :=
  (joinrealpath t depth [] names []).map Walked.ok = some true

instance (t : LinkTree) (depth : ℕ) (names : List String) : Decidable (Settles t depth names) :=
  inferInstanceAs (Decidable (_ = _))

variable {t : LinkTree}

/-! ## Places without links -/

theorem linkFree_nil (t : LinkTree) : LinkFree t [] := by
  refine ⟨List.not_mem_nil, ?_⟩
  intro q hq _ _ hne
  exact absurd (List.prefix_nil.mp hq) hne

theorem LinkFree.of_prefix {p q : List String} (h : LinkFree t p) (hq : q <+: p) : LinkFree t q :=
  ⟨fun hup => h.1 (hq.subset hup), fun r hr => h.2 r (hr.trans hq)⟩

theorem LinkFree.base {dir : List String} (h : LinkFree t dir) (absolute : Bool) : LinkFree t (base absolute dir) := by
  cases absolute with
  | true => exact linkFree_nil t
  | false => exact h

theorem LinkFree.append {dir : List String} {name : String} (h : LinkFree t dir) (hname : name ≠ "..")
    (hnode : ∀ absolute names, t (dir ++ [name]) ≠ some (.link absolute names)) : LinkFree t (dir ++ [name]) := by
  refine ⟨?_, ?_⟩
  · intro hup
    rcases List.mem_append.mp hup with hup | hup
    · exact h.1 hup
    · exact hname (List.mem_singleton.mp hup).symm
  · intro q hq absolute names hne
    rcases List.prefix_concat_iff.mp hq with rfl | hq
    · exact hnode absolute names
    · exact h.2 q hq absolute names hne

/-- Links are followed to the end. -/
theorem Resolves.linkFree {dir names place : List String} (h : Resolves t dir names place) (hdir : LinkFree t dir) :
    LinkFree t place := by
  induction h with
  | done => exact hdir
  | up _ ih => exact ih (hdir.of_prefix (List.dropLast_prefix _))
  | plain hname hnode _ ih => exact ih (hdir.append hname hnode)
  | link _ _ _ _ ihtarget ih => exact ih (ihtarget (hdir.base _))

theorem Resolves.unique {dir names p q : List String} (hp : Resolves t dir names p) (hq : Resolves t dir names q) :
    p = q := by
  induction hp generalizing q with
  | done =>
    cases hq
    rfl
  | up _ ih =>
    cases hq with
    | up h => exact ih h
    | plain hname _ _ => exact absurd rfl hname
    | link hname _ _ _ => exact absurd rfl hname
  | plain hname hnode _ ih =>
    cases hq with
    | up _ => exact absurd rfl hname
    | plain _ _ h => exact ih h
    | link _ hlink _ _ => exact absurd hlink (hnode _ _)
  | link hname hnode _ _ ihtarget ih =>
    cases hq with
    | up _ => exact absurd rfl hname
    | plain _ hplain _ => exact absurd hnode (hplain _ _)
    | link _ hlink htarget h =>
      rw [hnode] at hlink
      cases hlink
      cases ihtarget htarget
      exact ih h

theorem abspath_linkFree {p : List String} (h : LinkFree t p) : abspath p = p := by
  have hfold : ∀ names dir : List String, ".." ∉ names →
      names.foldl (fun dir name => if name = ".." then dir.dropLast else dir ++ [name]) dir = dir ++ names := by
    intro names
    induction names with
    | nil => simp
    | cons name names ih =>
      intro dir hup
      rw [List.mem_cons, not_or] at hup
      rw [List.foldl_cons, if_neg (Ne.symm hup.1), ih _ hup.2, List.append_assoc]
      rfl
  exact (hfold p [] h.1).trans (List.nil_append p)

/-! ## What `realpath` finds -/

/-- The places that were noted are those of their links. -/
def Sound (t : LinkTree) (seen : Seen) : Prop :=
  ∀ dir name place absolute names, seen.lookup (dir ++ [name]) = some (some place) →
    t (dir ++ [name]) = some (.link absolute names) → Resolves t (base absolute dir) names place

/-- What a walk may answer. -/
def Faithful (t : LinkTree) (dir names : List String) (w : Walked) : Prop :=
  Sound t w.seen ∧ (w.ok = true → Resolves t dir names w.path)

theorem lookup_seen (q : List String) (e : List String × Option (List String)) (seen : Seen) :
    (e :: seen).lookup q = if q = e.1 then some e.2 else seen.lookup q := by
  rw [List.lookup_cons]
  by_cases h : q = e.1
  · rw [if_pos h, beq_iff_eq.mpr h]
  · rw [if_neg h, beq_eq_false_iff_ne.mpr h]

theorem Sound.cons_none {seen : Seen} (h : Sound t seen) (q : List String) : Sound t ((q, none) :: seen) := by
  intro dir name place absolute names hlookup
  rw [lookup_seen] at hlookup
  split_ifs at hlookup with hsame
  · cases hlookup
  · exact h dir name place absolute names hlookup

theorem Sound.cons_some {seen : Seen} (h : Sound t seen) {dir names place : List String} {name : String}
    {absolute : Bool} (hnode : t (dir ++ [name]) = some (.link absolute names))
    (hplace : Resolves t (base absolute dir) names place) : Sound t ((dir ++ [name], some place) :: seen) := by
  intro dir' name' place' absolute' names' hlookup hnode'
  rw [lookup_seen] at hlookup
  split_ifs at hlookup with hsame
  · obtain ⟨rfl, _⟩ := List.append_inj' hsame rfl
    rw [hsame, hnode] at hnode'
    cases hnode'
    cases hlookup
    exact hplace
  · exact h dir' name' place' absolute' names' hlookup hnode'

theorem walkNames_faithful {follow : List String → List String → Seen → Option Walked}
    (hfollow : ∀ dir names seen w, follow dir names seen = some w → Sound t seen → Faithful t dir names w)
    {path rest : List String} {seen : Seen} {w : Walked} (h : walkNames t follow path rest seen = some w)
    (hseen : Sound t seen) : Faithful t path rest w := by
  induction rest generalizing path seen with
  | nil =>
    cases h
    exact ⟨hseen, fun _ => .done path⟩
  | cons name rest ih =>
    unfold walkNames at h
    split_ifs at h with hname
    · obtain ⟨hsound, hresolves⟩ := ih h hseen
      rw [hname]
      exact ⟨hsound, fun hok => .up (hresolves hok)⟩
    · split at h
      · rename_i absolute names hnode
        split at h
        · rename_i place hplace
          obtain ⟨hsound, hresolves⟩ := ih h hseen
          exact ⟨hsound, fun hok => .link hname hnode (hseen _ _ _ _ _ hplace hnode) (hresolves hok)⟩
        · cases h
          refine ⟨hseen, ?_⟩
          rintro ⟨⟩
        · split at h
          · cases h
          · rename_i target htarget
            obtain ⟨hsound, hresolves⟩ := hfollow _ _ _ _ htarget (hseen.cons_none _)
            split_ifs at h with hok
            · obtain ⟨hsound', hresolves'⟩ := ih h (hsound.cons_some hnode (hresolves hok))
              exact ⟨hsound', fun hok' => .link hname hnode (hresolves hok) (hresolves' hok')⟩
            · cases h
              refine ⟨hsound, ?_⟩
              rintro ⟨⟩
      · rename_i hnode
        obtain ⟨hsound, hresolves⟩ := ih h hseen
        exact ⟨hsound, fun hok => .plain hname hnode (hresolves hok)⟩

theorem joinrealpath_faithful {depth : ℕ} {dir names : List String} {seen : Seen} {w : Walked}
    (h : joinrealpath t depth dir names seen = some w) (hseen : Sound t seen) : Faithful t dir names w := by
  induction depth generalizing dir names seen w with
  | zero => cases h
  | succ depth ih =>
    have hfollow : ∀ dir names seen w, joinrealpath t depth dir names seen = some w → Sound t seen →
        Faithful t dir names w := fun _ _ _ _ hwalk hsound => ih hwalk hsound
    exact walkNames_faithful hfollow h hseen

/-- A path that settles is resolved, and its real path has no links. -/
theorem realpath_of_settles {depth : ℕ} {names : List String} (h : Settles t depth names) :
    ∃ place, realpath t depth names = some place ∧ Resolves t [] names place ∧ LinkFree t place := by
  obtain ⟨w, hwalk, hok⟩ := Option.map_eq_some_iff.mp h
  have hsound : Sound t [] := by
    intro dir name place absolute names hlookup
    cases hlookup
  have hresolves := (joinrealpath_faithful hwalk hsound).2 hok
  have hfree := hresolves.linkFree (linkFree_nil t)
  refine ⟨w.path, ?_, hresolves, hfree⟩
  rw [realpath, hwalk, Option.map_some, abspath_linkFree hfree]

/-! ## What the kernel finds -/

theorem stride_file {content : Bytes} (dir : List String) {rest : List String} (h : FileAt t (dir ++ rest) content)
    (hup : ".." ∉ rest) : stride t dir rest = .arrived (dir ++ rest) := by
  induction rest generalizing dir with
  | nil =>
    rw [List.append_nil]
    rfl
  | cons name rest ih =>
    rw [List.mem_cons, not_or] at hup
    have habove : FileTree.Above dir (dir ++ name :: rest) := ⟨List.prefix_append _ _, by simp⟩
    have hsplit : dir ++ name :: rest = dir ++ [name] ++ rest := by simp
    have hbelow : FileAt t (dir ++ [name] ++ rest) content := by rwa [← hsplit]
    have hstep := ih _ hbelow hup.2
    unfold stride
    rw [if_neg (by simp [h.2 dir habove]), if_neg (Ne.symm hup.1), hsplit, hstep]
    cases rest with
    | nil =>
      have hnode : t (dir ++ [name]) = some (.file content) := h.1
      rw [hnode]
    | cons next rest =>
      have hnode : t (dir ++ [name]) = some .directory := by
        refine h.2 _ ⟨?_, by simp⟩
        rw [hsplit]
        exact List.prefix_append _ _
      rw [hnode]

theorem stride_arrived {dir rest place : List String} (hfree : LinkFree t (dir ++ rest))
    (h : stride t dir rest = .arrived place) : place = dir ++ rest ∧
      ∀ mid, FileTree.Above mid rest → t (dir ++ mid) = some .directory := by
  induction rest generalizing dir with
  | nil =>
    cases h
    rw [List.append_nil]
    refine ⟨rfl, ?_⟩
    rintro mid ⟨hmid, hne⟩
    exact absurd (List.prefix_nil.mp hmid) hne
  | cons name rest ih =>
    have hsplit : dir ++ name :: rest = dir ++ [name] ++ rest := by simp
    unfold stride at h
    split_ifs at h with hnode hname
    · exact absurd (by simp [hname]) hfree.1
    · split at h
      · cases h
      · cases h
      · rw [hsplit] at hfree
        obtain ⟨hplace, hall⟩ := ih hfree h
        refine ⟨hplace.trans hsplit.symm, ?_⟩
        rintro mid ⟨hmid, hne⟩
        cases mid with
        | nil =>
          rw [List.append_nil]
          exact not_not.mp hnode
        | cons first mid =>
          obtain ⟨rfl, hrest⟩ := List.cons_prefix_cons.mp hmid
          have hdirectory := hall mid ⟨hrest, fun heq => hne (by rw [heq])⟩
          rwa [List.append_assoc] at hdirectory

theorem stride_link {dir rest dir' names : List String} (hfree : LinkFree t (dir ++ rest)) :
    stride t dir rest ≠ .link dir' names := by
  induction rest generalizing dir with
  | nil =>
    intro h
    cases h
  | cons name rest ih =>
    have hsplit : dir ++ name :: rest = dir ++ [name] ++ rest := by simp
    rw [hsplit] at hfree
    intro h
    unfold stride at h
    split_ifs at h with hnode hname
    · exact absurd (by simp [hname]) hfree.1
    · split at h
      · cases h
      · rename_i absolute target hlink
        exact hfree.2 _ (List.prefix_append _ _) absolute target (by simp) hlink
      · exact ih hfree h

theorem stride_ne_eloop (t : LinkTree) (dir rest : List String) : stride t dir rest ≠ .failed .eloop := by
  induction rest generalizing dir with
  | nil =>
    intro h
    cases h
  | cons name rest ih =>
    intro h
    unfold stride at h
    split_ifs at h
    · cases h
    · cases h
    · exact ih _ h
    · split at h
      · cases h
      · cases h
      · exact ih _ h

theorem stat_ne_eloop {place : List String} (hfree : LinkFree t place) : stat t place ≠ .error .eloop := by
  intro h
  unfold stat lookup at h
  split at h
  · cases h
  · rename_i errno hstride
    cases h
    exact stride_ne_eloop t [] place hstride
  · rename_i hstride
    exact stride_link hfree hstride

/-- A path that settles is resolved, to where its links lead. -/
theorem resolve_of_settles {depth : ℕ} {names : List String} (h : Settles t depth names) :
    ∃ place, resolve t depth names = .ok place ∧ Resolves t [] names place ∧ LinkFree t place := by
  obtain ⟨place, hreal, hresolves, hfree⟩ := realpath_of_settles h
  refine ⟨place, ?_, hresolves, hfree⟩
  unfold resolve
  rw [hreal]
  exact if_neg (stat_ne_eloop hfree)

/-- Where there is no link, `stat` finds a file just where it is. -/
theorem stat_file_iff {place : List String} (hfree : LinkFree t place) {content : Bytes} :
    stat t place = .ok (some (.file content)) ↔ FileAt t place content := by
  constructor
  · intro h
    obtain ⟨found, hfound, hnode⟩ := bind_eq_ok_iff.mp h
    have harrived : stride t [] place = .arrived found := by
      unfold lookup at hfound
      split at hfound
      · rename_i arrived hstride
        rw [hstride, Except.ok.inj hfound]
      · cases hfound
      · rename_i hstride
        exact absurd hstride (stride_link hfree)
    obtain ⟨rfl, hall⟩ := stride_arrived hfree harrived
    exact ⟨Except.ok.inj hnode, fun q hq => hall q hq⟩
  · intro h
    unfold stat lookup
    rw [stride_file [] h hfree.1]
    exact congrArg Except.ok h.1

/-! ## Changes of the tree -/

/-- `path.exists()`. -/
def pathExists (t : LinkTree) (path : List String) : Bool :=
  match stat t path with
  | .ok (some _) => true
  | _ => false

/-- `path.is_dir()`. -/
def isDir (t : LinkTree) (path : List String) : Bool := decide (stat t path = .ok (some .directory))

structure Made where
  tree : LinkTree
  done : Bool

/-- `path.mkdir(parents=True, exist_ok=True)` of a path without `..`; some directories cannot be made. -/
def makeDirectories (refuses : List String → Bool) : LinkTree → List String → List String → Made
  | t, _, [] => ⟨t, true⟩
  | t, dir, name :: rest =>
    match t (dir ++ [name]) with
    | some .directory => makeDirectories refuses t (dir ++ [name]) rest
    | some (.file _) => ⟨t, false⟩
    | some (.link absolute names) =>
      match lookup t maxSymlinks (base absolute dir) names with
      | .ok place => if t place = some .directory then makeDirectories refuses t place rest else ⟨t, false⟩
      | .error _ => ⟨t, false⟩
    | none =>
      if refuses (dir ++ [name]) then ⟨t, false⟩
      else makeDirectories refuses (Function.update t (dir ++ [name]) (some .directory)) (dir ++ [name]) rest

/-- `shutil.rmtree(path)`, with what it leaves when it fails on the way; links in the tree are not followed. -/
def removeTree (left : List String → Bool) (t : LinkTree) (path : List String) : LinkTree :=
  fun q => if path <+: q ∧ left q = false then none else t q

/-- A tree that comes to stand at a place. -/
def putTree (t : LinkTree) (path : List String) (tree : LinkTree) : LinkTree :=
  fun q => if path <+: q then tree (q.drop path.length) else t q

/-- What is made is missing before, and on the way. -/
theorem makeDirectories_frame {refuses : List String → Bool} {dir names q : List String}
    (hlinks : ∀ mid, FileTree.Above mid names → mid ≠ [] → ∀ absolute target,
      t (dir ++ mid) ≠ some (.link absolute target))
    (hq : t q ≠ none ∨ ¬ q <+: dir ++ names) : (makeDirectories refuses t dir names).tree q = t q := by
  induction names generalizing t dir with
  | nil => rfl
  | cons name rest ih =>
    have hsplit : dir ++ name :: rest = dir ++ [name] ++ rest := by simp
    have hinner : ∀ mid, FileTree.Above mid rest → mid ≠ [] → ∀ absolute target,
        t (dir ++ [name] ++ mid) ≠ some (.link absolute target) := by
      rintro mid ⟨hmid, hne⟩ _ absolute target
      rw [List.append_assoc]
      refine hlinks (name :: mid) ⟨List.cons_prefix_cons.mpr ⟨rfl, hmid⟩, ?_⟩ (List.cons_ne_nil _ _) absolute target
      intro heq
      exact hne (List.cons.inj heq).2
    rw [hsplit] at hq
    unfold makeDirectories
    split
    · exact ih hinner hq
    · rfl
    · rename_i absolute target hlink
      cases rest with
      | nil =>
        split
        · split_ifs
          · rfl
          · rfl
        · rfl
      | cons next rest =>
        have habove : FileTree.Above [name] (name :: next :: rest) := ⟨⟨next :: rest, rfl⟩, by simp⟩
        exact absurd hlink (hlinks [name] habove (List.cons_ne_nil _ _) absolute target)
    · rename_i hnone
      split_ifs
      · rfl
      · have hne : q ≠ dir ++ [name] := by
          rintro rfl
          rcases hq with hq | hq
          · exact hq hnone
          · exact hq (List.prefix_append _ _)
        rw [ih ?_ ?_, Function.update_of_ne hne]
        · rintro mid hmid hnil absolute target
          rw [Function.update_of_ne (by simpa using hnil)]
          exact hinner mid hmid hnil absolute target
        · rw [Function.update_of_ne hne]
          exact hq

/-- Nothing is made but directories, where nothing was. -/
theorem makeDirectories_new (refuses : List String → Bool) (t : LinkTree) (dir names q : List String) :
    (makeDirectories refuses t dir names).tree q = t q ∨
      t q = none ∧ (makeDirectories refuses t dir names).tree q = some .directory := by
  induction names generalizing t dir with
  | nil => exact Or.inl rfl
  | cons name rest ih =>
    unfold makeDirectories
    split
    · exact ih t _
    · exact Or.inl rfl
    · split
      · split_ifs
        · exact ih t _
        · exact Or.inl rfl
      · exact Or.inl rfl
    · rename_i hnone
      split_ifs
      · exact Or.inl rfl
      · have hmade := ih (Function.update t (dir ++ [name]) (some .directory)) (dir ++ [name])
        by_cases hq : q = dir ++ [name]
        · rw [hq, Function.update_self] at hmade
          rw [hq]
          exact Or.inr ⟨hnone, hmade.elim id fun h => h.2⟩
        · rwa [Function.update_of_ne hq] at hmade

theorem removeTree_frame {left : List String → Bool} {path q : List String} (h : ¬ path <+: q) :
    removeTree left t path q = t q :=
  if_neg fun hboth => h hboth.1

theorem putTree_frame {path q : List String} (tree : LinkTree) (h : ¬ path <+: q) : putTree t path tree q = t q :=
  if_neg h

end LinkTree
end KernelRuntime
