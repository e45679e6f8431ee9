import KernelRuntime.Governance.Paths

/-! # Whether the roots of two sessions are apart

`get_session_root` keeps eight characters of each identifier, and an empty session id stands for the
whole workspace. Two sessions are isolated exactly when the directories of their roots are. -/

namespace KernelRuntime
set_option autoImplicit false

/-! ## Laws of path resolution -/

/-- A resolved path has proper names, and resolving it again, from one of the directories above it,
changes nothing. -/
structure FileSystem.Lawful (fs : FileSystem) : Prop where
  names : ∀ path resolved, fs.resolve path = .ok resolved →
    ∀ name ∈ resolved, name ≠ "" ∧ '/' ∉ name.toList
  stable : ∀ path root rest, fs.resolve path = .ok (root ++ rest) → rest ≠ [] →
    fs.resolve (underRoot root (String.intercalate "/" rest)) = .ok (root ++ rest)

theorem plainFileSystem_lawful (workspaceRoot tempDir : String) :
    (plainFileSystem workspaceRoot tempDir).Lawful where
  names := by
    intro path resolved hresolve name hname
    rw [resolve_plain] at hresolve
    cases hresolve
    have hplain := isPlain_foldl_walk (no_slash_pathNames path) (List.forall_mem_nil _) name hname
    exact ⟨hplain.1, hplain.2.2.2⟩
  stable := by
    intro path root rest hresolve hrest
    rw [resolve_plain] at hresolve
    have hall : ∀ name ∈ root ++ rest, IsPlain name := by
      rw [← Except.ok.inj hresolve]
      exact isPlain_foldl_walk (no_slash_pathNames path) (List.forall_mem_nil _)
    have hroot : ∀ name ∈ root, IsPlain name := fun n hn => hall n (List.mem_append_left _ hn)
    have hrest' : ∀ name ∈ rest, IsPlain name := fun n hn => hall n (List.mem_append_right _ hn)
    rw [resolve_plain]
    unfold underRoot
    rw [pathNames_append, pathNames_intercalate hrest fun n hn => (hrest' n hn).2.2.2]
    rw [List.foldl_append, foldl_walk_pathText hroot, foldl_walk_plain hrest']

/-! ## Isolation -/

/-- The path is not inside the directory for temporary files. -/
def OutsideTemp (fs : FileSystem) (resolved : List String) : Prop :=
  ∀ tempRoot, fs.resolve fs.tempDir = .ok tempRoot → ¬ tempRoot <+: resolved

/-- No path that is accepted for the first session lies in the root of the second, temporary files
apart. -/
def Isolated (fs : FileSystem) (tenantId sessionId tenantId' sessionId' : String) : Prop :=
  ∀ (path : String) (resolved root' : List String),
    resolveWorkspacePath fs (.str path) sessionId tenantId = .ok resolved → OutsideTemp fs resolved →
    fs.resolve (getSessionRoot fs tenantId' sessionId') = .ok root' → ¬ root' <+: resolved

/-- The two directories on the disk: neither is the other or inside the other, unless it is a
temporary directory as well. The first is the whole workspace when the session id is empty. -/
def RootsApart (fs : FileSystem) (tenantId sessionId tenantId' sessionId' : String) : Prop :=
  ∀ root root', sessionRoot fs sessionId tenantId = .ok root →
    fs.resolve (getSessionRoot fs tenantId' sessionId') = .ok root' →
    (root <+: root' → ¬ OutsideTemp fs root') ∧ (root' <+: root → ¬ OutsideTemp fs root)

theorem OutsideTemp.of_prefix {fs : FileSystem} {root resolved : List String}
    (h : OutsideTemp fs resolved) (hle : root <+: resolved) : OutsideTemp fs root :=
  fun tempRoot htemp hin => h tempRoot htemp (hin.trans hle)

theorem ResolvesTo.inside {fs : FileSystem} {pathStr : String} {root resolved : List String}
    (h : ResolvesTo fs pathStr root resolved) (houtside : OutsideTemp fs resolved) :
    root <+: resolved := by
  cases h with
  | virtual _ => exact List.prefix_rfl
  | absolute tempRoot _ _ _ htemp _ hinside => exact hinside.resolve_left (houtside tempRoot htemp)
  | relative _ _ _ _ hinside => exact hinside

/-- Every directory below the root is reached by a relative path. -/
theorem resolveFrom_relative {fs : FileSystem} (hlaw : fs.Lawful) {path : String}
    {root rest : List String} (hresolve : fs.resolve path = .ok (root ++ rest)) (hrest : rest ≠ []) :
    resolveFrom fs (.str (String.intercalate "/" rest)) root = .ok (root ++ rest) := by
  have hnames : ∀ name ∈ rest, name ≠ "" ∧ '/' ∉ name.toList :=
    fun name hname => hlaw.names path _ hresolve name (List.mem_append_right _ hname)
  have hrelative := isAbsolute_intercalate hrest hnames
  have hne : String.intercalate "/" rest ≠ "" := by
    intro h
    have hsplit := pathNames_intercalate hrest fun name hname => (hnames name hname).2
    rw [h] at hsplit
    exact (hnames "" (hsplit ▸ List.mem_cons_self)).1 rfl
  refine (resolveFrom_ok_iff _ _ _ _).mpr ?_
  rw [pathString_str hne]
  refine .relative _ (not_isVirtualRoot_of_relative hrelative) ?_ ?_ (List.prefix_append _ _)
  · rw [stripWorkspace_of_relative hrelative, hrelative]
  · rw [stripWorkspace_of_relative hrelative]
    exact hlaw.stable path root _ hresolve hrest

/-- An overlap of the roots is reached from the first session. -/
theorem rootsApart_of_isolated {fs : FileSystem} (hlaw : fs.Lawful)
    {tenantId sessionId tenantId' sessionId' : String}
    (h : Isolated fs tenantId sessionId tenantId' sessionId') :
    RootsApart fs tenantId sessionId tenantId' sessionId' := by
  intro root root' hroot hroot'
  have haccepts : ∀ path resolved, resolveFrom fs (.str path) root = .ok resolved →
      resolveWorkspacePath fs (.str path) sessionId tenantId = .ok resolved :=
    fun path resolved hfrom => bind_eq_ok_iff.mpr ⟨root, hroot, hfrom⟩
  have hself : resolveFrom fs (.str "/") root = .ok root :=
    (resolveFrom_ok_iff _ _ _ _).mpr (.virtual (Or.inl rfl))
  refine ⟨?_, fun hle houtside => h "/" root root' (haccepts _ _ hself) houtside hroot' hle⟩
  rintro ⟨rest, rfl⟩ houtside
  by_cases hrest : rest = []
  · subst hrest
    rw [List.append_nil] at hroot' houtside
    exact h "/" root root (haccepts _ _ hself) houtside hroot' List.prefix_rfl
  · have hreach := resolveFrom_relative hlaw hroot' hrest
    exact h _ _ _ (haccepts _ _ hreach) houtside hroot' List.prefix_rfl

theorem isolated_of_rootsApart {fs : FileSystem} {tenantId sessionId tenantId' sessionId' : String}
    (h : RootsApart fs tenantId sessionId tenantId' sessionId') :
    Isolated fs tenantId sessionId tenantId' sessionId' := by
  intro path resolved root' hresolve houtside hroot' hle'
  obtain ⟨root, hroot, hfrom⟩ := bind_eq_ok_iff.mp hresolve
  have hle : root <+: resolved := ((resolveFrom_ok_iff _ _ _ _).mp hfrom).inside houtside
  rcases List.prefix_or_prefix_of_prefix hle hle' with hroots | hroots
  · exact (h root root' hroot hroot').1 hroots (houtside.of_prefix hle')
  · exact (h root root' hroot hroot').2 hroots (houtside.of_prefix hle)

/-- **Two sessions are isolated exactly when their roots are apart on the disk.** -/
theorem isolated_iff_rootsApart (fs : FileSystem) (hlaw : fs.Lawful)
    (tenantId sessionId tenantId' sessionId' : String) :
    Isolated fs tenantId sessionId tenantId' sessionId' ↔
      RootsApart fs tenantId sessionId tenantId' sessionId' :=
  ⟨rootsApart_of_isolated hlaw, isolated_of_rootsApart⟩

/-- Identifiers that differ early. -/
theorem isolated_early_difference :
    Isolated (plainFileSystem "/srv/ws" "/tmp") "acme" "session-one" "globex" "session-one" := by
  refine (isolated_iff_rootsApart _ (plainFileSystem_lawful _ _) _ _ _ _).mpr ?_
  intro root root' hroot hroot'
  have h : sessionRoot (plainFileSystem "/srv/ws" "/tmp") "session-one" "acme" =
      .ok ["srv", "ws", "t_acme", "s_session-"] := by decide +kernel
  have h' : (plainFileSystem "/srv/ws" "/tmp").resolve
      (getSessionRoot (plainFileSystem "/srv/ws" "/tmp") "globex" "session-one") =
      .ok ["srv", "ws", "t_globex", "s_session-"] := by decide +kernel
  rw [h] at hroot
  rw [h'] at hroot'
  cases hroot
  cases hroot'
  exact ⟨fun hle => absurd hle (by decide), fun hle => absurd hle (by decide)⟩

/-- Two identifiers that begin alike share a root. -/
theorem sessions_share_a_root : ¬ ∀ (fs : FileSystem) (tenantId sessionId tenantId' sessionId' : String),
    fs.Lawful → (tenantId, sessionId) ≠ (tenantId', sessionId') →
    Isolated fs tenantId sessionId tenantId' sessionId' := by
  intro h
  have hisolated := h (plainFileSystem "/srv/ws" "/tmp") "acme" "session-one" "acme" "session-two"
    (plainFileSystem_lawful _ _) (by decide)
  have hresolve : resolveWorkspacePath (plainFileSystem "/srv/ws" "/tmp") (.str "secret.txt")
      "session-one" "acme" = .ok ["srv", "ws", "t_acme", "s_session-", "secret.txt"] := by decide +kernel
  have hroot : (plainFileSystem "/srv/ws" "/tmp").resolve
      (getSessionRoot (plainFileSystem "/srv/ws" "/tmp") "acme" "session-two") =
      .ok ["srv", "ws", "t_acme", "s_session-"] := by decide +kernel
  refine hisolated _ _ _ hresolve ?_ hroot (by decide)
  intro tempRoot htemp
  have htmp : (plainFileSystem "/srv/ws" "/tmp").resolve (plainFileSystem "/srv/ws" "/tmp").tempDir =
      .ok ["tmp"] := by decide +kernel
  rw [htmp] at htemp
  cases htemp
  decide

/-! ## Identifiers without slashes -/

/-- The part of an identifier that is kept is one name. -/
def ShortName (identifier : String) : Prop := '/' ∉ (shortId identifier).toList

/-- A name with its tag: it is never `.`, `..` or empty. -/
theorem isPlain_tagged {identifier : String} (hname : ShortName identifier) (tag : Char)
    (htag : tag ≠ '/' ∧ tag ≠ '.') : IsPlain (String.ofList [tag, '_'] ++ shortId identifier) := by
  have hchars : (String.ofList [tag, '_'] ++ shortId identifier).toList =
      tag :: '_' :: (shortId identifier).toList := by simp
  have hne : ∀ text : String, text.toList.head? ≠ some tag →
      String.ofList [tag, '_'] ++ shortId identifier ≠ text := by
    rintro text htext rfl
    rw [hchars] at htext
    exact htext rfl
  refine ⟨hne _ (by simp), hne _ ?_, hne _ ?_, ?_⟩
  · simpa using fun h => htag.2 h.symm
  · simpa using fun h => htag.2 h.symm
  · rw [hchars]
    simpa using ⟨fun h => htag.1 h.symm, hname⟩

theorem resolve_getSessionRoot (workspaceRoot tempDir : String) {tenantId sessionId : String}
    (htenant : ShortName tenantId) (hsession : ShortName sessionId) :
    (plainFileSystem workspaceRoot tempDir).resolve
      (getSessionRoot (plainFileSystem workspaceRoot tempDir) tenantId sessionId) =
      .ok ((pathNames workspaceRoot).foldl walk [] ++
        ["t_" ++ shortId tenantId, "s_" ++ shortId sessionId]) := by
  have ht := isPlain_tagged htenant 't' (by decide)
  have hs := isPlain_tagged hsession 's' (by decide)
  have hparts : getSessionRoot (plainFileSystem workspaceRoot tempDir) tenantId sessionId =
      workspaceRoot ++ "/" ++ ("t_" ++ shortId tenantId) ++ "/" ++ ("s_" ++ shortId sessionId) := by
    unfold getSessionRoot plainFileSystem
    apply String.toList_inj.mp
    simp
  rw [resolve_plain, hparts, pathNames_append, pathNames_append, pathNames_of_no_slash ht.2.2.2,
    pathNames_of_no_slash hs.2.2.2, List.append_assoc, List.foldl_append]
  exact congrArg Except.ok (foldl_walk_plain (by simp only [List.cons_append, List.nil_append,
    List.mem_cons, List.not_mem_nil, or_false, forall_eq_or_imp, forall_eq]; exact ⟨ht, hs⟩) _)

/-- **On a disk without links, and outside the temporary directory, the sessions of two pairs of
identifiers without slashes are isolated exactly when the pairs differ in the parts that are kept.** -/
theorem isolated_iff_shortId_ne (workspaceRoot tempDir : String)
    {tenantId sessionId tenantId' sessionId' : String} (hnonempty : sessionId ≠ "")
    (htenant : ShortName tenantId) (hsession : ShortName sessionId)
    (htenant' : ShortName tenantId') (hsession' : ShortName sessionId')
    (houtside : OutsideTemp (plainFileSystem workspaceRoot tempDir)
      ((pathNames workspaceRoot).foldl walk [] ++
        ["t_" ++ shortId tenantId, "s_" ++ shortId sessionId])) :
    Isolated (plainFileSystem workspaceRoot tempDir) tenantId sessionId tenantId' sessionId' ↔
      (shortId tenantId, shortId sessionId) ≠ (shortId tenantId', shortId sessionId') := by
  have hiff : Isolated (plainFileSystem workspaceRoot tempDir) tenantId sessionId tenantId' sessionId' ↔
      RootsApart (plainFileSystem workspaceRoot tempDir) tenantId sessionId tenantId' sessionId' :=
    ⟨rootsApart_of_isolated (plainFileSystem_lawful workspaceRoot tempDir), isolated_of_rootsApart⟩
  rw [hiff]
  unfold RootsApart sessionRoot
  rw [if_neg hnonempty, resolve_getSessionRoot workspaceRoot tempDir htenant hsession,
    resolve_getSessionRoot workspaceRoot tempDir htenant' hsession']
  generalize (pathNames workspaceRoot).foldl walk [] = base at houtside ⊢
  have hsame : ∀ {a b c d : String}, base ++ ["t_" ++ a, "s_" ++ b] <+: base ++ ["t_" ++ c, "s_" ++ d] →
      (a, b) = (c, d) := by
    intro a b c d hle
    have heq := ((List.prefix_append_right_inj base).mp hle).eq_of_length rfl
    simp only [List.cons.injEq, String.append_right_inj, and_true] at heq
    rw [heq.1, heq.2]
  constructor
  · intro h hpair
    obtain ⟨ht, hs⟩ := Prod.mk.inj hpair
    rw [← ht, ← hs] at h
    exact (h _ _ rfl rfl).1 List.prefix_rfl houtside
  · intro hne root root' hroot hroot'
    cases hroot
    cases hroot'
    exact ⟨fun hle => absurd (hsame hle) hne, fun hle => absurd (hsame hle).symm hne⟩

end KernelRuntime
