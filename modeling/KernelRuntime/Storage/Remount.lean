import KernelRuntime.Storage.Restore
import KernelRuntime.Storage.Sessions

/-! # Mounting a repository again

A mount is found by the URL and the branch that it carries now, and a state file by the session alone. What
`mount_repository` returns is the requested repository as long as the state file, when there is one, is of
that repository, and no clone writes a token into the URL. -/

namespace KernelRuntime.Gvfs
set_option autoImplicit false

/-! ## What a mount should be -/

/-- The object of an entry at the commit that was cloned. -/
def headOf (files : OrderedDict String VirtualFile) (path : String) : Option String :=
  (files.get? path).bind VirtualFile.headSha

/-- A clone of the repository lists these files: an entry with an object is one of its files. -/
def FromRepository (d : Deployment) (repoUrl branch : String) (files : OrderedDict String VirtualFile) :
    Prop :=
  ∃ commitSha token directory now target clone index,
    d.gitClone (cloneCommand repoUrl branch commitSha target) token (truthyText commitSha) directory now =
      .ok clone ∧
    indexRepository now clone.listing = .ok index ∧ ∀ path, headOf files path = headOf index path

structure MountRight (d : Deployment) (s : Sessions) (call : MountCall) (m : Mounted) (s' : Sessions) :
    Prop where
  repoUrl : m.mount.repoUrl = call.repoUrl
  branch : m.mount.branch = call.branch
  files : FromRepository d call.repoUrl call.branch m.mount.files
  /-- The mount that is there is not touched. -/
  same : ∀ current, s.mounts.get? call.sessionId = some current → current.mount.repoUrl = call.repoUrl →
    current.mount.branch = call.branch → m = current ∧ s' = s

/-- A mount that succeeds gives the repository that was asked for. -/
def MountsRight (d : Deployment) (s : Sessions) (r : Request) (s' : Sessions) : Prop :=
  ∀ call now m, r = .mount call now → (mountRepository d now s call).1 = .ok m → MountRight d s call m s'

/-! ## When it is -/

def statePath (d : Deployment) (sessionId : String) : List String :=
  d.storagePath ++ ["sessions", sessionId] ++ ["vfs_state.json"]

def savedState (d : Deployment) (s : Sessions) (sessionId : String) : Except PyError SavedState := do
  let text ← s.disk.read (statePath d sessionId)
  d.lib.loads text

theorem savedState_of_content {d : Deployment} {s : Sessions} {sessionId : String} {text : Bytes}
    {saved : SavedState} (hcontent : s.disk.contentAt (statePath d sessionId) = some text)
    (hloads : d.lib.loads text = .ok saved) : savedState d s sessionId = .ok saved :=
  bind_eq_ok_iff.mpr ⟨text, FileTree.read_eq_ok_iff.mpr hcontent, hloads⟩

def TokenInUrl (call : MountCall) : Prop :=
  (truthyText call.authToken).isSome ∧ githubPrefix <:+: call.repoUrl.toList

/-- The mount is there; or the state file is of the repository; or there is none, and no token gets into the
URL. -/
def MountFits (d : Deployment) (s : Sessions) (call : MountCall) : Prop :=
  currentMount s call ≠ none ∨
    if s.disk.pathExists (statePath d call.sessionId) then
      ∀ saved, savedState d s call.sessionId = .ok saved →
        saved.repoUrl = call.repoUrl ∧ saved.branch = call.branch
    else ¬ TokenInUrl call

def MountOk (d : Deployment) (s : Sessions) (r : Request) : Prop :=
  ∀ call now m, r = .mount call now → (mountRepository d now s call).1 = .ok m → MountFits d s call

theorem mountFits_of_clone {d : Deployment} {s : Sessions} {call : MountCall}
    (hfile : s.disk.pathExists (statePath d call.sessionId) = false) (htoken : ¬ TokenInUrl call) :
    MountFits d s call := by
  unfold MountFits
  rw [hfile]
  exact Or.inr htoken

/-! ## The URL of a clone -/

theorem githubPrefix_onGithub {repoUrl : String} (h : githubPrefix <:+: repoUrl.toList) : OnGithub repoUrl := by
  have hname : "github.com".toList <:+: githubPrefix :=
    ⟨"https://".toList, "/".toList, by decide +kernel⟩
  exact hname.trans h

/-- **The URL changes exactly when a token is given for a GitHub URL.** -/
theorem clonedUrl_eq_iff (fernet : Fernet) (call : MountCall) :
    clonedUrl fernet call.repoUrl call.authToken = call.repoUrl ↔ ¬ TokenInUrl call := by
  unfold clonedUrl githubToken TokenInUrl
  cases truthyText call.authToken with
  | none => simp
  | some encrypted =>
    have hne : githubPrefix ≠ [] := by decide +kernel
    have hlonger : githubPrefix.length < (githubPrefixWith (decryptString fernet encrypted)).length := by
      have h₁ : githubPrefix.length = 19 := by decide +kernel
      have h₂ : "https://".toList.length = 8 := by decide +kernel
      have h₃ : "@github.com/".toList.length = 12 := by decide +kernel
      unfold githubPrefixWith
      rw [List.length_append, List.length_append, h₁, h₂, h₃]
      omega
    by_cases hgithub : OnGithub call.repoUrl
    · simp only [hgithub, if_true, Option.isSome_some, true_and]
      rw [← replaceAll_eq_self_iff hne hlonger, ← String.toList_inj, String.toList_ofList]
    · simp only [hgithub, if_false, Option.isSome_some, true_and, true_iff]
      exact fun h => hgithub (githubPrefix_onGithub h)

/-! ## Where the files of a session lie -/

theorem slash_not_mem_repoName (repoUrl : String) : '/' ∉ (repoName repoUrl).toList := by
  unfold repoName
  rw [String.toList_ofList]
  intro hmem
  have hlast := (mem_replaceAll (by decide +kernel) hmem).resolve_left List.not_mem_nil
  cases hparts : (repoUrl.toList.splitOn '/').getLast? with
  | none =>
    rw [hparts] at hlast
    exact List.not_mem_nil hlast
  | some part =>
    rw [hparts] at hlast
    exact not_mem_of_mem_splitOn (List.mem_of_getLast? hparts) hlast

/-- The clone lies in the directory of the session. -/
theorem sessionRoot_le_localPath (d : Deployment) (sessionId repoUrl : String) :
    d.sessionRoot sessionId <+: localPath d sessionId repoUrl := by
  have hslash := slash_not_mem_repoName repoUrl
  have hrelative : isAbsolute (repoName repoUrl) = false := by
    unfold isAbsolute
    rw [Bool.eq_false_iff]
    intro hprefix
    exact hslash ((List.isPrefixOf_iff_prefix.mp hprefix).subset (by decide +kernel))
  have hname : pathNames (repoName repoUrl) = [repoName repoUrl] := by
    unfold pathNames
    rw [List.splitOn_eq_singleton hslash]
    simp
  unfold localPath diskPath
  rw [hname, hrelative]
  simp only [Bool.false_eq_true, if_false, List.foldl_cons, List.foldl_nil]
  -- one name goes up by one directory at most
  unfold walk
  split_ifs
  · exact List.prefix_append _ _
  · rw [List.dropLast_concat]
  · exact (List.prefix_append _ _).trans (List.prefix_append _ _)

theorem localPath_apart (d : Deployment) (sessionId repoUrl : String) :
    ¬ localPath d sessionId repoUrl <+: statePath d sessionId ∧
      ¬ statePath d sessionId <+: localPath d sessionId repoUrl := by
  obtain ⟨hroot, hmetadata⟩ := d.apart sessionId
  have hsession : d.storagePath ++ ["sessions", sessionId] <+: statePath d sessionId := List.prefix_append _ _
  have hlocal := sessionRoot_le_localPath d sessionId repoUrl
  have hcomparable : ∀ p, d.storagePath ++ ["sessions", sessionId] <+: p → d.sessionRoot sessionId <+: p →
      False := by
    intro p hp hp'
    rcases List.prefix_or_prefix_of_prefix hp' hp with hle | hle
    · exact hroot hle
    · exact hmetadata hle
  exact ⟨fun h => hcomparable _ hsession (hlocal.trans h), fun h => hcomparable _ (hsession.trans h) hlocal⟩

/-! ## What `mount_repository` does -/

inductive Mounts (d : Deployment) (now : ℕ) (s : Sessions) (call : MountCall) (m : Mounted) : Prop
  | current (hcurrent : currentMount s call = some m)
  | restored (hnone : currentMount s call = none)
      (hfile : s.disk.pathExists (statePath d call.sessionId) = true) (saved : SavedState)
      (hsaved : savedState d s call.sessionId = .ok saved) (files : OrderedDict String VirtualFile)
      (hfiles : restoreFiles d.lib OrderedDict.empty saved.files = .ok files)
      (hm : m = ⟨{ newMount d call with repoUrl := saved.repoUrl, branch := saved.branch,
                                        commitSha := saved.commitSha, virtualRoot := saved.virtualRoot,
                                        files := files, lastSync := some now }, call.authToken⟩)
  | cloned (hnone : currentMount s call = none)
      (hfile : s.disk.pathExists (statePath d call.sessionId) = false) (directory : FileTree) (clone : Clone)
      (hclone : d.gitClone (cloneCommand call.repoUrl call.branch call.commitSha
          (localPath d call.sessionId call.repoUrl)) (githubToken d.fernet call.repoUrl call.authToken)
          (truthyText call.commitSha) directory now = .ok clone)
      (files : OrderedDict String VirtualFile) (hfiles : indexRepository now clone.listing = .ok files)
      (hm : m = ⟨{ newMount d call with repoUrl := clonedUrl d.fernet call.repoUrl call.authToken,
                                        files := files, lastSync := some now }, call.authToken⟩)

section Mount
variable {d : Deployment} {now : ℕ} {s : Sessions} {call : MountCall}

theorem makeDirectory_statePath {disk : FileTree}
    (h : s.disk.makeDirectory (localPath d call.sessionId call.repoUrl) = .ok disk) :
    disk (statePath d call.sessionId) = s.disk (statePath d call.sessionId) :=
  FileTree.makeDirectory_frame h (localPath_apart d call.sessionId call.repoUrl).2

theorem restoreMountState_eq_ok {disk : FileTree} {mount : SessionMount}
    (hdisk : disk (statePath d call.sessionId) = s.disk (statePath d call.sessionId))
    (h : restoreMountState d.lib (newMount d call) disk (statePath d call.sessionId) = .ok mount) :
    ∃ saved files lastSync, savedState d s call.sessionId = .ok saved ∧
      restoreFiles d.lib OrderedDict.empty saved.files = .ok files ∧
      mount = { newMount d call with repoUrl := saved.repoUrl, branch := saved.branch,
                                     commitSha := saved.commitSha, virtualRoot := saved.virtualRoot,
                                     files := files, lastSync := lastSync } := by
  unfold restoreMountState at h
  obtain ⟨text, hread, h⟩ := bind_eq_ok_iff.mp h
  obtain ⟨saved, hloads, h⟩ := bind_eq_ok_iff.mp h
  obtain ⟨files, hfiles, h⟩ := bind_eq_ok_iff.mp h
  obtain ⟨lastSync, -, h⟩ := bind_eq_ok_iff.mp h
  have hread' : s.disk.read (statePath d call.sessionId) = .ok text := by
    unfold FileTree.read at hread ⊢
    rw [← hdisk]
    exact hread
  exact ⟨saved, files, lastSync, bind_eq_ok_iff.mpr ⟨text, hread', hloads⟩, hfiles, (Except.ok.inj h).symm⟩

theorem stateFile_newMount : stateFile d.storagePath (newMount d call) = statePath d call.sessionId := rfl

theorem localPath_newMount : (newMount d call).localPath = localPath d call.sessionId call.repoUrl := rfl

theorem initializeMount_eq_ok {mount : SessionMount}
    (h : (initializeMount d now s (newMount d call) call.authToken).1 = .ok mount) :
    ∃ disk made, s.disk.makeDirectory (localPath d call.sessionId call.repoUrl) = .ok disk ∧ mount = synced now made ∧
      if s.disk.pathExists (statePath d call.sessionId) = true then
        restoreMountState d.lib (newMount d call) disk (statePath d call.sessionId) = .ok made
      else (cloneRepository d now { s with disk := disk } (newMount d call) call.authToken).1 = .ok made := by
  unfold initializeMount at h
  rw [localPath_newMount, stateFile_newMount] at h
  cases hmake : s.disk.makeDirectory (localPath d call.sessionId call.repoUrl) with
  | error e => simp [hmake] at h
  | ok disk =>
    have hpath : disk.pathExists (statePath d call.sessionId) =
        s.disk.pathExists (statePath d call.sessionId) := by
      unfold FileTree.pathExists
      rw [makeDirectory_statePath hmake]
    simp only [hmake, hpath] at h
    split_ifs at h ⊢
    · obtain ⟨made, hmade, hsynced⟩ := map_eq_ok_iff.mp h
      exact ⟨disk, made, rfl, hsynced.symm, hmade⟩
    · obtain ⟨made, hmade, hsynced⟩ := map_eq_ok_iff.mp h
      exact ⟨disk, made, rfl, hsynced.symm, hmade⟩

theorem cloneRepository_eq_ok {mount mount' : SessionMount} {authToken : Option String}
    (h : (cloneRepository d now s mount authToken).1 = .ok mount') :
    ∃ clone files, d.gitClone (cloneCommand mount.repoUrl mount.branch mount.commitSha mount.localPath)
        (githubToken d.fernet mount.repoUrl authToken) (truthyText mount.commitSha)
        (directoryAt s.disk mount.localPath) now = .ok clone ∧
      indexRepository now clone.listing = .ok files ∧
      mount' = { mount with repoUrl := clonedUrl d.fernet mount.repoUrl authToken, files := files } := by
  unfold cloneRepository at h
  split at h
  · cases h
  · next clone hclone =>
    obtain ⟨files, hfiles, hmount⟩ := map_eq_ok_iff.mp h
    exact ⟨clone, files, hclone, hfiles, hmount.symm⟩

theorem mountRepository_of_current {m : Mounted} (h : currentMount s call = some m) :
    mountRepository d now s call = (.ok m, s) := by
  unfold mountRepository
  rw [h]

theorem mountRepository_result (h : currentMount s call = none) : (mountRepository d now s call).1 =
    (initializeMount d now s (newMount d call) call.authToken).1.map fun mount => ⟨mount, call.authToken⟩ := by
  unfold mountRepository
  rw [h]

theorem mountRepository_state (h : currentMount s call = none) : (mountRepository d now s call).2 =
    match (initializeMount d now s (newMount d call) call.authToken).1 with
    | .error _ => (initializeMount d now s (newMount d call) call.authToken).2
    | .ok mount =>
      { (initializeMount d now s (newMount d call) call.authToken).2 with
          mounts := (initializeMount d now s (newMount d call) call.authToken).2.mounts.set call.sessionId
            ⟨mount, call.authToken⟩ } := by
  cases hinit : (initializeMount d now s (newMount d call) call.authToken).1 with
  | error e => simp [mountRepository, h, hinit]
  | ok mount => simp [mountRepository, h, hinit]

theorem mountRepository_ok {m : Mounted} (h : (mountRepository d now s call).1 = .ok m) :
    Mounts d now s call m := by
  cases hcurrent : currentMount s call with
  | some current =>
    rw [mountRepository_of_current hcurrent] at h
    cases h
    exact .current hcurrent
  | none =>
    rw [mountRepository_result hcurrent] at h
    obtain ⟨mount, hinitialized, rfl⟩ := map_eq_ok_iff.mp h
    obtain ⟨disk, made, hmake, rfl, hmount⟩ := initializeMount_eq_ok hinitialized
    by_cases hfile : s.disk.pathExists (statePath d call.sessionId) = true
    · rw [if_pos hfile] at hmount
      obtain ⟨saved, files, lastSync, hsaved, hfiles, rfl⟩ :=
        restoreMountState_eq_ok (makeDirectory_statePath hmake) hmount
      exact .restored hcurrent hfile saved hsaved files hfiles rfl
    · rw [if_neg hfile] at hmount
      obtain ⟨clone, files, hclone, hfiles, rfl⟩ := cloneRepository_eq_ok hmount
      exact .cloned hcurrent (Bool.eq_false_iff.mpr hfile) _ clone hclone files hfiles rfl

/-- A state file that can be restored is the mount, whatever repository is asked for. -/
theorem mountRepository_restores (hnone : currentMount s call = none) {disk : FileTree}
    (hmake : s.disk.makeDirectory (localPath d call.sessionId call.repoUrl) = .ok disk) {saved : SavedState}
    (hsaved : savedState d s call.sessionId = .ok saved) {files : OrderedDict String VirtualFile}
    (hfiles : restoreFiles d.lib OrderedDict.empty saved.files = .ok files) {lastSync : Option ℕ}
    (htime : restoreTime d.lib saved.lastSync = .ok lastSync) :
    ∃ m, (mountRepository d now s call).1 = .ok m ∧ m.mount.repoUrl = saved.repoUrl := by
  obtain ⟨text, hread, hloads⟩ := bind_eq_ok_iff.mp hsaved
  have hdisk := makeDirectory_statePath hmake
  have hcontent := FileTree.contentAt_eq_some_iff.mp (FileTree.read_eq_ok_iff.mp hread)
  have hread' : disk.read (statePath d call.sessionId) = .ok text := by
    rw [FileTree.read_eq_ok_iff, FileTree.contentAt_eq_some_iff, hdisk, hcontent]
  have hthere : disk.pathExists (statePath d call.sessionId) = true := by
    rw [FileTree.pathExists_iff, hdisk, hcontent]
    exact nofun
  have hrestore : restoreMountState d.lib (newMount d call) disk (statePath d call.sessionId) =
      .ok { newMount d call with repoUrl := saved.repoUrl, branch := saved.branch,
                                 commitSha := saved.commitSha, virtualRoot := saved.virtualRoot,
                                 files := files, lastSync := lastSync } :=
    bind_eq_ok_iff.mpr ⟨text, hread', bind_eq_ok_iff.mpr ⟨saved, hloads,
      bind_eq_ok_iff.mpr ⟨files, hfiles, bind_eq_ok_iff.mpr ⟨lastSync, htime, rfl⟩⟩⟩⟩
  rw [mountRepository_result hnone]
  unfold initializeMount
  rw [localPath_newMount, stateFile_newMount, hmake]
  simp only [hthere, if_true, hrestore]
  exact ⟨_, rfl, rfl⟩

theorem cloneRepository_frame (d : Deployment) (now : ℕ) (s : Sessions) (mount : SessionMount)
    (authToken : Option String) : (cloneRepository d now s mount authToken).2.mounts = s.mounts ∧
      ∀ q, ¬ mount.localPath <+: q → (cloneRepository d now s mount authToken).2.disk q = s.disk q := by
  unfold cloneRepository
  split
  · exact ⟨rfl, fun _ _ => rfl⟩
  · exact ⟨rfl, fun q hq => if_neg hq⟩

theorem initializeMount_frame (d : Deployment) (now : ℕ) (s : Sessions) (call : MountCall) :
    (initializeMount d now s (newMount d call) call.authToken).2.mounts = s.mounts ∧
      (initializeMount d now s (newMount d call) call.authToken).2.disk.contentAt (statePath d call.sessionId) =
        s.disk.contentAt (statePath d call.sessionId) := by
  unfold initializeMount
  rw [localPath_newMount, stateFile_newMount]
  cases hmake : s.disk.makeDirectory (localPath d call.sessionId call.repoUrl) with
  | error e => exact ⟨rfl, rfl⟩
  | ok disk =>
    have hcontent := FileTree.contentAt_makeDirectory hmake (statePath d call.sessionId)
    simp only
    split_ifs
    · exact ⟨rfl, hcontent⟩
    · obtain ⟨hmounts, hdisk⟩ := cloneRepository_frame d now { s with disk := disk } (newMount d call)
        call.authToken
      refine ⟨hmounts, ?_⟩
      rw [← hcontent]
      unfold FileTree.contentAt
      rw [hdisk _ (localPath_apart d call.sessionId call.repoUrl).1]

/-- Whatever a mount does, the content of the state file stays, and the table gets what it returns. -/
theorem mountRepository_frame (d : Deployment) (now : ℕ) (s : Sessions) (call : MountCall) :
    (mountRepository d now s call).2.disk.contentAt (statePath d call.sessionId) =
      s.disk.contentAt (statePath d call.sessionId) ∧
    (mountRepository d now s call).2.mounts.get? call.sessionId =
      match (mountRepository d now s call).1 with
      | .error _ => s.mounts.get? call.sessionId
      | .ok m => some m := by
  cases hcurrent : currentMount s call with
  | some current =>
    rw [mountRepository_of_current hcurrent]
    exact ⟨rfl, (Option.filter_eq_some_iff.mp hcurrent).1⟩
  | none =>
    obtain ⟨hmounts, hdisk⟩ := initializeMount_frame d now s call
    rw [mountRepository_result hcurrent, mountRepository_state hcurrent]
    cases hinitialized : (initializeMount d now s (newMount d call) call.authToken).1 with
    | error e =>
      simp only [Except.map, hmounts]
      exact ⟨hdisk, trivial⟩
    | ok mount =>
      simp only [Except.map, OrderedDict.get?_set_self]
      exact ⟨hdisk, trivial⟩

end Mount

/-! ## Where the files of a mount come from -/

/-- The index is one of the repository that the mount names. -/
structure Indexed (d : Deployment) (sessionId : String) (mount : SessionMount) : Prop where
  sessionId_eq : mount.sessionId = sessionId
  path_eq : ∀ path vfile, mount.files.get? path = some vfile → vfile.path = path
  /-- What the session added is not in the commit. -/
  added : ∀ path vfile, mount.files.get? path = some vfile → vfile.status = .added → vfile.headSha = none

/-- The mount of the session and its state file are of the repositories that they name. -/
structure Provenance (d : Deployment) (sessionId : String) (s : Sessions) : Prop where
  current : ∀ m, s.mounts.get? sessionId = some m → Indexed d sessionId m.mount ∧
    FromRepository d m.mount.repoUrl m.mount.branch m.mount.files
  saved : ∀ text, s.disk.contentAt (statePath d sessionId) = some text →
    ∃ mount, Indexed d sessionId mount ∧ FromRepository d mount.repoUrl mount.branch mount.files ∧
      text = d.lib.dumps (saveMount d.lib mount)

/-- `json.loads` never reads anything else than what was dumped. -/
def JsonFaithful (lib : Library) : Prop :=
  ∀ saved saved', lib.loads (lib.dumps saved) = .ok saved' → saved' = saved

section Provenance
variable {d : Deployment} {sessionId : String} {s : Sessions}

theorem FromRepository.congr {repoUrl branch : String} {files files' : OrderedDict String VirtualFile}
    (h : FromRepository d repoUrl branch files) (hheads : ∀ path, headOf files' path = headOf files path) :
    FromRepository d repoUrl branch files' := by
  obtain ⟨commitSha, token, directory, now, target, clone, index, hclone, hindex, hsame⟩ := h
  exact ⟨commitSha, token, directory, now, target, clone, index, hclone, hindex,
    fun path => (hheads path).trans (hsame path)⟩

/-- The index that is restored is the one that was saved. -/
theorem restoreFiles_of_saved {mount : SessionMount} (h : Indexed d sessionId mount)
    {files : OrderedDict String VirtualFile}
    (hfiles : restoreFiles d.lib OrderedDict.empty (saveMount d.lib mount).files = .ok files) (path : String) :
    files.get? path = (mount.files.get? path).map restoredFile := by
  obtain ⟨files', hrun, hget⟩ := restoreFiles_saved d.lib mount.files.nodup
    (fun e he => h.path_eq e.1 e.2 ((lookup_eq_some_iff mount.files.nodup _ _).mpr he)) OrderedDict.empty
  obtain rfl := Except.ok.inj (hrun.symm.trans hfiles)
  rw [hget, OrderedDict.get?_empty, Option.or_none]
  rfl

/-- **What a mount that succeeds gives, when everything so far is of the repository that it names.** -/
theorem Provenance.mounted (h : Provenance d sessionId s) (hjson : JsonFaithful d.lib) {now : ℕ}
    {call : MountCall} (hsession : call.sessionId = sessionId) {m : Mounted}
    (hm : Mounts d now s call m) : Indexed d sessionId m.mount ∧
      ((m.mount.repoUrl = call.repoUrl ∧ m.mount.branch = call.branch) ↔ MountFits d s call) ∧
      (m.mount.repoUrl = call.repoUrl → m.mount.branch = call.branch →
        FromRepository d call.repoUrl call.branch m.mount.files) := by
  subst hsession
  cases hm with
  | current hcurrent =>
    obtain ⟨hget, hsame⟩ := Option.filter_eq_some_iff.mp hcurrent
    have hsame : m.mount.repoUrl = call.repoUrl ∧ m.mount.branch = call.branch := by simpa using hsame
    obtain ⟨hindexed, hfiles⟩ := h.current m hget
    refine ⟨hindexed, iff_of_true hsame (Or.inl ?_), fun hurl hbranch => ?_⟩
    · rw [hcurrent]
      exact nofun
    · rw [← hurl, ← hbranch]
      exact hfiles
  | restored hnone hfile saved hsaved files hfiles hm =>
    obtain ⟨text, hread, hloads⟩ := bind_eq_ok_iff.mp hsaved
    obtain ⟨mount, hindexed, hrepository, rfl⟩ := h.saved text (FileTree.read_eq_ok_iff.mp hread)
    obtain rfl := hjson _ _ hloads
    have hget := restoreFiles_of_saved hindexed hfiles
    subst hm
    refine ⟨⟨rfl, ?_, ?_⟩, ?_, ?_⟩
    · intro path vfile hentry
      obtain ⟨old, hold, rfl⟩ := Option.map_eq_some_iff.mp ((hget path).symm.trans hentry)
      exact hindexed.path_eq path old hold
    · intro path vfile hentry hadded
      obtain ⟨old, hold, rfl⟩ := Option.map_eq_some_iff.mp ((hget path).symm.trans hentry)
      exact hindexed.added path old hold hadded
    · unfold MountFits
      rw [hnone, if_pos hfile, hsaved]
      simp
    · rintro hurl hbranch
      have hurl : mount.repoUrl = call.repoUrl := hurl
      have hbranch : mount.branch = call.branch := hbranch
      rw [← hurl, ← hbranch]
      refine hrepository.congr fun path => ?_
      show (files.get? path).bind _ = _
      rw [hget, Option.bind_map]
      rfl
  | cloned hnone hfile directory clone hclone files hfiles hm =>
    subst hm
    have hentry : ∀ {path vfile}, files.get? path = some vfile → ∃ sha, vfile = indexedFile now path sha := by
      intro path vfile hget
      obtain ⟨sha, hvfile, -⟩ := indexRepository_entry hfiles (fun _ _ _ _ _ => True.intro) hget
      exact ⟨sha, hvfile⟩
    refine ⟨⟨rfl, ?_, ?_⟩, ?_, fun _ _ => ⟨_, _, _, _, _, _, _, hclone, hfiles, fun _ => rfl⟩⟩
    · intro path vfile hget
      obtain ⟨sha, rfl⟩ := hentry hget
      rfl
    · intro path vfile hget hadded
      obtain ⟨sha, rfl⟩ := hentry hget
      cases hadded
    · unfold MountFits
      rw [hnone, if_neg (by rw [hfile]; exact Bool.false_ne_true), ← clonedUrl_eq_iff d.fernet call]
      simp [newMount]

/-! ## The other operations -/

theorem writeFile_stateFile (lib : Library) (storagePath : List String) (now : ℕ) (s : State) (path : String)
    (content : Bytes) :
    (writeFile lib storagePath now s path content).2.disk.contentAt (stateFile storagePath s.mount) =
      s.disk.contentAt (stateFile storagePath s.mount) ∨
    (writeFile lib storagePath now s path content).2.disk.contentAt (stateFile storagePath s.mount) =
      some (lib.dumps (saveMount lib (writtenMount lib now s path content))) := by
  rw [writeFile_eq]
  cases hchange : (storedChange lib storagePath now s path content).1 with
  | error e => exact Or.inl (FileTree.contentAt_store_error s.disk hchange _)
  | ok u =>
    cases hstate : (storedState lib storagePath now s path content).1 with
    | ok u => exact Or.inr (FileTree.contentAt_store_self (Prod.ext hstate rfl))
    | error e =>
      -- the change does not lie where the state could not be stored
      have hne : stateFile storagePath s.mount ≠ changePath lib storagePath now s path content := by
        intro heq
        unfold storedState at hstate
        rw [heq] at hstate
        have hagain := FileTree.store_again hchange (lib.dumps (saveMount lib (writtenMount lib now s path content)))
        exact nomatch hagain.symm.trans hstate
      exact Or.inl ((FileTree.contentAt_store_error _ hstate _).trans
        (FileTree.contentAt_store_ne s.disk content hne))

theorem Indexed.written {state : State} (h : Indexed d sessionId state.mount) (lib : Library) (now : ℕ)
    (path : String) (content : Bytes) : Indexed d sessionId (writtenMount lib now state path content) ∧
      ∀ q, headOf (writtenMount lib now state path content).files q = headOf state.mount.files q := by
  have hget : ∀ q, (writtenMount lib now state path content).files.get? q =
      if q = normalizePath path then
        some (writtenFile lib now (state.mount.files.get? (normalizePath path)) (normalizePath path) content)
      else state.mount.files.get? q := fun q => OrderedDict.get?_set _ _ q _
  have hkey := h.path_eq (normalizePath path)
  have hadded := h.added (normalizePath path)
  have hwritten : ∃ vfile, writtenFile lib now (state.mount.files.get? (normalizePath path))
        (normalizePath path) content = vfile ∧ vfile.path = normalizePath path ∧
      (vfile.status = .added → vfile.headSha = none) ∧
      vfile.headSha = headOf state.mount.files (normalizePath path) := by
    refine ⟨_, rfl, ?_⟩
    unfold headOf writtenFile
    cases hentry : state.mount.files.get? (normalizePath path) with
    | none => exact ⟨rfl, fun _ => rfl, rfl⟩
    | some vfile =>
      refine ⟨hkey vfile hentry, fun hstatus => ?_, rfl⟩
      simp only at hstatus
      split_ifs at hstatus
  obtain ⟨vfile, hvfile, hpath, hnew, hhead⟩ := hwritten
  refine ⟨⟨h.sessionId_eq, ?_, ?_⟩, fun q => ?_⟩
  · intro q entry hentry
    rw [hget] at hentry
    split_ifs at hentry with hq
    · rw [← Option.some.inj hentry, hvfile, hpath, hq]
    · exact h.path_eq q entry hentry
  · intro q entry hentry
    rw [hget] at hentry
    split_ifs at hentry with hq
    · rw [← Option.some.inj hentry, hvfile]
      exact hnew
    · exact h.added q entry hentry
  · unfold headOf
    rw [hget]
    split_ifs with hq
    · rw [hvfile, hq]
      exact hhead
    · rfl

theorem Indexed.deleted {state : State} (h : Indexed d sessionId state.mount) (now : ℕ) (path : String) :
    Indexed d sessionId (deleteFile now state path).2.mount ∧
      ∀ q, headOf (deleteFile now state path).2.mount.files q = headOf state.mount.files q := by
  refine ⟨⟨(deleteFile_frame now state path).2.2.trans h.sessionId_eq, ?_, ?_⟩, fun q => ?_⟩
  · intro q entry hentry
    rw [deleteFile_get?] at hentry
    split_ifs at hentry with hq
    · obtain ⟨old, hold, hentry⟩ := Option.bind_eq_some_iff.mp hentry
      split_ifs at hentry
      rw [← Option.some.inj hentry]
      exact h.path_eq q old hold
    · exact h.path_eq q entry hentry
  · intro q entry hentry hstatus
    rw [deleteFile_get?] at hentry
    split_ifs at hentry with hq
    · obtain ⟨old, hold, hentry⟩ := Option.bind_eq_some_iff.mp hentry
      split_ifs at hentry
      rw [← Option.some.inj hentry] at hstatus
      cases hstatus
    · exact h.added q entry hentry hstatus
  · unfold headOf
    rw [deleteFile_get?]
    split_ifs with hq
    · cases hentry : state.mount.files.get? q with
      | none => rfl
      | some old =>
        rw [Option.bind_some]
        split_ifs with hadded
        · exact (h.added q old hentry hadded).symm
        · rfl
    · rfl

end Provenance

/-! ## Runs of one session -/

inductive SessionRequest where
  | mount (repoUrl branch : String) (commitSha authToken : Option String) (now : ℕ)
  | write (path : String) (content : Bytes) (now : ℕ)
  | delete (path : String) (now : ℕ)
  | unmount (persist : Bool)
deriving DecidableEq

def SessionRequest.request (sessionId : String) : SessionRequest → Request
  | .mount repoUrl branch commitSha authToken now =>
    .mount ⟨sessionId, repoUrl, branch, commitSha, authToken⟩ now
  | .write path content now => .file sessionId (.write path content now)
  | .delete path now => .file sessionId (.delete path now)
  | .unmount persist => .unmount sessionId persist

def sessionStep (d : Deployment) (sessionId : String) (s : Sessions) (r : SessionRequest) : Option Sessions :=
  some (perform d s (r.request sessionId))

section Runs
variable {d : Deployment} {sessionId : String} {s : Sessions}

theorem mount_session {r : SessionRequest} {call : MountCall} {now : ℕ}
    (h : r.request sessionId = .mount call now) : call.sessionId = sessionId := by
  cases r with
  | mount repoUrl branch commitSha authToken now =>
    obtain ⟨rfl, -⟩ := Request.mount.inj h
    rfl
  | _ => cases h

/-- **A mount is right exactly when it fits.** -/
theorem Provenance.mountsRight_iff (h : Provenance d sessionId s) (hjson : JsonFaithful d.lib)
    (r : SessionRequest) : MountsRight d s (r.request sessionId) (perform d s (r.request sessionId)) ↔
      MountOk d s (r.request sessionId) := by
  constructor
  · intro hright call now m hr hm
    obtain ⟨-, hfits, -⟩ := h.mounted hjson (mount_session hr) (mountRepository_ok hm)
    have hmount := hright call now m hr hm
    exact hfits.mp ⟨hmount.repoUrl, hmount.branch⟩
  · intro hok call now m hr hm
    obtain ⟨-, hfits, hfiles⟩ := h.mounted hjson (mount_session hr) (mountRepository_ok hm)
    obtain ⟨hurl, hbranch⟩ := hfits.mpr (hok call now m hr hm)
    refine ⟨hurl, hbranch, hfiles hurl hbranch, ?_⟩
    intro current hget hcurl hcbranch
    have hcurrent : currentMount s call = some current :=
      Option.filter_eq_some_iff.mpr ⟨hget, by simp [hcurl, hcbranch]⟩
    have hrun := @mountRepository_of_current d now s call current hcurrent
    rw [hrun] at hm
    rw [hr]
    exact ⟨(Except.ok.inj hm).symm, congrArg Prod.snd hrun⟩

/-- An operation on the mount keeps its repository, and the state file or the saved index. -/
theorem Provenance.put (h : Provenance d sessionId s) {m : Mounted} {state : State}
    (hget : s.mounts.get? sessionId = some m) (hindexed : Indexed d sessionId state.mount)
    (hurl : state.mount.repoUrl = m.mount.repoUrl) (hbranch : state.mount.branch = m.mount.branch)
    (hheads : ∀ q, headOf state.mount.files q = headOf m.mount.files q)
    (hsaved : state.disk.contentAt (statePath d sessionId) = s.disk.contentAt (statePath d sessionId) ∨
      state.disk.contentAt (statePath d sessionId) = some (d.lib.dumps (saveMount d.lib state.mount))) :
    Provenance d sessionId (s.put sessionId m state) := by
  have hfiles : FromRepository d state.mount.repoUrl state.mount.branch state.mount.files := by
    rw [hurl, hbranch]
    exact (h.current m hget).2.congr hheads
  refine ⟨fun m' hm' => ?_, fun text htext => ?_⟩
  · have hput : (s.put sessionId m state).mounts.get? sessionId = some { m with mount := state.mount } :=
      OrderedDict.get?_set_self _ _ _
    rw [← Option.some.inj (hput.symm.trans hm')]
    exact ⟨hindexed, hfiles⟩
  · rcases hsaved with hsaved | hsaved
    · exact h.saved text (hsaved.symm.trans htext)
    · exact ⟨state.mount, hindexed, hfiles, Option.some.inj (htext.symm.trans hsaved)⟩

theorem Indexed.stateFile_eq {mount : SessionMount} (h : Indexed d sessionId mount) :
    stateFile d.storagePath mount = statePath d sessionId := by
  unfold stateFile sessionDir statePath
  rw [h.sessionId_eq]

theorem deleteFile_repository (now : ℕ) (state : State) (path : String) :
    (deleteFile now state path).2.mount.repoUrl = state.mount.repoUrl ∧
      (deleteFile now state path).2.mount.branch = state.mount.branch := by
  unfold deleteFile
  simp only
  split
  · split_ifs
    · exact ⟨rfl, rfl⟩
    · exact ⟨rfl, rfl⟩
  · exact ⟨rfl, rfl⟩

/-- The state file after an unmount: the one from before, the saved index, or none. -/
theorem unmountDisk_statePath {m : Mounted} (h : Indexed d sessionId m.mount) (disk : FileTree)
    (persist : Bool) {text : Bytes}
    (htext : (unmountDisk d m disk persist).contentAt (statePath d sessionId) = some text) :
    disk.contentAt (statePath d sessionId) = some text ∨ text = d.lib.dumps (saveMount d.lib m.mount) := by
  unfold unmountDisk at htext
  cases persist with
  | true =>
    have htext : (disk.store (stateFile d.storagePath m.mount) (d.lib.dumps (saveMount d.lib m.mount))).2.contentAt
        (statePath d sessionId) = some text := htext
    rw [← h.stateFile_eq] at htext ⊢
    cases hstore : (disk.store (stateFile d.storagePath m.mount) (d.lib.dumps (saveMount d.lib m.mount))).1 with
    | error e =>
      rw [FileTree.contentAt_store_error disk hstore] at htext
      exact Or.inl htext
    | ok u =>
      rw [FileTree.contentAt_store_self (Prod.ext hstore rfl)] at htext
      exact Or.inr (Option.some.inj htext).symm
  | false =>
    simp only [Bool.false_eq_true, if_false] at htext
    split_ifs at htext
    · split at htext
      · exact Or.inl htext
      · next disk' hremove =>
        rw [FileTree.contentAt_removeTree hremove] at htext
        split_ifs at htext
        exact Or.inl htext
    · exact Or.inl htext

theorem Provenance.onMount (h : Provenance d sessionId s) {f : Mounted → Sessions}
    (hf : ∀ m, s.mounts.get? sessionId = some m → Provenance d sessionId (f m)) :
    Provenance d sessionId (s.onMount sessionId f) := by
  unfold Sessions.onMount
  cases hget : s.mounts.get? sessionId with
  | none => exact h
  | some m => exact hf m hget

theorem Provenance.write (h : Provenance d sessionId s) {m : Mounted}
    (hget : s.mounts.get? sessionId = some m) (now : ℕ) (path : String) (content : Bytes) :
    Provenance d sessionId (s.put sessionId m
      (writeFile d.lib d.storagePath now (m.state s.disk) path content).2) := by
  have hindexed : Indexed d sessionId (m.state s.disk).mount := (h.current m hget).1
  obtain ⟨hwritten, hheads⟩ := hindexed.written d.lib now path content
  have hmount := writeFile_mount d.lib d.storagePath now (m.state s.disk) path content
  have hsaved := writeFile_stateFile d.lib d.storagePath now (m.state s.disk) path content
  rw [hindexed.stateFile_eq] at hsaved
  refine h.put hget ?_ ?_ ?_ ?_ ?_
  · rw [hmount]
    exact hwritten
  · rw [hmount]
    rfl
  · rw [hmount]
    rfl
  · rw [hmount]
    exact hheads
  · rw [hmount]
    exact hsaved

theorem Provenance.delete (h : Provenance d sessionId s) {m : Mounted}
    (hget : s.mounts.get? sessionId = some m) (now : ℕ) (path : String) :
    Provenance d sessionId (s.put sessionId m (deleteFile now (m.state s.disk) path).2) := by
  have hindexed : Indexed d sessionId (m.state s.disk).mount := (h.current m hget).1
  obtain ⟨hdeleted, hheads⟩ := hindexed.deleted now path
  obtain ⟨hurl, hbranch⟩ := deleteFile_repository now (m.state s.disk) path
  refine h.put hget hdeleted hurl hbranch hheads (Or.inl ?_)
  rw [(deleteFile_frame now (m.state s.disk) path).1]
  rfl

theorem Provenance.unmount (h : Provenance d sessionId s) {m : Mounted}
    (hget : s.mounts.get? sessionId = some m) (persist : Bool) :
    Provenance d sessionId { s with mounts := s.mounts.erase sessionId, disk := unmountDisk d m s.disk persist } := by
  obtain ⟨hindexed, hfiles⟩ := h.current m hget
  refine ⟨fun m' hm' => ?_, fun text htext => ?_⟩
  · simp only [OrderedDict.get?_erase_self] at hm'
    cases hm'
  · rcases unmountDisk_statePath hindexed s.disk persist htext with hbefore | hsaved
    · exact h.saved text hbefore
    · exact ⟨m.mount, hindexed, hfiles, hsaved⟩

theorem Provenance.mount (h : Provenance d sessionId s) (hjson : JsonFaithful d.lib) {call : MountCall}
    (hsession : call.sessionId = sessionId) (now : ℕ)
    (hright : ∀ m, (mountRepository d now s call).1 = .ok m →
      MountRight d s call m (mountRepository d now s call).2) :
    Provenance d sessionId (mountRepository d now s call).2 := by
  subst hsession
  obtain ⟨hdisk, htable⟩ := mountRepository_frame d now s call
  refine ⟨fun m hget => ?_, fun text htext => h.saved text (hdisk.symm.trans htext)⟩
  have hget := htable.symm.trans hget
  cases hresult : (mountRepository d now s call).1 with
  | error e =>
    rw [hresult] at hget
    exact h.current m hget
  | ok m' =>
    rw [hresult] at hget
    obtain rfl := Option.some.inj hget
    have hm := hright m' hresult
    refine ⟨(h.mounted hjson rfl (mountRepository_ok hresult)).1, ?_⟩
    rw [hm.repoUrl, hm.branch]
    exact hm.files

/-- **A step whose mount is right keeps everything of the repository that it names.** -/
theorem Provenance.step (h : Provenance d sessionId s) (hjson : JsonFaithful d.lib) (r : SessionRequest)
    (hright : MountsRight d s (r.request sessionId) (perform d s (r.request sessionId))) :
    Provenance d sessionId (perform d s (r.request sessionId)) := by
  cases r with
  | mount repoUrl branch commitSha authToken now =>
    exact h.mount hjson rfl now fun m hm => hright _ now m rfl hm
  | write path content now => exact h.onMount fun m hget => h.write hget now path content
  | delete path now => exact h.onMount fun m hget => h.delete hget now path
  | unmount persist => exact h.onMount fun m hget => h.unmount hget persist

/-- **Over every run of calls on a session without a mount and a state file, every mount that succeeds gives
the repository that was asked for exactly when each one fits.** -/
theorem mounts_right_iff_guarded (hjson : JsonFaithful d.lib) (hmounts : s.mounts.get? sessionId = none)
    (hfile : s.disk (statePath d sessionId) = none) (requests : List SessionRequest) :
    (∀ js r ks t t', requests = js ++ r :: ks → exec (sessionStep d sessionId) s js = some t →
      sessionStep d sessionId t r = some t' → MountsRight d t (r.request sessionId) t') ↔
    Guarded (sessionStep d sessionId) (fun t r => MountOk d t (r.request sessionId)) s requests := by
  have hstart : Provenance d sessionId s := by
    refine ⟨fun m hget => ?_, fun text htext => ?_⟩
    · exact nomatch hmounts.symm.trans hget
    · rw [FileTree.contentAt_eq_some_iff, hfile] at htext
      cases htext
  refine every_step_iff_guarded ?_ ?_ hstart requests
  · rintro t r t' ht hright ⟨⟩
    exact ht.step hjson r hright
  · intro t r ht
    rw [← ht.mountsRight_iff hjson r]
    constructor
    · intro hright
      exact hright _ rfl
    · rintro hright t' ⟨⟩
      exact hright

end Runs

/-! ## A note, and another repository -/

/-- What a table reads is what it wrote. -/
theorem tableLibrary_faithful (digest : Bytes → String) (hlength : ∀ content, (digest content).length = 64)
    {table : List (SavedState × Bytes)} (htexts : ([] :: table.map Prod.snd).Nodup) :
    JsonFaithful (tableLibrary digest hlength table) := by
  obtain ⟨hempty, htexts⟩ := List.nodup_cons.mp htexts
  intro saved saved' hloads
  unfold tableLibrary at hloads
  simp only at hloads
  cases hfind : table.find? fun e => decide (e.2 = (table.lookup saved).getD []) with
  | none => simp [hfind] at hloads
  | some e =>
    simp only [hfind, Except.ok.injEq] at hloads
    have hmem := List.mem_of_find?_eq_some hfind
    have htext : e.2 = (table.lookup saved).getD [] := by simpa using List.find?_some hfind
    cases hlookup : table.lookup saved with
    | none =>
      rw [hlookup] at htext
      exact absurd (List.mem_map.mpr ⟨e, hmem, htext⟩) hempty
    | some text =>
      rw [hlookup] at htext
      have hentry : (saved, text) ∈ table := by
        obtain ⟨l, r, rfl, -⟩ := List.lookup_eq_some_iff.mp hlookup
        simp
      rw [← hloads, List.inj_on_of_nodup_map htexts hmem hentry htext]

theorem noteJson_faithful : JsonFaithful noteJson := by
  refine tableLibrary_faithful _ _ ?_
  have hne : ∀ status, [] ≠ noteText status := by
    intro status h
    have hlength := congrArg List.length h
    have hvalue : status.value.length ≠ 0 := by cases status <;> decide
    unfold noteText at hlength
    simp only [List.length_nil, List.length_map, String.length_toList, String.length_append] at hlength
    omega
  simp [hne, noteText_ne.symm]

def noteUrl : String := "https://example.test/repo"

def toolsUrl : String := "https://example.test/tools"

/-- A host with two public repositories of one file each. -/
def exampleHost (cmd : List String) : Except String Clone :=
  let checkout (name : String) : FileTree := fun q =>
    if q = [] ∨ q = [".git"] then some .directory else if q = [name] then some (.file hiBytes) else none
  if noteUrl ∈ cmd then .ok ⟨checkout "note.txt", noteHead, noteListing⟩
  else if toolsUrl ∈ cmd then
    .ok ⟨checkout "lint.sh", fun path => if path = "lint.sh" then some hiBytes else none,
      "100755 blob 45b983be36b73c0788dc9cbcb76cbb80fc7bb057\tlint.sh\n"⟩
  else .error "fatal: repository not found\n"

def noteDeployment : Deployment where
  lib := noteJson
  fernet := markingFernet
  git := noteGit
  gitClone cmd _ _ _ _ := exampleHost cmd
  storagePath := noteStorage
  sessionRoot sessionId := ["srv", "t_local", "s_" ++ sessionId]
  apart sessionId := by
    constructor <;>
    · intro h
      have hsecond := (List.cons_prefix_cons.mp h).2
      exact absurd (List.cons_prefix_cons.mp hsecond).1 (by decide)

def noSessions : Sessions where
  mounts := OrderedDict.empty
  disk q := if q ∈ [[], ["srv"], noteStorage] then some .directory else none
  heads _ := fun _ => none

def mountRequest (repoUrl : String) : SessionRequest := .mount repoUrl "main" none none 0

theorem mountRequest_ok {s : Sessions} {repoUrl : String}
    (hfits : MountFits noteDeployment s ⟨"s1", repoUrl, "main", none, none⟩) :
    MountOk noteDeployment s ((mountRequest repoUrl).request "s1") := by
  rintro call now m hr -
  obtain ⟨rfl, -⟩ := Request.mount.inj hr
  exact hfits

def mountedNote : Sessions := perform noteDeployment noSessions ((mountRequest noteUrl).request "s1")

def changedNote : Sessions :=
  perform noteDeployment mountedNote ((SessionRequest.write "note.txt" byeBytes 0).request "s1")

/-- The note is mounted again with its change. -/
theorem note_mounted_again : MountsRight noteDeployment changedNote ((mountRequest noteUrl).request "s1")
    (perform noteDeployment changedNote ((mountRequest noteUrl).request "s1")) := by
  have hcurrent : (currentMount changedNote ⟨"s1", noteUrl, "main", none, none⟩).isSome = true := by
    decide +kernel
  refine (@mounts_right_iff_guarded noteDeployment "s1" noSessions noteJson_faithful rfl (by decide)
    [mountRequest noteUrl, .write "note.txt" byeBytes 0, mountRequest noteUrl]).mpr ⟨mountRequest_ok ?_, ?_⟩
    [mountRequest noteUrl, .write "note.txt" byeBytes 0] (mountRequest noteUrl) [] changedNote _ rfl rfl rfl
  · exact mountFits_of_clone (by decide) fun htoken => nomatch htoken.1
  · rintro s₁ ⟨⟩
    refine ⟨fun call now m hr => (nomatch hr), ?_⟩
    rintro s₂ ⟨⟩
    refine ⟨mountRequest_ok (Or.inl fun hnone => ?_), fun _ _ => True.intro⟩
    have hcurrent : (currentMount (perform noteDeployment mountedNote _) _).isSome = true := hcurrent
    rw [show currentMount (perform noteDeployment mountedNote _) _ = none from hnone] at hcurrent
    cases hcurrent

theorem changedNote_saved : savedState noteDeployment changedNote "s1" = .ok (savedNote .modified) := by
  have hmounted : (mountedNote.mounts.get? "s1").isSome = true := by decide +kernel
  obtain ⟨m, hget⟩ := Option.isSome_iff_exists.mp hmounted
  have hchanged : changedNote.disk =
      (writeFile noteJson noteStorage 0 (m.state mountedNote.disk) "note.txt" byeBytes).2.disk := by
    show (mountedNote.onMount "s1" _).disk = _
    unfold Sessions.onMount
    rw [hget]
    rfl
  have hwrite : (mountedNote.mounts.get? "s1").map (fun m =>
      (saveMount noteJson (writtenMount noteJson 0 (m.state mountedNote.disk) "note.txt" byeBytes),
        stateFile noteStorage m.mount, changePath noteJson noteStorage 0 (m.state mountedNote.disk) "note.txt" byeBytes,
        (writeFile noteJson noteStorage 0 (m.state mountedNote.disk) "note.txt" byeBytes).1.toOption.isSome)) =
      some (savedNote .modified, statePath noteDeployment "s1",
        noteStorage ++ ["sessions", "s1", "changes", "note.txt"], true) := by decide +kernel
  simp only [hget, Option.map_some, Option.some.injEq, Prod.mk.injEq] at hwrite
  obtain ⟨hsaved, hstate, hchange, hcompletes⟩ := hwrite
  obtain ⟨vfile, hvfile⟩ := Option.isSome_iff_exists.mp hcompletes
  have hne : changePath noteJson noteStorage 0 (m.state mountedNote.disk) "note.txt" byeBytes ≠
      stateFile noteStorage m.mount := by
    rw [hchange, hstate]
    decide
  obtain ⟨-, hfile⟩ := writeFile_ok noteJson noteStorage 0 (m.state mountedNote.disk) "note.txt" byeBytes
    (eq_ok_of_toOption hvfile) hne
  have hjson : RoundTrips noteJson (writtenMount noteJson 0 (m.state mountedNote.disk) "note.txt" byeBytes) :=
    noteJson_roundTrips (by rw [hsaved]; exact List.mem_cons_self)
  unfold RoundTrips at hjson
  rw [hsaved] at hjson hfile
  have hlib : noteDeployment.lib = noteJson := rfl
  rw [← hlib] at hjson
  refine savedState_of_content ?_ hjson
  rw [hchanged, ← hstate, hlib]
  exact hfile

/-- A second repository that is mounted after the note was rewritten is the first one again. -/
theorem second_repository_not_mounted : ¬ ∀ (d : Deployment) (sessionId : String) (s : Sessions)
    (requests : List SessionRequest), JsonFaithful d.lib → s.mounts.get? sessionId = none →
    s.disk (statePath d sessionId) = none →
    ∀ js r ks t t', requests = js ++ r :: ks → exec (sessionStep d sessionId) s js = some t →
      sessionStep d sessionId t r = some t' → MountsRight d t (r.request sessionId) t' := by
  intro h
  have hright := h noteDeployment "s1" noSessions
    [mountRequest noteUrl, .write "note.txt" byeBytes 0, mountRequest toolsUrl] noteJson_faithful rfl
    (by decide) [mountRequest noteUrl, .write "note.txt" byeBytes 0] (mountRequest toolsUrl) []
    changedNote _ rfl rfl rfl
  have hnone : currentMount changedNote ⟨"s1", toolsUrl, "main", none, none⟩ = none := by
    have hcurrent : (currentMount changedNote ⟨"s1", toolsUrl, "main", none, none⟩).isSome = false := by
      decide +kernel
    simpa using hcurrent
  have hmake : (changedNote.disk.makeDirectory
      (localPath noteDeployment "s1" toolsUrl)).toOption.isSome = true := by decide +kernel
  obtain ⟨disk, hdisk⟩ := Option.isSome_iff_exists.mp hmake
  have hfiles : (restoreFiles noteJson OrderedDict.empty (savedNote .modified).files).toOption.isSome = true := by
    decide
  obtain ⟨files, hrestored⟩ := Option.isSome_iff_exists.mp hfiles
  have htime : restoreTime noteJson (savedNote .modified).lastSync = .ok (some 0) := by decide
  obtain ⟨m, hm, hurl⟩ := @mountRepository_restores noteDeployment 0 _ _ hnone disk
    (eq_ok_of_toOption hdisk) _ changedNote_saved files (eq_ok_of_toOption hrestored) _ htime
  exact absurd (hurl.symm.trans (hright _ 0 m rfl hm).repoUrl) (by decide)

end KernelRuntime.Gvfs
