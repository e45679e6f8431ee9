import KernelRuntime.Storage.Remount

/-! # Where the token of a mount goes

The mount endpoint encrypts the token of a request, and cloning decrypts it. Two runs whose requests differ
in their tokens only leave the same files and give the same responses, as long as no clone writes a token
into the URL of its mount: from there the state file and the response take it. -/

namespace KernelRuntime.Gvfs
set_option autoImplicit false

/-! ## The endpoint -/

structure MountRequest where
  sessionId : String
  repoUrl : String
  branch : String
  commitSha : Option String
  authToken : Option String
deriving DecidableEq

structure MountResponse where
  success : Bool
  sessionId : String
  repoUrl : String
  branch : String
  commitSha : Option String
  virtualRoot : String
  fileCount : ℕ
  message : String
deriving DecidableEq

/-- `encrypt_string(req.auth_token) if req.auth_token else None`. -/
def encryptedToken (fernet : Fernet) (entropy : ℕ) (authToken : Option String) : Option String :=
  (truthyText authToken).map (encryptString fernet entropy)

def mountCall (fernet : Fernet) (entropy : ℕ) (req : MountRequest) : MountCall :=
  ⟨req.sessionId, req.repoUrl, req.branch, req.commitSha, encryptedToken fernet entropy req.authToken⟩

def mountResponse (req : MountRequest) (mount : SessionMount) : MountResponse where
  success := true
  sessionId := req.sessionId
  repoUrl := mount.repoUrl
  branch := mount.branch
  commitSha := mount.commitSha
  virtualRoot := mount.virtualRoot
  fileCount := mount.files.keys.length
  message := "Successfully mounted " ++ req.repoUrl ++ "@" ++ req.branch

/-- The virtual file system, and what the endpoint answered so far: an error is the detail of a 500. -/
structure Api where
  sessions : Sessions
  responses : List (Except PyError MountResponse)

inductive ApiRequest where
  | mount (req : MountRequest) (entropy now : ℕ)
  | file (sessionId : String) (op : Op)
  | commit (sessionId message : String) (author : Option String)
  | unmount (sessionId : String) (persist : Bool)
deriving DecidableEq

/-- A request. That the session is one of the user's is checked before, and left out. -/
def handle (d : Deployment) (a : Api) : ApiRequest → Api
  | .mount req entropy now =>
    let mounted := mountRepository d now a.sessions (mountCall d.fernet entropy req)
    ⟨mounted.2, a.responses ++ [mounted.1.map fun m => mountResponse req m.mount]⟩
  | .file sessionId op => { a with sessions := perform d a.sessions (.file sessionId op) }
  | .commit sessionId message author =>
    { a with sessions := perform d a.sessions (.commit sessionId message author) }
  | .unmount sessionId persist => { a with sessions := perform d a.sessions (.unmount sessionId persist) }

def apiStep (d : Deployment) (a : Api) (r : ApiRequest) : Option Api := some (handle d a r)

/-! ## Two runs -/

def MountCall.withToken (call : MountCall) (authToken : Option String) : MountCall :=
  { call with authToken := authToken }

def SameClone (d : Deployment) (now : ℕ) (call call' : MountCall) : Prop :=
  ∀ target directory,
    d.gitClone (cloneCommand call.repoUrl call.branch call.commitSha target)
      (githubToken d.fernet call.repoUrl call.authToken) (truthyText call.commitSha) directory now =
    d.gitClone (cloneCommand call'.repoUrl call'.branch call'.commitSha target)
      (githubToken d.fernet call'.repoUrl call'.authToken) (truthyText call'.commitSha) directory now

/-- The requests are the same but for the token of a mount, and git clones the same. -/
inductive DifferInToken (d : Deployment) : ApiRequest → ApiRequest → Prop
  | mount (req : MountRequest) (authToken : Option String) (entropy entropy' now : ℕ)
      (hclone : SameClone d now (mountCall d.fernet entropy req)
        (mountCall d.fernet entropy' { req with authToken := authToken })) :
      DifferInToken d (.mount req entropy now) (.mount { req with authToken := authToken } entropy' now)
  | file (sessionId : String) (op : Op) : DifferInToken d (.file sessionId op) (.file sessionId op)
  | commit (sessionId message : String) (author : Option String) :
      DifferInToken d (.commit sessionId message author) (.commit sessionId message author)
  | unmount (sessionId : String) (persist : Bool) :
      DifferInToken d (.unmount sessionId persist) (.unmount sessionId persist)

def MountRequest.TokenInUrl (req : MountRequest) : Prop :=
  (truthyText req.authToken).isSome ∧ githubPrefix <:+: req.repoUrl.toList

/-- A mount that succeeds by cloning has no token for a GitHub URL. -/
def KeepsToken (d : Deployment) (a : Api) : ApiRequest → Prop
  | .mount req entropy now => ∀ m,
      (mountRepository d now a.sessions (mountCall d.fernet entropy req)).1 = .ok m →
      currentMount a.sessions (mountCall d.fernet entropy req) = none →
      a.sessions.disk.pathExists (statePath d req.sessionId) = false → ¬ req.TokenInUrl
  | _ => True

/-- The same tables but for the encrypted tokens, and the same disk. -/
structure SameButTokens (s s' : Sessions) : Prop where
  mounts : ∀ sessionId, (s.mounts.get? sessionId).map Mounted.mount =
    (s'.mounts.get? sessionId).map Mounted.mount
  disk : s.disk = s'.disk
  heads : s.heads = s'.heads

/-! ## One step -/

section Step
variable {d : Deployment} {s s' : Sessions}

theorem SameButTokens.get? (h : SameButTokens s s') (sessionId : String) :
    (s.mounts.get? sessionId = none ∧ s'.mounts.get? sessionId = none) ∨
      ∃ mount authToken authToken', s.mounts.get? sessionId = some ⟨mount, authToken⟩ ∧
        s'.mounts.get? sessionId = some ⟨mount, authToken'⟩ := by
  have hmounts := h.mounts sessionId
  cases hs : s.mounts.get? sessionId with
  | none =>
    cases hs' : s'.mounts.get? sessionId with
    | none => exact Or.inl ⟨rfl, rfl⟩
    | some m' => simp [hs, hs'] at hmounts
  | some m =>
    cases hs' : s'.mounts.get? sessionId with
    | none => simp [hs, hs'] at hmounts
    | some m' =>
      simp only [hs, hs', Option.map_some, Option.some.injEq] at hmounts
      refine Or.inr ⟨m.mount, m.authToken, m'.authToken, rfl, ?_⟩
      rw [hmounts]

theorem SameButTokens.set (h : SameButTokens s s') (sessionId : String) (mount : SessionMount)
    (authToken authToken' : Option String) (disk : FileTree) (heads : List String → View) :
    SameButTokens ⟨s.mounts.set sessionId ⟨mount, authToken⟩, disk, heads⟩
      ⟨s'.mounts.set sessionId ⟨mount, authToken'⟩, disk, heads⟩ := by
  refine ⟨fun k => ?_, rfl, rfl⟩
  simp only [OrderedDict.get?_set]
  split_ifs
  · rfl
  · exact h.mounts k

theorem SameButTokens.erase (h : SameButTokens s s') (sessionId : String) (disk : FileTree) :
    SameButTokens ⟨s.mounts.erase sessionId, disk, s.heads⟩ ⟨s'.mounts.erase sessionId, disk, s'.heads⟩ := by
  refine ⟨fun k => ?_, rfl, h.heads⟩
  simp only [OrderedDict.get?_erase]
  split_ifs
  · rfl
  · exact h.mounts k

theorem SameButTokens.onMount (h : SameButTokens s s') (sessionId : String) {f f' : Mounted → Sessions}
    (hf : ∀ mount authToken authToken', SameButTokens (f ⟨mount, authToken⟩) (f' ⟨mount, authToken'⟩)) :
    SameButTokens (s.onMount sessionId f) (s'.onMount sessionId f') := by
  unfold Sessions.onMount
  rcases h.get? sessionId with ⟨hs, hs'⟩ | ⟨mount, authToken, authToken', hs, hs'⟩
  · rw [hs, hs']
    exact h
  · rw [hs, hs']
    exact hf mount authToken authToken'

theorem SameButTokens.perform (h : SameButTokens s s') (r : Request)
    (hr : ∀ call now, r ≠ .mount call now) : SameButTokens (perform d s r) (perform d s' r) := by
  cases r with
  | mount call now => exact absurd rfl (hr call now)
  | file sessionId op =>
    refine h.onMount sessionId fun mount authToken authToken' => ?_
    unfold Sessions.put Mounted.state
    rw [h.disk, h.heads]
    exact h.set sessionId _ _ _ _ _
  | commit sessionId message author =>
    refine h.onMount sessionId fun mount authToken authToken' => ?_
    unfold Sessions.put Mounted.state
    rw [h.disk, h.heads]
    exact h.set sessionId _ _ _ _ _
  | unmount sessionId persist =>
    refine h.onMount sessionId fun mount authToken authToken' => ?_
    rw [h.disk]
    exact h.erase sessionId _

/-! ## A mount -/

/-- What two runs see of a mount: its result, the disk and the heads. -/
def SameOutcome (x y : Except PyError SessionMount × Sessions) : Prop :=
  x.1 = y.1 ∧ x.2.disk = y.2.disk ∧ x.2.heads = y.2.heads

theorem SameButTokens.clone (h : SameButTokens s s') (now : ℕ) (disk : FileTree) (mount : SessionMount)
    {authToken authToken' : Option String}
    (hclone : ∀ directory, d.gitClone (cloneCommand mount.repoUrl mount.branch mount.commitSha mount.localPath)
        (githubToken d.fernet mount.repoUrl authToken) (truthyText mount.commitSha) directory now =
      d.gitClone (cloneCommand mount.repoUrl mount.branch mount.commitSha mount.localPath)
        (githubToken d.fernet mount.repoUrl authToken') (truthyText mount.commitSha) directory now)
    (hurl : ∀ m, (cloneRepository d now { s with disk := disk } mount authToken).1 = .ok m →
      clonedUrl d.fernet mount.repoUrl authToken = mount.repoUrl)
    (hurl' : ∀ m, (cloneRepository d now { s' with disk := disk } mount authToken').1 = .ok m →
      clonedUrl d.fernet mount.repoUrl authToken' = mount.repoUrl) :
    SameOutcome (cloneRepository d now { s with disk := disk } mount authToken)
      (cloneRepository d now { s' with disk := disk } mount authToken') := by
  unfold cloneRepository at hurl hurl' ⊢
  rw [hclone] at hurl ⊢
  cases hgit : d.gitClone (cloneCommand mount.repoUrl mount.branch mount.commitSha mount.localPath)
      (githubToken d.fernet mount.repoUrl authToken') (truthyText mount.commitSha)
      (directoryAt disk mount.localPath) now with
  | error stderr => exact ⟨rfl, rfl, h.heads⟩
  | ok clone =>
    simp only [hgit] at hurl hurl' ⊢
    refine ⟨?_, rfl, congrArg (Function.update · mount.localPath clone.head) h.heads⟩
    cases hindex : indexRepository now clone.listing with
    | error e => rfl
    | ok files =>
      rw [hindex] at hurl hurl'
      simp only [hurl _ rfl, hurl' _ rfl]

theorem SameButTokens.initialize (h : SameButTokens s s') (now : ℕ) {call : MountCall}
    {authToken : Option String} (hclone : SameClone d now call (call.withToken authToken))
    (hurl : ∀ m, (initializeMount d now s (newMount d call) call.authToken).1 = .ok m →
      s.disk.pathExists (statePath d call.sessionId) = false →
      clonedUrl d.fernet call.repoUrl call.authToken = call.repoUrl)
    (hurl' : ∀ m, (initializeMount d now s' (newMount d call) authToken).1 = .ok m →
      s'.disk.pathExists (statePath d call.sessionId) = false →
      clonedUrl d.fernet call.repoUrl authToken = call.repoUrl) :
    SameOutcome (initializeMount d now s (newMount d call) call.authToken)
      (initializeMount d now s' (newMount d call) authToken) := by
  unfold initializeMount at hurl hurl' ⊢
  rw [← h.disk] at hurl' ⊢
  rw [localPath_newMount, stateFile_newMount] at hurl hurl' ⊢
  cases hmake : s.disk.makeDirectory (localPath d call.sessionId call.repoUrl) with
  | error e => exact ⟨rfl, h.disk, h.heads⟩
  | ok disk =>
    have hpath : disk.pathExists (statePath d call.sessionId) =
        s.disk.pathExists (statePath d call.sessionId) := by
      unfold FileTree.pathExists
      rw [makeDirectory_statePath hmake]
    simp only [hmake, hpath] at hurl hurl' ⊢
    by_cases hfile : s.disk.pathExists (statePath d call.sessionId) = true
    · simp only [hfile, if_true]
      exact ⟨rfl, rfl, h.heads⟩
    · rw [if_neg hfile] at hurl hurl' ⊢
      rw [if_neg hfile]
      have hnone : s.disk.pathExists (statePath d call.sessionId) = false := Bool.eq_false_iff.mpr hfile
      obtain ⟨hresult, hdisk, hheads⟩ := h.clone now disk (newMount d call) (fun directory => hclone _ directory)
        (fun m hm => hurl (synced now m) (congrArg (Except.map (synced now)) hm) hnone)
        (fun m hm => hurl' (synced now m) (congrArg (Except.map (synced now)) hm) hnone)
      exact ⟨congrArg (Except.map (synced now)) hresult, hdisk, hheads⟩

/-- **Mounting with another token changes nothing else than the encrypted token in the table.** -/
theorem SameButTokens.mountRepository (h : SameButTokens s s') (now : ℕ) {call : MountCall}
    {authToken : Option String} (hclone : SameClone d now call (call.withToken authToken))
    (hkeep : ∀ m, (mountRepository d now s call).1 = .ok m → currentMount s call = none →
      s.disk.pathExists (statePath d call.sessionId) = false → ¬ TokenInUrl call)
    (hkeep' : ∀ m, (Gvfs.mountRepository d now s' (call.withToken authToken)).1 = .ok m →
      currentMount s' (call.withToken authToken) = none →
      s'.disk.pathExists (statePath d call.sessionId) = false →
      ¬ TokenInUrl (call.withToken authToken)) :
    SameButTokens (Gvfs.mountRepository d now s call).2
      (Gvfs.mountRepository d now s' (call.withToken authToken)).2 ∧
    (Gvfs.mountRepository d now s call).1.map Mounted.mount =
      (Gvfs.mountRepository d now s' (call.withToken authToken)).1.map Mounted.mount := by
  have hcurrent : (∃ m m', currentMount s call = some m ∧
        currentMount s' (call.withToken authToken) = some m' ∧ m.mount = m'.mount) ∨
      (currentMount s call = none ∧ currentMount s' (call.withToken authToken) = none) := by
    rw [show currentMount s' (call.withToken authToken) = currentMount s' call from rfl]
    unfold currentMount
    rcases h.get? call.sessionId with ⟨hs, hs'⟩ | ⟨mount, token, token', hs, hs'⟩
    · exact Or.inr ⟨by rw [hs]; rfl, by rw [hs']; rfl⟩
    · rw [hs, hs']
      by_cases hsame : mount.repoUrl = call.repoUrl ∧ mount.branch = call.branch
      · exact Or.inl ⟨⟨mount, token⟩, ⟨mount, token'⟩, by simp [hsame], by simp [hsame], rfl⟩
      · exact Or.inr ⟨by simpa using hsame, by simpa using hsame⟩
  rcases hcurrent with ⟨m, m', hm, hm', hmount⟩ | ⟨hnone, hnone'⟩
  · rw [mountRepository_of_current hm, mountRepository_of_current hm']
    exact ⟨h, congrArg Except.ok hmount⟩
  · have hurl : ∀ m, (initializeMount d now s (newMount d call) call.authToken).1 = .ok m →
        s.disk.pathExists (statePath d call.sessionId) = false →
        clonedUrl d.fernet call.repoUrl call.authToken = call.repoUrl := fun m hm hfile =>
      (clonedUrl_eq_iff d.fernet call).mpr (hkeep ⟨m, call.authToken⟩
        (by rw [mountRepository_result hnone, hm]; rfl) hnone hfile)
    have hurl' : ∀ m, (initializeMount d now s' (newMount d call) authToken).1 = .ok m →
        s'.disk.pathExists (statePath d call.sessionId) = false →
        clonedUrl d.fernet call.repoUrl authToken = call.repoUrl := fun m hm hfile =>
      (clonedUrl_eq_iff d.fernet (call.withToken authToken)).mpr (hkeep' ⟨m, authToken⟩
        (by rw [mountRepository_result hnone']; exact congrArg (Except.map _) hm) hnone' hfile)
    obtain ⟨hresult, hdisk, hheads⟩ := h.initialize now hclone hurl hurl'
    have hmounts := (initializeMount_frame d now s call).1
    have hmounts' := (initializeMount_frame d now s' (call.withToken authToken)).1
    rw [mountRepository_result hnone, mountRepository_result hnone', mountRepository_state hnone,
      mountRepository_state hnone']
    have hnew : newMount d (call.withToken authToken) = newMount d call := rfl
    have htoken : (call.withToken authToken).authToken = authToken := rfl
    rw [hnew, htoken, ← hresult]
    have hsame : SameButTokens (initializeMount d now s (newMount d call) call.authToken).2
        (initializeMount d now s' (newMount d call) authToken).2 := by
      refine ⟨fun k => ?_, hdisk, hheads⟩
      rw [hmounts, show (initializeMount d now s' (newMount d call) authToken).2.mounts = s'.mounts from hmounts']
      exact h.mounts k
    cases (initializeMount d now s (newMount d call) call.authToken).1 with
    | error e => exact ⟨hsame, rfl⟩
    | ok mount =>
      refine ⟨?_, rfl⟩
      simp only
      rw [hdisk, hheads]
      exact hsame.set call.sessionId mount call.authToken authToken _ _

end Step

/-! ## Runs -/

structure SameView (a a' : Api) : Prop where
  sessions : SameButTokens a.sessions a'.sessions
  responses : a.responses = a'.responses

section Runs
variable {d : Deployment} {a a' : Api}

theorem tokenInUrl_of_call {fernet : Fernet} {entropy : ℕ} {req : MountRequest}
    (h : TokenInUrl (mountCall fernet entropy req)) : req.TokenInUrl := by
  refine ⟨?_, h.2⟩
  have hgiven : (truthyText ((truthyText req.authToken).map (encryptString fernet entropy))).isSome = true := h.1
  cases htoken : truthyText req.authToken with
  | none =>
    rw [htoken] at hgiven
    cases hgiven
  | some token => rfl

/-- **A request with another token gives the same view.** -/
theorem SameView.handle (h : SameView a a') {r r' : ApiRequest} (hr : DifferInToken d r r')
    (hkeep : KeepsToken d a r) (hkeep' : KeepsToken d a' r') :
    SameView (handle d a r) (Gvfs.handle d a' r') := by
  cases hr with
  | mount req authToken entropy entropy' now hclone =>
    obtain ⟨hsessions, hresult⟩ := h.sessions.mountRepository now hclone
      (fun m hm hnone hfile htoken => hkeep m hm hnone hfile (tokenInUrl_of_call htoken))
      (fun m hm hnone hfile htoken => hkeep' m hm hnone hfile (tokenInUrl_of_call htoken))
    refine ⟨hsessions, ?_⟩
    have hresponse : ∀ {x y : Except PyError Mounted}, x.map Mounted.mount = y.map Mounted.mount →
        (x.map fun m => mountResponse req m.mount) =
          y.map fun m => mountResponse { req with authToken := authToken } m.mount := by
      rintro (e | m) (e' | m') hxy
      · exact congrArg Except.error (Except.error.inj hxy)
      · cases hxy
      · cases hxy
      · exact congrArg (fun mount => Except.ok (mountResponse req mount)) (Except.ok.inj hxy)
    exact congrArg₂ (fun before response => before ++ [response]) h.responses (hresponse hresult)
  | file sessionId op =>
    exact ⟨h.sessions.perform (.file sessionId op) (fun _ _ h => nomatch h), h.responses⟩
  | commit sessionId message author =>
    exact ⟨h.sessions.perform (.commit sessionId message author) (fun _ _ h => nomatch h), h.responses⟩
  | unmount sessionId persist =>
    exact ⟨h.sessions.perform (.unmount sessionId persist) (fun _ _ h => nomatch h), h.responses⟩

/-- **Two runs that differ in the tokens of their mounts leave the same files and give the same responses,
when no mount of them writes its token into a GitHub URL.** -/
theorem token_not_shown {s t t' : Sessions} {responses responses' : List (Except PyError MountResponse)}
    {before : List (Except PyError MountResponse)} {rs rs' : List ApiRequest}
    (hrs : List.Forall₂ (DifferInToken d) rs rs') (hok : Guarded (apiStep d) (KeepsToken d) ⟨s, before⟩ rs)
    (hok' : Guarded (apiStep d) (KeepsToken d) ⟨s, before⟩ rs')
    (hrun : exec (apiStep d) ⟨s, before⟩ rs = some ⟨t, responses⟩)
    (hrun' : exec (apiStep d) ⟨s, before⟩ rs' = some ⟨t', responses'⟩) :
    t.disk = t'.disk ∧ responses = responses' := by
  have hview : ∀ {a a' b b' : Api} {rs rs' : List ApiRequest}, SameView a a' →
      List.Forall₂ (DifferInToken d) rs rs' → Guarded (apiStep d) (KeepsToken d) a rs →
      Guarded (apiStep d) (KeepsToken d) a' rs' → exec (apiStep d) a rs = some b →
      exec (apiStep d) a' rs' = some b' → SameView b b' := by
    intro a a' b b' rs rs' hsame hrs hok hok' hrun hrun'
    induction hrs generalizing a a' with
    | nil =>
      cases hrun
      cases hrun'
      exact hsame
    | cons hr hrest ih =>
      exact ih (hsame.handle hr hok.1 hok'.1) (hok.2 _ rfl) (hok'.2 _ rfl) hrun hrun'
  have hstart : SameView ⟨s, before⟩ ⟨s, before⟩ := ⟨⟨fun _ => rfl, rfl, rfl⟩, rfl⟩
  have hend := hview hstart hrs hok hok' hrun hrun'
  exact ⟨hend.sessions.disk, hend.responses⟩

end Runs

/-! ## What a clone from GitHub shows -/

theorem githubPrefixWith_injective {token token' : String}
    (h : githubPrefixWith token = githubPrefixWith token') : token = token' := by
  unfold githubPrefixWith at h
  exact String.toList_inj.mp (List.append_cancel_left (List.append_cancel_right h))

/-- **Two clones from GitHub with different tokens have different URLs.** -/
theorem clonedUrl_shows_token {fernet : Fernet} (hfernet : fernet.RoundTrips) {repoUrl token token' : String}
    (hgithub : githubPrefix <:+: repoUrl.toList) (htoken : token ≠ "") (htoken' : token' ≠ "")
    (hne : token ≠ token') (entropy entropy' : ℕ) :
    clonedUrl fernet repoUrl (encryptedToken fernet entropy (some token)) ≠
      clonedUrl fernet repoUrl (encryptedToken fernet entropy' (some token')) := by
  have hurl : ∀ {token : String} (entropy : ℕ), token ≠ "" →
      clonedUrl fernet repoUrl (encryptedToken fernet entropy (some token)) =
        String.ofList (replaceAll githubPrefix (githubPrefixWith token) repoUrl.toList) := by
    intro token entropy htoken
    have hencrypted : truthyText (encryptedToken fernet entropy (some token)) =
        some (encryptString fernet entropy token) := by
      simp [encryptedToken, truthyText, htoken, encryptString_ne_empty hfernet entropy htoken]
    unfold clonedUrl githubToken
    rw [hencrypted]
    simp only [if_pos (githubPrefix_onGithub hgithub), decryptString_encryptString hfernet]
  rw [hurl entropy htoken, hurl entropy' htoken']
  intro hsame
  have hlists := congrArg String.toList hsame
  rw [String.toList_ofList, String.toList_ofList] at hlists
  exact hne (githubPrefixWith_injective (replaceAll_injective (by decide +kernel) hgithub hlists))

/-- **A mount that clones from GitHub with a token shows it.** -/
theorem mount_shows_token {d : Deployment} (hfernet : d.fernet.RoundTrips) {s : Sessions} {now : ℕ}
    {req : MountRequest} (hgithub : githubPrefix <:+: req.repoUrl.toList) {token token' : String}
    (htoken : token ≠ "") (htoken' : token' ≠ "") (hne : token ≠ token') {entropy entropy' : ℕ} {m m' : Mounted}
    (hm : (mountRepository d now s (mountCall d.fernet entropy { req with authToken := some token })).1 = .ok m)
    (hm' : (mountRepository d now s (mountCall d.fernet entropy' { req with authToken := some token' })).1 =
      .ok m')
    (hnone : currentMount s (mountCall d.fernet entropy { req with authToken := some token }) = none)
    (hfile : s.disk.pathExists (statePath d req.sessionId) = false) :
    (mountResponse { req with authToken := some token } m.mount).repoUrl ≠
      (mountResponse { req with authToken := some token' } m'.mount).repoUrl := by
  have hcloned : ∀ {token : String} {entropy : ℕ} {m : Mounted},
      Mounts d now s (mountCall d.fernet entropy { req with authToken := some token }) m →
      currentMount s (mountCall d.fernet entropy { req with authToken := some token }) = none →
      m.mount.repoUrl = clonedUrl d.fernet req.repoUrl (encryptedToken d.fernet entropy (some token)) := by
    intro token entropy m hmounts hnone
    cases hmounts with
    | current hcurrent => cases hnone.symm.trans hcurrent
    | restored hnone hthere => cases hfile.symm.trans hthere
    | cloned hnone hfile directory clone hclone files hfiles hm =>
      rw [hm]
      rfl
  show m.mount.repoUrl ≠ m'.mount.repoUrl
  rw [hcloned (mountRepository_ok hm) hnone, hcloned (mountRepository_ok hm') hnone]
  exact clonedUrl_shows_token hfernet hgithub htoken htoken' hne entropy entropy'

/-! ## A private note -/

def noApi : Api := ⟨noSessions, []⟩

/-- The note is mounted with a token, rewritten and unmounted. -/
def tokenRun (repoUrl token : String) : List ApiRequest :=
  [.mount ⟨"s1", repoUrl, "main", none, some token⟩ 0 0, .file "s1" (.write "note.txt" byeBytes 0),
   .unmount "s1" true]

theorem tokenRun_differ {d : Deployment} {repoUrl : String} (token token' : String)
    (hclone : SameClone d 0 (mountCall d.fernet 0 ⟨"s1", repoUrl, "main", none, some token⟩)
      (mountCall d.fernet 0 ⟨"s1", repoUrl, "main", none, some token'⟩)) :
    List.Forall₂ (DifferInToken d) (tokenRun repoUrl token) (tokenRun repoUrl token') :=
  .cons (.mount ⟨"s1", repoUrl, "main", none, some token⟩ (some token') 0 0 0 hclone)
    (.cons (.file _ _) (.cons (.unmount _ _) .nil))

theorem tokenRun_keeps {d : Deployment} {a : Api} {repoUrl token : String}
    (hurl : ¬ githubPrefix <:+: repoUrl.toList) :
    Guarded (apiStep d) (KeepsToken d) a (tokenRun repoUrl token) :=
  ⟨fun _ _ _ _ htoken => hurl htoken.2, fun _ _ => ⟨True.intro, fun _ _ => ⟨True.intro, fun _ _ => True.intro⟩⟩⟩

def afterRun (d : Deployment) (repoUrl token : String) : Api := (tokenRun repoUrl token).foldl (handle d) noApi

/-- Away from GitHub the token leaves no trace. -/
theorem note_token_not_shown :
    (afterRun noteDeployment noteUrl "s3cret").sessions.disk = (afterRun noteDeployment noteUrl "other").sessions.disk ∧
      (afterRun noteDeployment noteUrl "s3cret").responses = (afterRun noteDeployment noteUrl "other").responses := by
  have hurl : ¬ githubPrefix <:+: noteUrl.toList := by decide +kernel
  exact token_not_shown (tokenRun_differ "s3cret" "other" fun _ _ => rfl) (tokenRun_keeps hurl)
    (tokenRun_keeps hurl) rfl rfl

def githubUrl : String := "https://github.com/acme/notes"

/-- The note on GitHub, for everyone to read. -/
def githubDeployment : Deployment :=
  { noteDeployment with gitClone := fun cmd _ _ _ _ =>
      if githubUrl ∈ cmd then exampleHost [noteUrl] else exampleHost cmd }

/-- A clone from GitHub gives the token back in its response. -/
theorem github_token_shown : ¬ ∀ (d : Deployment) (s t t' : Sessions)
    (before responses responses' : List (Except PyError MountResponse)) (rs rs' : List ApiRequest),
    List.Forall₂ (DifferInToken d) rs rs' → exec (apiStep d) ⟨s, before⟩ rs = some ⟨t, responses⟩ →
    exec (apiStep d) ⟨s, before⟩ rs' = some ⟨t', responses'⟩ → t.disk = t'.disk ∧ responses = responses' := by
  intro h
  have hsame := (h githubDeployment noSessions _ _ [] _ _
    [.mount ⟨"s1", githubUrl, "main", none, some "ghp_a"⟩ 0 0]
    [.mount ⟨"s1", githubUrl, "main", none, some "ghp_b"⟩ 0 0]
    (.cons (.mount ⟨"s1", githubUrl, "main", none, some "ghp_a"⟩ (some "ghp_b") 0 0 0 fun _ _ => rfl) .nil)
    rfl rfl).2
  have hurls : ∀ token, (token = "ghp_a" ∨ token = "ghp_b") →
      ((handle githubDeployment noApi (.mount ⟨"s1", githubUrl, "main", none, some token⟩ 0 0)).responses.map
        fun r => r.toOption.map MountResponse.repoUrl) =
      [some ("https://" ++ token ++ "@github.com/acme/notes")] := by
    rintro token (rfl | rfl) <;> decide +kernel
  have hshown := congrArg (List.map fun r => r.toOption.map MountResponse.repoUrl) hsame
  exact absurd ((hurls "ghp_a" (Or.inl rfl)).symm.trans (hshown.trans (hurls "ghp_b" (Or.inr rfl)))) (by decide)

end KernelRuntime.Gvfs
