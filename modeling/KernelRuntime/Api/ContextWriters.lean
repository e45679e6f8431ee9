import KernelRuntime.Api.GithubAuth
import KernelRuntime.Foundations.Execution
import KernelRuntime.Foundations.LastWriter

/-! # The writers of the session context

The context of a session is one JSON document. A chat message, a configuration request, the connection to
GitHub and the memory tool each read it, change some keys of their copy and write the copy back. Only the
memory tool locks the row, on Postgres, and the others do not ask for the lock before they read. -/

namespace KernelRuntime.ContextWriters
open SessionConfig GithubAuth
set_option autoImplicit false

/-- `str(v)`, and whether the database locks rows. -/
structure Env where
  rt : SessionConfig.Runtime
  str : Json → String
  isPostgres : Bool

inductive Writer where
  | chat (shadowMode : Bool) (activeModelId : Option String)
  | config (keyEntropy tokenEntropy : ℕ) (req : SessionConfigRequest)
  | connect (tokenEntropy : ℕ) (githubUser : GitHubUser)
  | memory (memoryUpdate action : String)

/-! ## What each of them writes -/

/-- `send_chat_message`. -/
def chatContext (shadowMode : Bool) (activeModelId : Option String) (ctx : Fields) : Fields :=
  let ctx := assocSet "shadow_mode" (.bool shadowMode) ctx
  match activeModelId with
  | some id => if id = "" then ctx else assocSet "active_model_id" (.str id) ctx
  | none => ctx

def memoryText (env : Env) : Json → String
  | .str s => s
  | v => env.str v

/-- `UpdateAgentMemoryTool.execute`. Every action but `"append"` replaces. -/
def memoryContext (env : Env) (memoryUpdate action : String) (ctx : Fields) : Fields :=
  let existing := (ctx.lookup "agent_memory").getD (.str "")
  let updated := if action = "append" ∧ existing.truthy = true then
    memoryText env existing ++ "\n- " ++ memoryUpdate else memoryUpdate
  assocSet "agent_memory" (.str updated) ctx

def Writer.apply (env : Env) : Writer → Fields → Except PyError Fields
  | .chat shadowMode activeModelId, ctx => .ok (chatContext shadowMode activeModelId ctx)
  | .config keyEntropy tokenEntropy req, ctx => updatedContext env.rt keyEntropy tokenEntropy req ctx
  | .connect tokenEntropy githubUser, ctx =>
    .ok (assocSet "github" (.obj (githubUser.entry env.rt.fernet tokenEntropy)) ctx)
  | .memory memoryUpdate action, ctx => .ok (memoryContext env memoryUpdate action ctx)

/-- The token of the request goes into the `github` part. -/
def movesToken (req : SessionConfigRequest) : Bool := decide (req.githubToken.getD "" ≠ "")

/-- The keys that a writer is about. -/
def Writer.concerns : Writer → String → Bool
  | .chat _ activeModelId, k =>
    decide (k = "shadow_mode" ∨ activeModelId.getD "" ≠ "" ∧ k = "active_model_id")
  | .config _ _ req, k =>
    if k = "github" then movesToken req
    else if k = "github_token" then req.githubToken.isSome && !movesToken req
    else (req.dump.lookup k).isSome
  | .connect _ _, k => decide (k = "github")
  | .memory _ _, k => decide (k = "agent_memory")

/-- `stmt.with_for_update()`. -/
def Writer.locks (env : Env) : Writer → Bool
  | .memory _ _ => env.isPostgres
  | _ => false

/-- A memory update without a text is refused before the row is read. -/
def Writer.reads : Writer → Bool
  | .memory memoryUpdate _ => decide (memoryUpdate ≠ "")
  | _ => true

/-! ## Runs -/

/-- A writer that committed, and the context that it wrote. -/
structure Committed where
  writer : Writer
  context : Fields

def Committed.write (c : Committed) : TableWrite String (Option Json) := ⟨c.writer.concerns, fun k => c.context.lookup k⟩

/-- The stored context, what the running writers have read, and who holds the lock of the row. -/
structure State where
  context : Fields
  pending : List (ℕ × (Writer × Fields))
  lockHolder : Option ℕ
  log : List Committed

def State.init (context : Fields) : State := ⟨context, [], none, []⟩

inductive Label where
  | read (i : ℕ) (w : Writer)
  | commit (i : ℕ)
  /-- The writer ends without a commit. -/
  | fail (i : ℕ)

/-- The transaction of the writer is over. -/
def State.release (s : State) (i : ℕ) : State :=
  { s with pending := assocErase i s.pending, lockHolder := if s.lockHolder = some i then none else s.lockHolder }

/-- A locking read waits for the lock, and so does the write of another writer. -/
def step (env : Env) (s : State) : Label → Option State
  | .read i w =>
    if (s.pending.lookup i).isSome ∨ w.reads = false ∨ w.locks env = true ∧ s.lockHolder.isSome then none
    else some { s with
      pending := assocSet i (w, s.context) s.pending
      lockHolder := if w.locks env then some i else s.lockHolder }
  | .commit i =>
    match s.pending.lookup i with
    | none => none
    | some (w, ctx) =>
      if s.lockHolder.isSome ∧ s.lockHolder ≠ some i then none
      else
        match w.apply env ctx with
        | .error _ => some (s.release i)
        | .ok ctx' => some { s.release i with context := ctx', log := s.log ++ [⟨w, ctx'⟩] }
  | .fail i => if (s.pending.lookup i).isSome then some (s.release i) else none

/-! ## What the writers expect of the stored context -/

/-- The texts appended since the last replacement. -/
def appendedTexts (log : List Committed) : List String :=
  log.foldl (fun texts c =>
    match c.writer with
    | .memory memoryUpdate action =>
      if action = "append" then texts ++ [memoryUpdate] else if action = "replace" then [] else texts
    | _ => texts) []

/-- `text in session.context["agent_memory"]`. -/
def Remembers (context : Fields) (text : String) : Prop :=
  ∃ memory, context.lookup "agent_memory" = some (.str memory) ∧ text.toList <:+: memory.toList

/-- Every key has the value of the last writer that is about it, and the memory has every text that was
appended and not replaced since. -/
structure ContextKept (s : State) : Prop where
  keys : LastWriterWins (s.log.map Committed.write) fun k => s.context.lookup k
  memory : ∀ text ∈ appendedTexts s.log, Remembers s.context text

/-- The copy of the writer is still the stored context, up to the keys that it is about; an append finds
the memory that it read. An action of the memory tool that is neither of the two comes before every
append. -/
structure UpToDate (s : State) (w : Writer) (ctx : Fields) : Prop where
  others : ∀ k, w.concerns k = false → ctx.lookup k = s.context.lookup k
  append : ∀ memoryUpdate, w = .memory memoryUpdate "append" →
    ctx.lookup "agent_memory" = s.context.lookup "agent_memory"
  action : ∀ memoryUpdate action, w = .memory memoryUpdate action → action ≠ "append" → action ≠ "replace" →
    appendedTexts s.log = []

def StepOk (s : State) : Label → Prop
  | .commit i => ∀ w ctx, s.pending.lookup i = some (w, ctx) → UpToDate s w ctx
  | _ => True

/-! ## One commit -/

section Commit
variable {env : Env} {w : Writer} {ctx ctx' : Fields}

theorem moveToken_stays {rt : SessionConfig.Runtime} {entropy : ℕ} {patch : Fields}
    (h : patch.lookup "github_token" = none ∨ patch.lookup "github_token" = some (.str "")) :
    moveToken rt entropy ctx patch = .ok (ctx, patch) := by
  unfold moveToken
  rcases h with h | h
  · rw [h]
  · rw [h]
    rfl

theorem moveToken_erases {rt : SessionConfig.Runtime} {entropy : ℕ} {patch : Fields} {token : String}
    {moved : Fields × Fields} (h : patch.lookup "github_token" = some (.str token)) (hne : token ≠ "")
    (hmoved : moveToken rt entropy ctx patch = .ok moved) : moved.2.lookup "github_token" = none := by
  unfold moveToken at hmoved
  rw [h] at hmoved
  simp only [if_neg hne] at hmoved
  obtain ⟨github, _, hmoved⟩ := bind_eq_ok_iff.mp hmoved
  obtain rfl := Except.ok.inj hmoved
  rw [lookup_assocErase, if_pos rfl]

section Configuration
variable {keyEntropy tokenEntropy : ℕ} {req : SessionConfigRequest}

/-- The patch as it reaches `moveToken`. -/
theorem lookup_patch_githubToken : (encryptKey env.rt keyEntropy req.dump).lookup "github_token" =
    req.githubToken.map .str := by
  rw [lookup_encryptKey_ne _ _ _ (by decide), lookup_dump]
  rfl

theorem moveToken_of_not_movesToken (h : movesToken req = false) :
    moveToken env.rt tokenEntropy ctx (encryptKey env.rt keyEntropy req.dump) =
      .ok (ctx, encryptKey env.rt keyEntropy req.dump) := by
  refine moveToken_stays ?_
  rw [lookup_patch_githubToken]
  cases htoken : req.githubToken with
  | none => exact Or.inl rfl
  | some token =>
    have hempty : token = "" := by simpa [movesToken, htoken] using h
    exact Or.inr (by rw [hempty]; rfl)

theorem lookup_github_updatedContext (h : updatedContext env.rt keyEntropy tokenEntropy req ctx = .ok ctx')
    (hmoves : movesToken req = false) : ctx'.lookup "github" = ctx.lookup "github" := by
  obtain ⟨moved, hmoved, hupdate⟩ := bind_eq_ok_iff.mp h
  obtain rfl := Except.ok.inj hupdate
  rw [moveToken_of_not_movesToken hmoves] at hmoved
  obtain rfl := Except.ok.inj hmoved
  have hnone : (encryptKey env.rt keyEntropy req.dump).lookup "github" = none := by
    rw [lookup_encryptKey_ne _ _ _ (by decide), lookup_dump]
    rfl
  rw [lookup_update _ (nodup_encryptKey env.rt keyEntropy req), hnone, Option.none_or]

/-- An empty token stays in the patch; any other moves, or was not there. -/
theorem lookup_githubToken_updatedContext (h : updatedContext env.rt keyEntropy tokenEntropy req ctx = .ok ctx')
    (hempty : (req.githubToken.isSome && !movesToken req) = false) :
    ctx'.lookup "github_token" = ctx.lookup "github_token" := by
  obtain ⟨moved, hmoved, hupdate⟩ := bind_eq_ok_iff.mp h
  obtain rfl := Except.ok.inj hupdate
  have hspec := moveToken_moved hmoved (nodup_encryptKey env.rt keyEntropy req)
  have hgiven : (encryptKey env.rt keyEntropy req.dump).lookup "github_token" = req.githubToken.map .str :=
    lookup_patch_githubToken
  have hnone : moved.2.lookup "github_token" = none := by
    cases hreq : req.githubToken with
    | none =>
      rw [hreq] at hgiven
      rw [moveToken_stays (Or.inl hgiven)] at hmoved
      exact Except.ok.inj hmoved ▸ hgiven
    | some token =>
      have hne : token ≠ "" := by simpa [movesToken, hreq] using hempty
      rw [hreq] at hgiven
      exact moveToken_erases hgiven hne hmoved
  rw [lookup_update _ hspec.nodup, hnone, Option.none_or, hspec.context _ (by decide)]

theorem lookup_encryptKey_eq_none {k : String} (h : req.dump.lookup k = none) :
    (encryptKey env.rt keyEntropy req.dump).lookup k = none := by
  by_cases hkey : k = "api_key"
  · subst hkey
    have hapi : req.apiKey = none := by
      rw [lookup_dump] at h
      simpa using h
    rw [encryptKey_eq, hapi]
    exact h
  · rw [lookup_encryptKey_ne _ _ _ hkey]
    exact h

/-- A configuration request leaves the keys alone that it is not about. -/
theorem lookup_updatedContext_other (h : updatedContext env.rt keyEntropy tokenEntropy req ctx = .ok ctx')
    {k : String} (hk : (Writer.config keyEntropy tokenEntropy req).concerns k = false) :
    ctx'.lookup k = ctx.lookup k := by
  simp only [Writer.concerns] at hk
  by_cases hgithub : k = "github"
  · subst hgithub
    rw [if_pos rfl] at hk
    exact lookup_github_updatedContext h hk
  · rw [if_neg hgithub] at hk
    by_cases htoken : k = "github_token"
    · subst htoken
      rw [if_pos rfl] at hk
      exact lookup_githubToken_updatedContext h hk
    · rw [if_neg htoken] at hk
      have hdump : req.dump.lookup k = none := by simpa using hk
      rw [lookup_updatedContext h hgithub htoken, lookup_encryptKey_eq_none hdump, Option.none_or]

end Configuration

/-- **A writer puts back, at the keys that it is not about, what it read there.** -/
theorem lookup_apply (h : w.apply env ctx = .ok ctx') {k : String} (hk : w.concerns k = false) :
    ctx'.lookup k = ctx.lookup k := by
  cases w with
  | chat shadowMode activeModelId =>
    obtain rfl := Except.ok.inj h
    have hboth : ¬ (k = "shadow_mode" ∨ activeModelId.getD "" ≠ "" ∧ k = "active_model_id") := by
      simpa only [Writer.concerns, decide_eq_false_iff_not] using hk
    rw [not_or] at hboth
    unfold chatContext
    cases activeModelId with
    | none => rw [lookup_assocSet, if_neg hboth.1]
    | some id =>
      simp only
      split_ifs with hid
      · rw [lookup_assocSet, if_neg hboth.1]
      · rw [lookup_assocSet, if_neg fun hmodel => hboth.2 ⟨hid, hmodel⟩, lookup_assocSet, if_neg hboth.1]
  | config keyEntropy tokenEntropy req => exact lookup_updatedContext_other h hk
  | connect tokenEntropy githubUser =>
    obtain rfl := Except.ok.inj h
    rw [lookup_assocSet, if_neg (by simpa only [Writer.concerns, decide_eq_false_iff_not] using hk)]
  | memory memoryUpdate action =>
    obtain rfl := Except.ok.inj h
    unfold memoryContext
    rw [lookup_assocSet, if_neg (by simpa only [Writer.concerns, decide_eq_false_iff_not] using hk)]

/-- What an append makes of the memory that it read. -/
theorem remembers_memoryContext (memoryUpdate action : String) :
    Remembers (memoryContext env memoryUpdate action ctx) memoryUpdate := by
  unfold memoryContext Remembers
  simp only [lookup_assocSet, if_true]
  split_ifs with happend
  · refine ⟨_, rfl, ?_⟩
    rw [String.toList_append]
    exact (List.suffix_append _ _).isInfix
  · exact ⟨_, rfl, List.infix_rfl⟩

theorem remembers_append {text : String} (memoryUpdate : String) (h : Remembers ctx text) :
    Remembers (memoryContext env memoryUpdate "append" ctx) text := by
  obtain ⟨memory, hmemory, htext⟩ := h
  unfold memoryContext Remembers
  simp only [lookup_assocSet, if_true, hmemory, Option.getD_some, true_and]
  refine ⟨_, rfl, ?_⟩
  by_cases hempty : memory = ""
  · have hnil : text.toList = [] := by
      rw [hempty] at htext
      exact List.eq_nil_of_infix_nil htext
    rw [hnil]
    exact List.nil_infix
  · have htruthy : (Json.str memory).truthy = true := by simpa [Json.truthy] using hempty
    rw [if_pos htruthy, String.toList_append, String.toList_append]
    exact htext.trans ((List.prefix_append _ _).isInfix.trans (List.prefix_append _ _).isInfix)

theorem remembers_congr {text : String} (h : ctx'.lookup "agent_memory" = ctx.lookup "agent_memory")
    (hctx : Remembers ctx text) : Remembers ctx' text := by
  obtain ⟨memory, hmemory, htext⟩ := hctx
  exact ⟨memory, h.trans hmemory, htext⟩

theorem appendedTexts_concat (log : List Committed) (c : Committed) :
    appendedTexts (log ++ [c]) = match c.writer with
      | .memory memoryUpdate action =>
        if action = "append" then appendedTexts log ++ [memoryUpdate]
        else if action = "replace" then [] else appendedTexts log
      | _ => appendedTexts log := by
  unfold appendedTexts
  rw [List.foldl_append, List.foldl_cons, List.foldl_nil]

/-- **A commit of an up-to-date copy keeps the keys of the other writers and the appended texts.** -/
theorem ContextKept.commit {s s' : State} (hs : ContextKept s) (hfresh : UpToDate s w ctx)
    (h : w.apply env ctx = .ok ctx') (hcontext : s'.context = ctx') (hlog : s'.log = s.log ++ [⟨w, ctx'⟩]) :
    ContextKept s' := by
  have hother : ∀ k, w.concerns k = false → ctx'.lookup k = s.context.lookup k :=
    fun k hk => (lookup_apply h hk).trans (hfresh.others k hk)
  constructor
  · rw [hlog, hcontext, List.map_append]
    exact hs.keys.concat (w := Committed.write ⟨w, ctx'⟩) hother
  · rw [hlog, hcontext, appendedTexts_concat]
    cases w with
    | memory memoryUpdate action =>
      obtain rfl := Except.ok.inj h
      simp only
      by_cases happend : action = "append"
      · subst happend
        rw [if_pos rfl]
        intro text htext
        rcases List.mem_append.mp htext with hold | hnew
        · exact remembers_append _ (remembers_congr (hfresh.append _ rfl) (hs.memory text hold))
        · rw [List.mem_singleton.mp hnew]
          exact remembers_memoryContext _ _
      · rw [if_neg happend]
        by_cases hreplace : action = "replace"
        · rw [if_pos hreplace]
          exact fun text htext => absurd htext List.not_mem_nil
        · rw [if_neg hreplace, hfresh.action _ _ rfl happend hreplace]
          exact fun text htext => absurd htext List.not_mem_nil
    | chat _ _ =>
      exact fun text htext => remembers_congr (hother _ (by simp [Writer.concerns])) (hs.memory text htext)
    | config _ _ req =>
      have hk : (req.dump.lookup "agent_memory").isSome = false := by
        rw [lookup_dump]
        rfl
      exact fun text htext => remembers_congr (hother _ hk) (hs.memory text htext)
    | connect _ _ => exact fun text htext => remembers_congr (hother _ rfl) (hs.memory text htext)

end Commit

/-! ## Runs -/

section Runs
variable {env : Env} {s s' : State}

/-- A step stores nothing, or it is the commit of a writer. -/
theorem step_cases {i : Label} (h : step env s i = some s') :
    s'.context = s.context ∧ s'.log = s.log ∨ ∃ j w ctx ctx', i = .commit j ∧
      s.pending.lookup j = some (w, ctx) ∧ w.apply env ctx = .ok ctx' ∧
        s' = { s.release j with context := ctx', log := s.log ++ [⟨w, ctx'⟩] } := by
  cases i with
  | read i w =>
    simp only [step] at h
    by_cases hwaits : (s.pending.lookup i).isSome ∨ w.reads = false ∨ w.locks env = true ∧ s.lockHolder.isSome
    · rw [if_pos hwaits] at h
      cases h
    · rw [if_neg hwaits] at h
      obtain rfl := Option.some.inj h
      exact Or.inl ⟨rfl, rfl⟩
  | fail i =>
    simp only [step] at h
    split_ifs at h
    obtain rfl := Option.some.inj h
    exact Or.inl ⟨rfl, rfl⟩
  | commit i =>
    simp only [step] at h
    split at h
    next => cases h
    next w ctx hpending =>
      split_ifs at h
      split at h
      next => exact Or.inl (by obtain rfl := Option.some.inj h; exact ⟨rfl, rfl⟩)
      next ctx' happly =>
        exact Or.inr ⟨i, w, ctx, ctx', rfl, hpending, happly, (Option.some.inj h).symm⟩

theorem ContextKept.step {i : Label} (hs : ContextKept s) (hok : StepOk s i) (h : step env s i = some s') :
    ContextKept s' := by
  rcases step_cases h with ⟨hcontext, hlog⟩ | ⟨j, w, ctx, ctx', rfl, hpending, happly, rfl⟩
  · exact ⟨by rw [hcontext, hlog]; exact hs.keys, by rw [hcontext, hlog]; exact hs.memory⟩
  · exact hs.commit (hok w ctx hpending) happly rfl rfl

theorem ContextKept.init (ctx : Fields) : ContextKept (State.init ctx) :=
  ⟨LastWriterWins.nil _, fun _ htext => absurd htext List.not_mem_nil⟩

/-- **When every writer commits an up-to-date copy, no key and no appended text is lost.** -/
theorem context_kept_of_guarded (env : Env) {ctx : Fields} {is : List Label}
    (hok : Guarded (ContextWriters.step env) StepOk (State.init ctx) is)
    (hrun : exec (ContextWriters.step env) (State.init ctx) is = some s) : ContextKept s :=
  exec_invariant (fun _ _ _ hs hok h => ContextKept.step hs hok h)
    (ContextKept.init ctx) hok hrun

/-- The condition on the keys cannot be dropped: a stale value of a key that somebody wrote is put back. -/
theorem not_kept_of_stale (hs : ContextKept s) {j : ℕ} {w : Writer} {ctx ctx' : Fields} {k : String}
    (hpending : s.pending.lookup j = some (w, ctx)) (hlock : s.lockHolder = none ∨ s.lockHolder = some j)
    (happly : w.apply env ctx = .ok ctx') (hk : w.concerns k = false)
    (hwritten : (lastValue (s.log.map Committed.write) k).isSome) (hstale : ctx.lookup k ≠ s.context.lookup k) :
    ∃ s', ContextWriters.step env s (.commit j) = some s' ∧ ¬ ContextKept s' := by
  refine ⟨{ s.release j with context := ctx', log := s.log ++ [⟨w, ctx'⟩] }, ?_, fun hkept => ?_⟩
  · have hfree : ¬ (s.lockHolder.isSome = true ∧ s.lockHolder ≠ some j) := by
      rcases hlock with hnone | hown
      · simp [hnone]
      · simp [hown]
    simp only [ContextWriters.step, hpending, if_neg hfree, happly]
  · have hkeys := hkept.keys
    rw [List.map_append] at hkeys
    refine hs.keys.not_concat (w := Committed.write ⟨w, ctx'⟩) hk hwritten ?_ hkeys
    rw [show (Committed.write ⟨w, ctx'⟩).table k = ctx'.lookup k from rfl, lookup_apply happly hk]
    exact hstale

end Runs

/-! ## Memory updates alone -/

/-- Only the memory tool writes, with one of its two actions. -/
def MemoryOnly (_ : State) : Label → Prop
  | .read _ w => ∃ memoryUpdate action, w = .memory memoryUpdate action ∧ (action = "append" ∨ action = "replace")
  | _ => True

/-- The one writer that has read holds the lock, and its copy is the stored context. -/
def Locked (s : State) : Prop :=
  ∀ i w ctx, s.pending.lookup i = some (w, ctx) → s.lockHolder = some i ∧ ctx = s.context ∧
    ∃ memoryUpdate action, w = .memory memoryUpdate action ∧ (action = "append" ∨ action = "replace")

section Locks
variable {env : Env} {s s' : State}

/-- Once the holder is through, nobody else has read. -/
theorem Locked.release_pending (hs : Locked s) {i : ℕ} (hi : (s.pending.lookup i).isSome) (j : ℕ) :
    (s.release i).pending.lookup j = none := by
  obtain ⟨⟨w, ctx⟩, hpending⟩ := Option.isSome_iff_exists.mp hi
  have hholder := (hs i w ctx hpending).1
  show (assocErase i s.pending).lookup j = none
  rw [lookup_assocErase]
  split_ifs with hj
  · rfl
  · cases hother : s.pending.lookup j with
    | none => rfl
    | some entry =>
      have hsame := (hs j entry.1 entry.2 hother).1
      rw [hholder] at hsame
      exact absurd (Option.some.inj hsame).symm hj

theorem Locked.step (hpostgres : env.isPostgres = true) {i : Label} (hs : Locked s) (hok : MemoryOnly s i)
    (h : ContextWriters.step env s i = some s') : Locked s' := by
  cases i with
  | read i w =>
    obtain ⟨memoryUpdate, action, rfl, haction⟩ := hok
    simp only [ContextWriters.step, Writer.locks, hpostgres, if_true] at h
    split_ifs at h with hwaits
    obtain rfl := Option.some.inj h
    simp only [not_or, not_and, Bool.not_eq_true] at hwaits
    have hfree := hwaits.2.2 trivial
    intro j w ctx hj
    simp only [lookup_assocSet] at hj
    split_ifs at hj with hji
    · obtain ⟨rfl, rfl⟩ := Prod.mk.inj (Option.some.inj hj)
      exact ⟨by rw [hji], rfl, memoryUpdate, action, rfl, haction⟩
    · rw [(hs j w ctx hj).1] at hfree
      cases hfree
  | fail i =>
    simp only [ContextWriters.step] at h
    split_ifs at h with hi
    obtain rfl := Option.some.inj h
    intro j w ctx hj
    rw [hs.release_pending hi] at hj
    cases hj
  | commit i =>
    have hi : (s.pending.lookup i).isSome := by
      simp only [ContextWriters.step] at h
      split at h
      next => cases h
      next hpending => rw [hpending]; rfl
    have hpending : s'.pending = (s.release i).pending := by
      simp only [ContextWriters.step] at h
      split at h
      next => cases h
      next =>
        split_ifs at h
        split at h
        next => exact Option.some.inj h ▸ rfl
        next => exact Option.some.inj h ▸ rfl
    intro j w ctx hj
    rw [hpending, hs.release_pending hi] at hj
    cases hj

/-- **Among themselves the memory updates keep one another's texts, where the database locks rows.** -/
theorem guarded_of_memoryOnly (hpostgres : env.isPostgres = true) {ctx : Fields} {is : List Label}
    (h : Guarded (ContextWriters.step env) MemoryOnly (State.init ctx) is) :
    Guarded (ContextWriters.step env) StepOk (State.init ctx) is := by
  refine h.imp_of_invariant (fun _ _ _ hs hok h => Locked.step hpostgres hs hok h) (fun s i hs _ => ?_) ?_
  · cases i with
    | commit i =>
      intro w ctx hpending
      obtain ⟨_, rfl, memoryUpdate, action, rfl, haction⟩ := hs i w ctx hpending
      refine ⟨fun _ _ => rfl, fun _ _ => rfl, fun _ action' heq happend hreplace => ?_⟩
      obtain ⟨_, rfl⟩ := Writer.memory.inj heq
      exact absurd haction (not_or.mpr ⟨happend, hreplace⟩)
    | read _ _ => trivial
    | fail _ => trivial
  · intro i w ctx hpending
    cases hpending

end Locks

/-! ## A chat message during a memory update -/

def plainEnv : Env := ⟨plainRuntime, fun _ => "", true⟩

def deployNote : Writer := .memory "Deploys run on Fridays." "append"

/-- The message is accepted before the note is stored. -/
def chatDuringUpdate : List Label :=
  [.read 1 (.chat false none), .read 2 deployNote, .commit 2, .commit 1]

/-- The two writers one after the other. -/
def chatAfterUpdate : List Label :=
  [.read 2 deployNote, .commit 2, .read 1 (.chat false none), .commit 1]

theorem deployNote_stored : Remembers
    [("agent_memory", .str "Deploys run on Fridays."), ("shadow_mode", .bool false)] "Deploys run on Fridays." := by
  have hguarded : Guarded (step plainEnv) StepOk (State.init []) chatAfterUpdate := by
    refine ⟨trivial, fun s₁ h₁ => ?_⟩
    obtain rfl := Option.some.inj h₁
    refine ⟨?_, fun s₂ h₂ => ?_⟩
    · rintro w ctx hpending
      obtain ⟨rfl, rfl⟩ := Prod.mk.inj (Option.some.inj hpending)
      refine ⟨fun _ _ => rfl, fun _ _ => rfl, fun _ _ heq happend _ => ?_⟩
      exact absurd (Writer.memory.inj heq).2.symm happend
    · obtain rfl := Option.some.inj h₂
      refine ⟨trivial, fun s₃ h₃ => ?_⟩
      obtain rfl := Option.some.inj h₃
      refine ⟨?_, fun _ _ => trivial⟩
      rintro w ctx hpending
      obtain ⟨rfl, rfl⟩ := Prod.mk.inj (Option.some.inj hpending)
      exact ⟨fun _ _ => rfl, (fun _ heq => nomatch heq), (fun _ _ heq => nomatch heq)⟩
  exact (context_kept_of_guarded plainEnv hguarded rfl).memory _ (List.mem_singleton_self _)

/-- The chat message puts back the context without the note. -/
theorem note_lost : ¬ ∀ (env : Env) (ctx : Fields) (is : List Label) (s : State),
    exec (step env) (State.init ctx) is = some s → s.pending = [] → ContextKept s := by
  intro h
  have hkept := h plainEnv [] chatDuringUpdate _ rfl rfl
  obtain ⟨memory, hmemory, _⟩ := hkept.memory "Deploys run on Fridays." (List.mem_singleton_self _)
  cases hmemory

end KernelRuntime.ContextWriters
