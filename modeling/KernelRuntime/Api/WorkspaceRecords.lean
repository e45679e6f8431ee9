import KernelRuntime.Api.WorkspaceRoots

/-! # The records of the workspaces of a tenant

`get_or_create_workspace` looks a workspace up by its slug, and takes what it finds. Bindings with one slug share a
record, whatever else they say. -/

namespace KernelRuntime.WorkspaceRecords
open WorkspaceRoots
open Workspaces (makeSlug)
set_option autoImplicit false

/-- A row of the table of workspaces. -/
structure WorkspaceModel where
  id : ℕ
  tenantId : String
  slug : String
  name : String
  type : String
  path : Option String
  url : Option String
  branch : String
deriving DecidableEq

/-- A binding, and the record that was returned for it. -/
structure Resolution where
  tenantId : String
  binding : WorkspaceBinding
  record : WorkspaceModel
deriving DecidableEq

/-- `rows` is the table as the running request sees it, and `saved` what is committed of it. An identifier is given
once, also when its row is not committed. -/
structure State where
  rows : List WorkspaceModel
  saved : List WorkspaceModel
  nextId : ℕ
  resolutions : List Resolution
deriving DecidableEq

def State.init : State := ⟨[], [], 0, []⟩

/-- The row of `prepare_workspaces` for a binding. -/
def dataOf (m : Machine) (tenantId : String) (ws : WorkspaceBinding) (hex : String) : WorkspaceRow :=
  rowOf ws (makeSlug m.lower ws.toWorkspaceBinding hex)
    (wsRoot m tenantId (makeSlug m.lower ws.toWorkspaceBinding hex))

def modelOf (id : ℕ) (tenantId : String) (data : WorkspaceRow) : WorkspaceModel :=
  ⟨id, tenantId, data.slug, data.name, data.type, data.path, data.url, data.branch⟩

/-- `get_or_create_workspace`. There is at most one row for a slug of a tenant. -/
def getOrCreateWorkspace (s : State) (tenantId : String) (data : WorkspaceRow) : WorkspaceModel × State :=
  match s.rows.find? fun w => decide (w.tenantId = tenantId ∧ w.slug = data.slug) with
  | some workspace => (workspace, s)
  | none =>
    (modelOf s.nextId tenantId data,
      { s with rows := s.rows ++ [modelOf s.nextId tenantId data], nextId := s.nextId + 1 })

/-! ## Requests -/

/-- How a request ends: it is committed, or it raises after some of its bindings were resolved. -/
inductive Ending where
  | committed
  | raised (resolved : ℕ)
deriving DecidableEq

/-- A request, with the hex texts of fresh identifiers for its bindings. -/
inductive Request where
  | createSession (tenantId : String) (workspaces : List (WorkspaceBinding × String)) (hex : String) (ending : Ending)
  | addWorkspace (tenantId : String) (workspace : WorkspaceBinding) (hex : String) (ending : Ending)

/-- What a request does to the table. -/
inductive Label where
  | resolve (tenantId : String) (ws : WorkspaceBinding) (hex : String)
  | commit
  | rollback

def labelsOf (tenantId : String) (bindings : List (WorkspaceBinding × String)) : Ending → List Label
  | .committed => (bindings.map fun ws => .resolve tenantId ws.1 ws.2) ++ [.commit]
  | .raised resolved => ((bindings.take resolved).map fun ws => .resolve tenantId ws.1 ws.2) ++ [.rollback]

/-- `create_session` and `add_workspace`. -/
def Request.labels : Request → List Label
  | .createSession tenantId workspaces hex ending => labelsOf tenantId (bindingsOf workspaces hex) ending
  | .addWorkspace tenantId workspace hex ending => labelsOf tenantId [(workspace, hex)] ending

def step (m : Machine) (s : State) : Label → Option State
  | .resolve tenantId ws hex =>
    let found := getOrCreateWorkspace s tenantId (dataOf m tenantId ws hex)
    some { found.2 with resolutions := s.resolutions ++ [⟨tenantId, ws, found.1⟩] }
  | .commit => some { s with saved := s.rows }
  | .rollback => some { s with rows := s.saved }

/-! ## Records and their bindings -/

/-- The bindings agree in all that the claim of a record rests on. -/
structure Agree (a b : WorkspaceBinding) : Prop where
  type : a.type = b.type
  url : a.url = b.url
  branch : a.branch = b.branch

/-- Every record is that of its binding, and bindings of a tenant that do not agree have different ones. -/
structure Faithful (resolutions : List Resolution) : Prop where
  git : ∀ r ∈ resolutions, r.binding.type = "git" → r.record.url = r.binding.url ∧ r.record.branch = r.binding.branch
  folder : ∀ r ∈ resolutions, r.binding.type = "local" → r.record.type = "local"
  apart : ∀ r ∈ resolutions, ∀ r' ∈ resolutions, r.tenantId = r'.tenantId → r.record.id = r'.record.id →
    Agree r.binding r'.binding

/-- A binding agrees with every binding that was resolved to a record which is in the table under its slug. -/
def StepOk (m : Machine) (s : State) : Label → Prop
  | .resolve tenantId ws hex => ∀ r ∈ s.resolutions, r.tenantId = tenantId → r.record ∈ s.rows →
      r.record.slug = makeSlug m.lower ws.toWorkspaceBinding hex → Agree ws r.binding
  | _ => True

/-- The record was made for the binding. -/
structure MadeFor (r : Resolution) : Prop where
  type : r.record.type = r.binding.type
  url : r.record.url = if r.binding.type = "git" then r.binding.url else none
  branch : r.record.branch = r.binding.branch

/-- A table has one row for a slug of a tenant, and every row of it was made for some binding. -/
structure TableOk (resolutions : List Resolution) (rows : List WorkspaceModel) : Prop where
  unique : ∀ w ∈ rows, ∀ w' ∈ rows, w.tenantId = w'.tenantId → w.slug = w'.slug → w = w'
  made : ∀ w ∈ rows, ∃ r ∈ resolutions, r.record = w ∧ MadeFor r

structure Inv (s : State) : Prop where
  rows : TableOk s.resolutions s.rows
  saved : TableOk s.resolutions s.saved
  tenants : ∀ r ∈ s.resolutions, r.record.tenantId = r.tenantId
  fresh : ∀ r ∈ s.resolutions, r.record.id < s.nextId
  ids : ∀ r ∈ s.resolutions, ∀ r' ∈ s.resolutions, r.record.id = r'.record.id → r.record = r'.record

theorem TableOk.nil (resolutions : List Resolution) : TableOk resolutions [] where
  unique _ h := absurd h List.not_mem_nil
  made _ h := absurd h List.not_mem_nil

theorem Inv.init : Inv State.init where
  rows := TableOk.nil []
  saved := TableOk.nil []
  tenants _ h := absurd h List.not_mem_nil
  fresh _ h := absurd h List.not_mem_nil
  ids _ h := absurd h List.not_mem_nil

/-- A binding is resolved to the row of its slug, or to a new one where there is none. -/
theorem getOrCreate_cases (s : State) (tenantId : String) (data : WorkspaceRow) :
    (∃ w ∈ s.rows, w.tenantId = tenantId ∧ w.slug = data.slug ∧ getOrCreateWorkspace s tenantId data = (w, s)) ∨
      (∀ w ∈ s.rows, ¬ (w.tenantId = tenantId ∧ w.slug = data.slug)) ∧
        getOrCreateWorkspace s tenantId data = (modelOf s.nextId tenantId data,
          { s with rows := s.rows ++ [modelOf s.nextId tenantId data], nextId := s.nextId + 1 }) := by
  unfold getOrCreateWorkspace
  cases hfind : s.rows.find? fun w => decide (w.tenantId = tenantId ∧ w.slug = data.slug) with
  | some w =>
    have hkey := List.find?_some hfind
    rw [decide_eq_true_eq] at hkey
    exact Or.inl ⟨w, List.mem_of_find?_eq_some hfind, hkey.1, hkey.2, rfl⟩
  | none =>
    refine Or.inr ⟨fun w hw hkey => ?_, rfl⟩
    exact absurd (List.find?_eq_none.mp hfind w hw) (by simp [hkey])

theorem mem_or_eq {α : Type} {l : List α} {a b : α} (h : b ∈ l ++ [a]) : b ∈ l ∨ b = a :=
  (List.mem_append.mp h).imp id List.mem_singleton.mp

theorem TableOk.mono {resolutions resolutions' : List Resolution} {rows : List WorkspaceModel}
    (h : TableOk resolutions rows) (hsub : ∀ r ∈ resolutions, r ∈ resolutions') : TableOk resolutions' rows :=
  ⟨h.unique, fun w hw => (h.made w hw).imp fun r hr => ⟨hsub r hr.1, hr.2⟩⟩

theorem madeFor_modelOf (m : Machine) (id : ℕ) (tenantId : String) (ws : WorkspaceBinding) (hex : String) :
    MadeFor ⟨tenantId, ws, modelOf id tenantId (dataOf m tenantId ws hex)⟩ := ⟨rfl, rfl, rfl⟩

theorem Inv.found {s : State} (h : Inv s) {tenantId : String} (ws : WorkspaceBinding) {w : WorkspaceModel}
    (hw : w ∈ s.rows) (htenant : w.tenantId = tenantId) :
    Inv { s with resolutions := s.resolutions ++ [⟨tenantId, ws, w⟩] } := by
  have hsub : ∀ r ∈ s.resolutions, r ∈ s.resolutions ++ [⟨tenantId, ws, w⟩] := fun r => List.mem_append_left _
  obtain ⟨r₀, hr₀, hrecord, _⟩ := h.rows.made w hw
  have hknown : ∀ r ∈ s.resolutions ++ [⟨tenantId, ws, w⟩], ∃ r' ∈ s.resolutions, r'.record = r.record := by
    intro r hr
    rcases mem_or_eq hr with hr | rfl
    · exact ⟨r, hr, rfl⟩
    · exact ⟨r₀, hr₀, hrecord⟩
  refine ⟨h.rows.mono hsub, h.saved.mono hsub, fun r hr => ?_, fun r hr => ?_, fun r hr r' hr' hid => ?_⟩
  · rcases mem_or_eq hr with hr | rfl
    · exact h.tenants r hr
    · exact htenant
  · obtain ⟨r', hr', hsame⟩ := hknown r hr
    rw [← hsame]
    exact h.fresh r' hr'
  · obtain ⟨a, ha, hsame⟩ := hknown r hr
    obtain ⟨b, hb, hsame'⟩ := hknown r' hr'
    rw [← hsame, ← hsame']
    exact h.ids a ha b hb (by rw [hsame, hsame', hid])

theorem Inv.created {s : State} (h : Inv s) {tenantId : String} {ws : WorkspaceBinding} {w : WorkspaceModel}
    (htenant : w.tenantId = tenantId) (hid : w.id = s.nextId) (hmade : MadeFor ⟨tenantId, ws, w⟩)
    (hnone : ∀ w' ∈ s.rows, ¬ (w'.tenantId = tenantId ∧ w'.slug = w.slug)) :
    Inv ⟨s.rows ++ [w], s.saved, s.nextId + 1, s.resolutions ++ [⟨tenantId, ws, w⟩]⟩ := by
  have hsub : ∀ r ∈ s.resolutions, r ∈ s.resolutions ++ [⟨tenantId, ws, w⟩] := fun r => List.mem_append_left _
  refine ⟨⟨fun a ha b hb ht hs => ?_, fun a ha => ?_⟩, h.saved.mono hsub, fun r hr => ?_, fun r hr => ?_,
    fun r hr r' hr' heq => ?_⟩
  · rcases mem_or_eq ha with hold | rfl
    · rcases mem_or_eq hb with hold' | rfl
      · exact h.rows.unique a hold b hold' ht hs
      · exact absurd ⟨ht.trans htenant, hs⟩ (hnone a hold)
    · rcases mem_or_eq hb with hold' | rfl
      · exact absurd ⟨ht.symm.trans htenant, hs.symm⟩ (hnone b hold')
      · rfl
  · rcases mem_or_eq ha with ha | rfl
    · exact (h.rows.mono hsub).made a ha
    · exact ⟨_, List.mem_append_right _ (List.mem_singleton_self _), rfl, hmade⟩
  · rcases mem_or_eq hr with hr | rfl
    · exact h.tenants r hr
    · exact htenant
  · rcases mem_or_eq hr with hr | rfl
    · exact Nat.lt_succ_of_lt (h.fresh r hr)
    · exact hid ▸ Nat.lt_succ_self _
  · rcases mem_or_eq hr with hr | rfl
    · rcases mem_or_eq hr' with hr' | rfl
      · exact h.ids r hr r' hr' heq
      · exact absurd (heq.trans hid) (Nat.ne_of_lt (h.fresh r hr))
    · rcases mem_or_eq hr' with hr' | rfl
      · exact absurd (heq.symm.trans hid) (Nat.ne_of_lt (h.fresh r' hr'))
      · rfl

theorem Inv.step {m : Machine} {s s' : State} {i : Label} (h : Inv s) (hstep : step m s i = some s') : Inv s' := by
  cases i with
  | commit =>
    cases hstep
    exact ⟨h.rows, h.rows, h.tenants, h.fresh, h.ids⟩
  | rollback =>
    cases hstep
    exact ⟨h.saved, h.saved, h.tenants, h.fresh, h.ids⟩
  | resolve tenantId ws hex =>
    unfold WorkspaceRecords.step at hstep
    simp only [Option.some.injEq] at hstep
    subst hstep
    rcases getOrCreate_cases s tenantId (dataOf m tenantId ws hex) with
      ⟨w, hw, htenant, _, hfound⟩ | ⟨hnone, hnew⟩
    · rw [hfound]
      exact h.found ws hw htenant
    · rw [hnew]
      exact h.created rfl rfl (madeFor_modelOf m s.nextId tenantId ws hex) hnone

/-! ## Steps -/

theorem Faithful.nil : Faithful [] where
  git _ h := absurd h List.not_mem_nil
  folder _ h := absurd h List.not_mem_nil
  apart _ h := absurd h List.not_mem_nil

theorem Agree.symm {a b : WorkspaceBinding} (h : Agree a b) : Agree b a := ⟨h.type.symm, h.url.symm, h.branch.symm⟩

/-- A resolution that agrees with those of its record before it. -/
theorem Faithful.concat {resolutions : List Resolution} {r : Resolution} (h : Faithful resolutions)
    (hrecord : ∃ b, Agree r.binding b ∧ MadeFor ⟨r.tenantId, b, r.record⟩)
    (hagree : ∀ r' ∈ resolutions, r'.tenantId = r.tenantId → r'.record.id = r.record.id →
      Agree r.binding r'.binding) : Faithful (resolutions ++ [r]) := by
  obtain ⟨b, hb, hmade⟩ := hrecord
  refine ⟨fun r' hr' hgit => ?_, fun r' hr' hlocal => ?_, fun r₁ hr₁ r₂ hr₂ htenant hid => ?_⟩
  · rcases mem_or_eq hr' with hr' | rfl
    · exact h.git r' hr' hgit
    · have hurl := hmade.url
      rw [if_pos (hb.type.symm.trans hgit)] at hurl
      exact ⟨hurl.trans hb.url.symm, hmade.branch.trans hb.branch.symm⟩
  · rcases mem_or_eq hr' with hr' | rfl
    · exact h.folder r' hr' hlocal
    · exact hmade.type.trans (hb.type.symm.trans hlocal)
  · rcases mem_or_eq hr₁ with hold | rfl
    · rcases mem_or_eq hr₂ with hold' | rfl
      · exact h.apart r₁ hold r₂ hold' htenant hid
      · exact (hagree r₁ hold htenant hid).symm
    · rcases mem_or_eq hr₂ with hold' | rfl
      · exact hagree r₂ hold' htenant.symm hid.symm
      · exact ⟨rfl, rfl, rfl⟩

theorem faithful_step {m : Machine} {s s' : State} {i : Label} (h : Inv s) (hfaithful : Faithful s.resolutions)
    (hok : StepOk m s i) (hstep : step m s i = some s') : Faithful s'.resolutions := by
  cases i with
  | commit =>
    cases hstep
    exact hfaithful
  | rollback =>
    cases hstep
    exact hfaithful
  | resolve tenantId ws hex =>
    cases hstep
    rcases getOrCreate_cases s tenantId (dataOf m tenantId ws hex) with
      ⟨w, hw, htenant, hslug, hfound⟩ | ⟨_, hnew⟩
    · rw [hfound]
      obtain ⟨r₀, hr₀, rfl, hmade⟩ := h.rows.made w hw
      have hagree : ∀ r ∈ s.resolutions, r.tenantId = tenantId → r.record.id = r₀.record.id →
          Agree ws r.binding := by
        intro r hr ht hid
        have hsame : r.record = r₀.record := h.ids r hr r₀ hr₀ hid
        exact hok r hr ht (hsame ▸ hw) (hsame ▸ hslug)
      have hfirst := hagree r₀ hr₀ ((h.tenants r₀ hr₀).symm.trans htenant) rfl
      exact hfaithful.concat ⟨r₀.binding, hfirst, hmade.type, hmade.url, hmade.branch⟩ hagree
    · rw [hnew]
      refine hfaithful.concat ⟨ws, ⟨rfl, rfl, rfl⟩, madeFor_modelOf m s.nextId tenantId ws hex⟩ ?_
      exact fun r hr _ hid => absurd hid (Nat.ne_of_lt (h.fresh r hr))

/-- A binding that does not agree takes the record all the same. -/
theorem not_faithful_step {m : Machine} {s : State} {i : Label} (h : Inv s) (hok : ¬ StepOk m s i) :
    ∃ s', step m s i = some s' ∧ ¬ Faithful s'.resolutions := by
  cases i with
  | commit => exact absurd True.intro hok
  | rollback => exact absurd True.intro hok
  | resolve tenantId ws hex =>
    refine ⟨_, rfl, fun hfaithful => hok fun r hr htenant hrow hslug => ?_⟩
    have hkey : r.record.tenantId = tenantId := (h.tenants r hr).trans htenant
    rcases getOrCreate_cases s tenantId (dataOf m tenantId ws hex) with
      ⟨w, hw, hwtenant, hwslug, hfound⟩ | ⟨hnone, _⟩
    · obtain rfl := h.rows.unique w hw r.record hrow (hwtenant.trans hkey.symm) (hwslug.trans hslug.symm)
      rw [hfound] at hfaithful
      exact hfaithful.apart _ (List.mem_append_right _ (List.mem_singleton_self _)) r (List.mem_append_left _ hr)
        htenant.symm rfl
    · exact absurd ⟨hkey, hslug⟩ (hnone r.record hrow)

/-! ## Runs -/

/-- The records of a sequence of requests are those of their bindings exactly when no binding meets, under its slug,
a record of bindings that it does not agree with. -/
theorem faithful_iff_guarded (m : Machine) (requests : List Request) :
    (∀ js ks t, requests.flatMap Request.labels = js ++ ks → exec (step m) State.init js = some t →
      Faithful t.resolutions) ↔ Guarded (step m) (StepOk m) State.init (requests.flatMap Request.labels) :=
  always_iff_guarded (fun _ _ _ h hstep => h.step hstep)
    (fun _ _ _ h hfaithful hok hstep => faithful_step h hfaithful hok hstep)
    (fun _ _ h _ hok => not_faithful_step h hok) Inv.init Faithful.nil _

/-- A tenant binds a repository, and later another one of the same name. -/
def twoRepositories : List Request :=
  [.createSession "acme" [(⟨⟨"git", none, some "https://github.com/acme/app", none⟩, "main"⟩, "0123456789")]
    "0123456789" .committed,
   .createSession "acme" [(⟨⟨"git", none, some "https://github.com/other/app", none⟩, "main"⟩, "1123456789")]
    "1123456789" .committed]

/-- The second session gets the first repository. -/
theorem second_repository_replaced : ¬ ∀ js ks t, twoRepositories.flatMap Request.labels = js ++ ks →
    exec (step openMachine) State.init js = some t → Faithful t.resolutions := by
  intro h
  have hurls : (exec (step openMachine) State.init (twoRepositories.flatMap Request.labels)).map (fun t =>
      t.resolutions.map fun r => (r.binding.type, r.binding.url, r.record.url)) =
        some [("git", some "https://github.com/acme/app", some "https://github.com/acme/app"),
          ("git", some "https://github.com/other/app", some "https://github.com/acme/app")] := by decide +kernel
  obtain ⟨t, hrun, hlog⟩ := Option.map_eq_some_iff.mp hurls
  obtain ⟨r, hr, hsame⟩ := List.mem_map.mp (hlog ▸ List.mem_cons_of_mem _ (List.mem_singleton_self _))
  simp only [Prod.mk.injEq] at hsame
  obtain ⟨hgit, hurl, hrecord⟩ := hsame
  have hfaithful := ((h _ [] t (List.append_nil _).symm hrun).git r hr hgit).1
  rw [hurl, hrecord] at hfaithful
  exact absurd hfaithful (by decide)

end KernelRuntime.WorkspaceRecords
