import KernelRuntime.Foundations.AsyncLock
import KernelRuntime.Foundations.Execution
import KernelRuntime.Mcp.Manager

/-! # One call at a time on a stdio server

`ToolExecutionRouter.execute_tool` on stdio adapters: the lock of the multiplexer is found by a part of the tool's
name. Tasks interleave at the `await` of the lock and at those of the tool. -/

namespace KernelRuntime.Multiplexer
open Mcp (adapterName)
set_option autoImplicit false

/-! ## The name of the lock -/

/-- `tool_.name.split("_")[1]`, for the name of an MCP tool. -/
def resourceName (toolName : String) : Option String :=
  if "mcp_".toList.isPrefixOf toolName.toList then some (String.ofList ((toolName.toList.splitOn '_').getD 1 []))
  else none

/-- The lock that the router takes, if any: an empty name is none. -/
def lockName (toolName : String) : Option String := (resourceName toolName).filter (· ≠ "")

def firstPart (serverName : String) : String := String.ofList ((serverName.toList.splitOn '_').headD [])

theorem resourceName_adapterName (serverName toolName : String) :
    resourceName (adapterName serverName toolName) = some (firstPart serverName) := by
  have hchars : (adapterName serverName toolName).toList =
      "mcp".toList ++ '_' :: (serverName.toList ++ '_' :: toolName.toList) := by
    simp [adapterName]
  have hprefix : "mcp_".toList.isPrefixOf (adapterName serverName toolName).toList = true := by
    rw [List.isPrefixOf_iff_prefix, hchars]
    exact ⟨serverName.toList ++ '_' :: toolName.toList, by simp⟩
  unfold resourceName firstPart
  rw [if_pos hprefix, hchars, List.splitOn_append_cons_self, List.splitOn_append_cons_self]
  have hmcp : "mcp".toList.splitOn '_' = ["mcp".toList] := by decide
  rw [hmcp]
  cases hparts : serverName.toList.splitOn '_' with
  | nil => exact absurd hparts (List.splitOn_ne_nil _ _)
  | cons part parts => rfl

/-- The name begins with an underscore, or there is none. -/
def NoLock (serverName : String) : Prop := ∀ c ∈ serverName.toList.head?, c = '_'

instance (serverName : String) : Decidable (NoLock serverName) := inferInstanceAs (Decidable (∀ c ∈ _, _))

theorem firstPart_eq_empty_iff (serverName : String) : firstPart serverName = "" ↔ NoLock serverName := by
  unfold firstPart NoLock
  rw [String.ofList_eq_empty_iff]
  cases serverName.toList with
  | nil => simp
  | cons c cs =>
    rw [List.splitOn_cons_eq_if_modifyHead]
    by_cases hc : c = '_'
    · simp [hc]
    · cases hparts : cs.splitOn '_' with
      | nil => exact absurd hparts (List.splitOn_ne_nil _ _)
      | cons part parts => simp [hc]

theorem lockName_adapterName (serverName toolName : String) :
    lockName (adapterName serverName toolName) = if NoLock serverName then none else some (firstPart serverName) := by
  unfold lockName
  rw [resourceName_adapterName]
  by_cases hnone : NoLock serverName
  · simp [hnone, (firstPart_eq_empty_iff serverName).mpr hnone]
  · have hne : firstPart serverName ≠ "" := fun hempty => hnone ((firstPart_eq_empty_iff serverName).mp hempty)
    simp [hnone, hne]

/-! ## Runs -/

/-- Where a call is. One that waits may have been cancelled. -/
inductive Phase where
  | queued (cancelled : Bool)
  | executing
deriving DecidableEq

structure Call where
  serverName : String
  toolName : String
  phase : Phase
deriving DecidableEq

def Call.resource (c : Call) : Option String := lockName (adapterName c.serverName c.toolName)

/-- The table of the multiplexer, and the calls that have not ended. -/
structure State where
  locks : OrderedDict String (AsyncLock ℕ)
  calls : OrderedDict ℕ Call

def State.init : State := ⟨.empty, .empty⟩

/-- `_get_lock`. A lock that is missing is made when it is written. -/
def getLock (locks : OrderedDict String (AsyncLock ℕ)) (resource : String) : AsyncLock ℕ :=
  (locks.get? resource).getD AsyncLock.new

/-- `ResourceMultiplexer.release`. -/
def release (locks : OrderedDict String (AsyncLock ℕ)) (resource : String) : OrderedDict String (AsyncLock ℕ) :=
  let lock := getLock locks resource
  locks.set resource (if lock.locked then lock.release else lock)

inductive Label where
  /-- `execute_tool` up to its first `await`. -/
  | start (id : ℕ) (serverName toolName : String)
  | cancel (id : ℕ)
  /-- A call that waited runs again. -/
  | resume (id : ℕ)
  /-- The tool returns, raises or is cancelled. -/
  | ends (id : ℕ)

def start (s : State) (id : ℕ) (c : Call) : State :=
  match c.resource with
  | none => { s with calls := s.calls.set id { c with phase := .executing } }
  | some resource =>
    let (lock, acquired) := (getLock s.locks resource).acquire id
    ⟨s.locks.set resource lock, s.calls.set id { c with phase := if acquired then .executing else .queued false }⟩

def cancel (s : State) (id : ℕ) (c : Call) : Option State :=
  match c.phase, c.resource with
  | .queued _, some resource =>
    some ⟨s.locks.set resource ((getLock s.locks resource).cancel id), s.calls.set id { c with phase := .queued true }⟩
  | _, _ => none

def resume (s : State) (id : ℕ) (c : Call) : Option State :=
  match c.phase, c.resource with
  | .queued cancelled, some resource =>
    let lock := getLock s.locks resource
    match lock.waiters.lookup id with
    | some .resolved =>
      if cancelled then some ⟨s.locks.set resource (lock.leave id), s.calls.erase id⟩
      else some ⟨s.locks.set resource (lock.awaken id), s.calls.set id { c with phase := .executing }⟩
    | some .cancelled => some ⟨s.locks.set resource (lock.leave id), s.calls.erase id⟩
    | _ => none
  | _, _ => none

def ends (s : State) (id : ℕ) (c : Call) : Option State :=
  match c.phase, c.resource with
  | .executing, none => some { s with calls := s.calls.erase id }
  | .executing, some resource => some ⟨release s.locks resource, s.calls.erase id⟩
  | _, _ => none

def step (s : State) : Label → Option State
  | .start id serverName toolName =>
    if (s.calls.get? id).isNone then some (start s id ⟨serverName, toolName, .queued false⟩) else none
  | .cancel id => (s.calls.get? id).bind (cancel s id)
  | .resume id => (s.calls.get? id).bind (resume s id)
  | .ends id => (s.calls.get? id).bind (ends s id)

/-- Two calls on servers of one name are not executed at once, and without calls every lock is free. -/
structure Exclusive (s : State) : Prop where
  apart : ∀ id₁ id₂ c₁ c₂, s.calls.get? id₁ = some c₁ → s.calls.get? id₂ = some c₂ → c₁.phase = .executing →
    c₂.phase = .executing → c₁.serverName = c₂.serverName → id₁ = id₂
  free : (∀ id, s.calls.get? id = none) → ∀ resource lock, s.locks.get? resource = some lock → lock.locked = false

/-- A call on a server without a lock starts only when no other call on a server of that name is executed. -/
def StartOk (s : State) : Label → Prop
  | .start id serverName _ => s.calls.get? id = none → NoLock serverName →
      ∀ e ∈ s.calls.entries, e.2.phase = .executing → e.2.serverName ≠ serverName
  | _ => True

/-! ## The locks guard the calls -/

def locked (s : State) (resource : String) : Bool := (getLock s.locks resource).locked

def Holds (s : State) (id : ℕ) (resource : String) : Prop :=
  ∃ c, s.calls.get? id = some c ∧ c.phase = .executing ∧ c.resource = some resource

structure Inv (s : State) : Prop where
  awake : ∀ resource, (getLock s.locks resource).OneAwake
  guards : Guards (locked s) (Holds s)

variable {s s' : State} {id : ℕ} {c : Call}

theorem getLock_set (locks : OrderedDict String (AsyncLock ℕ)) (resource resource' : String) (lock : AsyncLock ℕ) :
    getLock (locks.set resource lock) resource' = if resource' = resource then lock else getLock locks resource' := by
  unfold getLock
  rw [OrderedDict.get?_set]
  split_ifs <;> rfl

theorem awake_set (h : Inv s) {resource : String} {lock : AsyncLock ℕ} (hlock : lock.OneAwake) (resource' : String) :
    (getLock (s.locks.set resource lock) resource').OneAwake := by
  rw [getLock_set]
  split_ifs
  · exact hlock
  · exact h.awake resource'

theorem holds_set {locks : OrderedDict String (AsyncLock ℕ)} {c' : Call} {id' : ℕ} {resource : String} :
    Holds ⟨locks, s.calls.set id c'⟩ id' resource ↔
      if id' = id then c'.phase = .executing ∧ c'.resource = some resource else Holds s id' resource := by
  unfold Holds
  simp only [OrderedDict.get?_set]
  split_ifs <;> simp

theorem holds_erase {locks : OrderedDict String (AsyncLock ℕ)} {id' : ℕ} {resource : String} :
    Holds ⟨locks, s.calls.erase id⟩ id' resource ↔ Holds s id' resource ∧ id' ≠ id := by
  unfold Holds
  simp only [OrderedDict.get?_erase]
  split_ifs with hid <;> simp [hid]

/-- A call that holds nothing before and after, and a lock that stays as locked as it was. -/
theorem Inv.aside (h : Inv s) {locks : OrderedDict String (AsyncLock ℕ)} {calls : OrderedDict ℕ Call}
    (hawake : ∀ resource, (getLock locks resource).OneAwake)
    (hlocked : ∀ resource, (getLock locks resource).locked = locked s resource)
    (hholds : ∀ id' resource, Holds ⟨locks, calls⟩ id' resource ↔ Holds s id' resource) : Inv ⟨locks, calls⟩ :=
  ⟨hawake, h.guards.congr hlocked hholds⟩

theorem Inv.init : Inv State.init where
  awake _ := AsyncLock.OneAwake.new
  guards := ⟨fun _ _ ⟨_, hc, _⟩ => (nomatch hc), fun _ _ _ ⟨_, hc, _⟩ => (nomatch hc), nofun⟩

theorem not_holds_of_new (hnew : s.calls.get? id = none) (resource : String) : ¬ Holds s id resource := by
  rintro ⟨c, hc, _⟩
  rw [hnew] at hc
  cases hc

theorem not_holds_of_call (hc : s.calls.get? id = some c) (hnot : c.phase ≠ .executing ∨ c.resource = none)
    (resource : String) : ¬ Holds s id resource := by
  rintro ⟨c', hc', hphase, hresource⟩
  obtain rfl := Option.some.inj (hc.symm.trans hc')
  rcases hnot with hqueued | hnone
  · exact hqueued hphase
  · rw [hnone] at hresource
    cases hresource

theorem holds_set_aside {locks : OrderedDict String (AsyncLock ℕ)} {c' : Call}
    (hbefore : ∀ resource, ¬ Holds s id resource) (hafter : c'.phase ≠ .executing ∨ c'.resource = none) (id' : ℕ)
    (resource : String) : Holds ⟨locks, s.calls.set id c'⟩ id' resource ↔ Holds s id' resource := by
  rw [holds_set]
  split_ifs with hid
  · subst hid
    refine ⟨fun hnow => ?_, fun hold => absurd hold (hbefore resource)⟩
    rcases hafter with hqueued | hnone
    · exact absurd hnow.1 hqueued
    · rw [hnone] at hnow
      cases hnow.2
  · rfl

theorem holds_erase_aside {locks : OrderedDict String (AsyncLock ℕ)} (hbefore : ∀ resource, ¬ Holds s id resource)
    (id' : ℕ) (resource : String) : Holds ⟨locks, s.calls.erase id⟩ id' resource ↔ Holds s id' resource := by
  rw [holds_erase]
  refine ⟨And.left, fun hold => ⟨hold, ?_⟩⟩
  rintro rfl
  exact hbefore resource hold

theorem holds_grant {locks : OrderedDict String (AsyncLock ℕ)} {c' : Call} {resource : String}
    (hbefore : ∀ resource, ¬ Holds s id resource) (hphase : c'.phase = .executing) (hresource : c'.resource = some resource)
    (id' : ℕ) (resource' : String) :
    Holds ⟨locks, s.calls.set id c'⟩ id' resource' ↔ Holds s id' resource' ∨ id' = id ∧ resource' = resource := by
  rw [holds_set]
  split_ifs with hid
  · subst hid
    simp [hphase, hresource, hbefore, eq_comm]
  · simp [hid]

theorem locked_set (locks : OrderedDict String (AsyncLock ℕ)) (resource resource' : String) (lock : AsyncLock ℕ) :
    (getLock (locks.set resource lock) resource').locked =
      if resource' = resource then lock.locked else (getLock locks resource').locked := by
  rw [getLock_set]
  split_ifs <;> rfl

theorem locked_set_same {resource : String} {lock : AsyncLock ℕ}
    (hsame : lock.locked = (getLock s.locks resource).locked) (resource' : String) :
    (getLock (s.locks.set resource lock) resource').locked = locked s resource' := by
  rw [locked_set]
  split_ifs with hr
  · rw [hr]
    exact hsame
  · rfl

theorem resource_phase (c : Call) (phase : Phase) : Call.resource { c with phase := phase } = c.resource := rfl

/-- What a step can do: a call executes without a lock, gets one, waits for one or leaves its queue, and ends without
one or gives it back. -/
inductive Moves (s : State) : Label → State → Prop
  | unlocked {id : ℕ} {serverName toolName : String} (hnew : s.calls.get? id = none)
      (hnone : Call.resource ⟨serverName, toolName, .executing⟩ = none) :
      Moves s (.start id serverName toolName) { s with calls := s.calls.set id ⟨serverName, toolName, .executing⟩ }
  | granted {i : Label} {id : ℕ} {c : Call} {resource : String} {lock : AsyncLock ℕ}
      (hbefore : ∀ resource, ¬ Holds s id resource) (hresource : c.resource = some resource)
      (hfree : (getLock s.locks resource).locked = false) (hlocked : lock.locked = true) (hawake : lock.OneAwake) :
      Moves s i ⟨s.locks.set resource lock, s.calls.set id { c with phase := .executing }⟩
  | waits {i : Label} {id : ℕ} {c : Call} {resource : String} {lock : AsyncLock ℕ} (cancelled : Bool)
      (hbefore : ∀ resource, ¬ Holds s id resource) (hsame : lock.locked = (getLock s.locks resource).locked)
      (hawake : lock.OneAwake) :
      Moves s i ⟨s.locks.set resource lock, s.calls.set id { c with phase := .queued cancelled }⟩
  | leaves {i : Label} {id : ℕ} {resource : String} (hbefore : ∀ resource, ¬ Holds s id resource) :
      Moves s i ⟨s.locks.set resource ((getLock s.locks resource).leave id), s.calls.erase id⟩
  | endsUnlocked {i : Label} {id : ℕ} (hbefore : ∀ resource, ¬ Holds s id resource) :
      Moves s i { s with calls := s.calls.erase id }
  | released {i : Label} {id : ℕ} {c : Call} {resource : String} (hc : s.calls.get? id = some c) (hphase : c.phase = .executing)
      (hresource : c.resource = some resource) :
      Moves s i ⟨release s.locks resource, s.calls.erase id⟩

theorem moves_start (h : Inv s) (hnew : s.calls.get? id = none) (serverName toolName : String) :
    Moves s (.start id serverName toolName) (start s id ⟨serverName, toolName, .queued false⟩) := by
  have hbefore := not_holds_of_new hnew
  unfold start
  cases hresource : Call.resource ⟨serverName, toolName, .queued false⟩ with
  | none => exact .unlocked hnew hresource
  | some resource =>
    have hawake := (h.awake resource).acquire id
    simp only
    rcases AsyncLock.acquire_cases (getLock s.locks resource) id with ⟨hacquired, hfree, hlocked⟩ | ⟨hqueued, hsame⟩
    · simp only [hacquired, if_true]
      exact .granted hbefore hresource hfree hlocked hawake
    · simp only [hqueued, Bool.false_eq_true, if_false]
      exact @Moves.waits s _ id ⟨serverName, toolName, .executing⟩ resource _ false hbefore hsame hawake

theorem moves_cancel (h : Inv s) (hc : s.calls.get? id = some c) (hstep : cancel s id c = some s') :
    Moves s (.cancel id) s' := by
  unfold cancel at hstep
  split at hstep
  next cancelled resource hphase hresource =>
    obtain rfl := Option.some.inj hstep
    have hbefore := not_holds_of_call hc (Or.inl (by rw [hphase]; nofun))
    exact .waits true hbefore rfl ((h.awake resource).cancel id)
  next => cases hstep

theorem moves_resume (h : Inv s) (hc : s.calls.get? id = some c) (hstep : resume s id c = some s') :
    Moves s (.resume id) s' := by
  unfold resume at hstep
  split at hstep
  next cancelled resource hphase hresource =>
    have hbefore := not_holds_of_call hc (Or.inl (by rw [hphase]; nofun))
    simp only at hstep
    split at hstep
    next hresolved =>
      split_ifs at hstep
      · obtain rfl := Option.some.inj hstep
        exact .leaves hbefore
      · obtain rfl := Option.some.inj hstep
        have hmem : (id, Future.resolved) ∈ (getLock s.locks resource).waiters := by
          obtain ⟨before, after, hwaiters, _⟩ := List.lookup_eq_some_iff.mp hresolved
          simp [hwaiters]
        exact .granted hbefore hresource ((h.awake resource).not_locked hmem) rfl ((h.awake resource).awaken hmem)
    next =>
      obtain rfl := Option.some.inj hstep
      exact .leaves hbefore
    next => cases hstep
  next => cases hstep

theorem moves_ends (hc : s.calls.get? id = some c) (hstep : ends s id c = some s') : Moves s (.ends id) s' := by
  unfold ends at hstep
  split at hstep
  next hphase hresource =>
    obtain rfl := Option.some.inj hstep
    exact .endsUnlocked (not_holds_of_call hc (Or.inr hresource))
  next resource hphase hresource =>
    obtain rfl := Option.some.inj hstep
    exact .released hc hphase hresource
  next => cases hstep

theorem step_cases {i : Label} (h : Inv s) (hstep : step s i = some s') : Moves s i s' := by
  cases i with
  | start id serverName toolName =>
    simp only [step] at hstep
    split_ifs at hstep with hnew
    obtain rfl := Option.some.inj hstep
    exact moves_start h (Option.isNone_iff_eq_none.mp hnew) serverName toolName
  | cancel id =>
    obtain ⟨c, hc, hstep⟩ := Option.bind_eq_some_iff.mp hstep
    exact moves_cancel h hc hstep
  | resume id =>
    obtain ⟨c, hc, hstep⟩ := Option.bind_eq_some_iff.mp hstep
    exact moves_resume h hc hstep
  | ends id =>
    obtain ⟨c, hc, hstep⟩ := Option.bind_eq_some_iff.mp hstep
    exact moves_ends hc hstep

theorem Inv.released (h : Inv s) {resource : String} (hc : s.calls.get? id = some c) (hphase : c.phase = .executing)
    (hresource : c.resource = some resource) : Inv ⟨release s.locks resource, s.calls.erase id⟩ := by
  have hheld : Holds s id resource := ⟨c, hc, hphase, hresource⟩
  have hlocked : (getLock s.locks resource).locked = true := h.guards.held id resource hheld
  have hrelease : release s.locks resource = s.locks.set resource (getLock s.locks resource).release := by
    unfold Multiplexer.release
    simp only [if_pos hlocked]
  rw [hrelease]
  refine ⟨awake_set h (h.awake resource).release, h.guards.release hheld ?_ (fun resource' => ?_) fun _ _ => holds_erase⟩
  · rintro resource' ⟨c', hc', _, hresource'⟩
    obtain rfl := Option.some.inj (hc.symm.trans hc')
    exact Option.some.inj (hresource'.symm.trans hresource)
  · rw [locked, locked_set, AsyncLock.locked_release]
    rfl

theorem Inv.step {i : Label} (h : Inv s) (hstep : step s i = some s') : Inv s' := by
  cases step_cases h hstep with
  | unlocked hnew hnone =>
    exact h.aside h.awake (fun _ => rfl) (holds_set_aside (not_holds_of_new hnew) (Or.inr hnone))
  | @granted _ _ _ resource lock hbefore hresource hfree hlocked hawake =>
    refine ⟨awake_set h hawake, h.guards.grant hfree (fun resource' => ?_) (holds_grant hbefore rfl hresource)⟩
    rw [locked, locked_set, hlocked]
    rfl
  | waits cancelled hbefore hsame hawake =>
    exact h.aside (awake_set h hawake) (locked_set_same hsame) (holds_set_aside hbefore (Or.inl nofun))
  | @leaves _ id resource hbefore =>
    exact h.aside (awake_set h ((h.awake resource).leave id)) (locked_set_same (AsyncLock.locked_leave _ _))
      (holds_erase_aside hbefore)
  | endsUnlocked hbefore => exact h.aside h.awake (fun _ => rfl) (holds_erase_aside hbefore)
  | released hc hphase hresource => exact h.released hc hphase hresource

/-! ## Calls without a lock -/

theorem resource_eq_none_iff : c.resource = none ↔ NoLock c.serverName := by
  unfold Call.resource
  rw [lockName_adapterName]
  split_ifs with hnone <;> simp [hnone]

theorem get?_eq_some_iff (calls : OrderedDict ℕ Call) (id : ℕ) (c : Call) :
    calls.get? id = some c ↔ (id, c) ∈ calls.entries := lookup_eq_some_iff calls.nodup id c

/-- A call that is executed without a lock was executed before the step, or it starts in it. -/
theorem executing_of_step {i : Label} (h : Inv s) (hstep : step s i = some s') {id' : ℕ} {c' : Call}
    (hc' : s'.calls.get? id' = some c') (hphase : c'.phase = .executing) (hresource : c'.resource = none) :
    s.calls.get? id' = some c' ∨ ∃ toolName, i = .start id' c'.serverName toolName ∧ s.calls.get? id' = none := by
  cases step_cases h hstep with
  | @unlocked id serverName toolName hnew =>
    rw [OrderedDict.get?_set] at hc'
    split_ifs at hc' with hid
    · obtain rfl := Option.some.inj hc'
      exact Or.inr ⟨toolName, by rw [hid], hid ▸ hnew⟩
    · exact Or.inl hc'
  | granted _ hsome =>
    rw [OrderedDict.get?_set] at hc'
    split_ifs at hc' with hid
    · obtain rfl := Option.some.inj hc'
      rw [resource_phase, hsome] at hresource
      cases hresource
    · exact Or.inl hc'
  | waits =>
    rw [OrderedDict.get?_set] at hc'
    split_ifs at hc' with hid
    · obtain rfl := Option.some.inj hc'
      cases hphase
    · exact Or.inl hc'
  | leaves => exact Or.inl (OrderedDict.get?_of_get?_erase hc')
  | endsUnlocked => exact Or.inl (OrderedDict.get?_of_get?_erase hc')
  | released => exact Or.inl (OrderedDict.get?_of_get?_erase hc')

theorem Inv.free (h : Inv s) (hended : ∀ id, s.calls.get? id = none) (resource : String) (lock : AsyncLock ℕ)
    (hlock : s.locks.get? resource = some lock) : lock.locked = false := by
  by_contra hlocked
  have hlocked' : locked s resource = true := by
    unfold locked getLock
    rw [hlock]
    simpa using hlocked
  obtain ⟨id, hid⟩ := h.guards.holder resource hlocked'
  exact not_holds_of_new (hended id) resource hid

theorem StartOk.apart {serverName toolName : String} (h : StartOk s (.start id serverName toolName))
    (hnew : s.calls.get? id = none) (hnone : NoLock serverName) {id' : ℕ} {c' : Call}
    (hc' : s.calls.get? id' = some c') (hphase : c'.phase = .executing) : c'.serverName ≠ serverName :=
  h hnew hnone (id', c') ((get?_eq_some_iff _ _ _).mp hc') hphase

theorem Exclusive.step {i : Label} (hinv : Inv s) (h : Exclusive s) (hok : StartOk s i) (hstep : step s i = some s') :
    Exclusive s' := by
  have hinv' := hinv.step hstep
  refine ⟨fun id₁ id₂ c₁ c₂ h₁ h₂ hphase₁ hphase₂ hsame => ?_, hinv'.free⟩
  cases hresource : c₁.resource with
  | some resource =>
    have hresource₂ : c₂.resource = some resource := by
      rw [← hresource]
      unfold Call.resource
      rw [lockName_adapterName, lockName_adapterName, hsame]
    exact hinv'.guards.single id₁ id₂ resource ⟨c₁, h₁, hphase₁, hresource⟩ ⟨c₂, h₂, hphase₂, hresource₂⟩
  | none =>
    have hnone₁ := resource_eq_none_iff.mp hresource
    have hresource₂ : c₂.resource = none := resource_eq_none_iff.mpr (hsame ▸ hnone₁)
    rcases executing_of_step hinv hstep h₁ hphase₁ hresource with hold₁ | ⟨tool₁, rfl, hnew₁⟩
    · rcases executing_of_step hinv hstep h₂ hphase₂ hresource₂ with hold₂ | ⟨tool₂, rfl, hnew₂⟩
      · exact h.apart id₁ id₂ c₁ c₂ hold₁ hold₂ hphase₁ hphase₂ hsame
      · exact absurd hsame (hok.apart hnew₂ (resource_eq_none_iff.mp hresource₂) hold₁ hphase₁)
    · rcases executing_of_step hinv hstep h₂ hphase₂ hresource₂ with hold₂ | ⟨tool₂, hi, _⟩
      · exact absurd hsame.symm (hok.apart hnew₁ hnone₁ hold₂ hphase₂)
      · exact (Label.start.inj hi).1

/-- A call without a lock is executed at once, whatever else is. -/
theorem not_exclusive_of_start {i : Label} (hbad : ¬ StartOk s i) : ∃ s', step s i = some s' ∧ ¬ Exclusive s' := by
  cases i with
  | start id serverName toolName =>
    simp only [StartOk, Classical.not_imp, not_forall, not_not] at hbad
    obtain ⟨hnew, hnone, ⟨id', c'⟩, hmem, hphase, hsame⟩ := hbad
    have hc' : s.calls.get? id' = some c' := (get?_eq_some_iff _ _ _).mpr hmem
    have hne : id' ≠ id := by
      rintro rfl
      rw [hnew] at hc'
      cases hc'
    have hresource : Call.resource ⟨serverName, toolName, .queued false⟩ = none := resource_eq_none_iff.mpr hnone
    refine ⟨{ s with calls := s.calls.set id ⟨serverName, toolName, .executing⟩ }, ?_, fun hexclusive => hne ?_⟩
    · simp [step, hnew, start, hresource]
    · exact hexclusive.apart id' id c' ⟨serverName, toolName, .executing⟩
        ((OrderedDict.get?_set_ne _ _ hne).trans hc') (OrderedDict.get?_set_self _ _ _) hphase rfl hsame
  | cancel id => exact absurd trivial hbad
  | resume id => exact absurd trivial hbad
  | ends id => exact absurd trivial hbad

/-- **In a run calls on servers of one name exclude each other, and every lock is free in the end, exactly when a
call on a server whose name begins with an underscore starts only beside calls on other servers.** -/
theorem exclusive_iff_guarded (is : List Label) :
    (∀ js ks s, is = js ++ ks → exec step State.init js = some s → Exclusive s) ↔
      Guarded step StartOk State.init is :=
  always_iff_guarded (fun _ _ _ h hstep => Inv.step h hstep)
    (fun _ _ _ hinv h hok hstep => Exclusive.step hinv h hok hstep)
    (fun _ _ _ _ hbad => not_exclusive_of_start hbad) Inv.init ⟨nofun, nofun⟩ is

/-- Two calls on the server `_git`. -/
def bothStart : List Label := [.start 1 "_git" "commit", .start 2 "_git" "push"]

theorem both_execute :
    (exec step State.init bothStart).map (fun s => (s.calls.get? 1, s.calls.get? 2)) =
      some (some ⟨"_git", "commit", .executing⟩, some ⟨"_git", "push", .executing⟩) := by decide +kernel

theorem calls_overlap : ¬ ∀ (is : List Label) (s : State), exec step State.init is = some s → Exclusive s := by
  intro h
  obtain ⟨s, hrun, hcalls⟩ := Option.map_eq_some_iff.mp both_execute
  obtain ⟨hcommit, hpush⟩ := Prod.mk.inj hcalls
  have hsame := (h bothStart s hrun).apart 1 2 _ _ hcommit hpush rfl rfl rfl
  cases hsame

end KernelRuntime.Multiplexer
