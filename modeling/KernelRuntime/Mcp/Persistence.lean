import KernelRuntime.Foundations.Execution
import KernelRuntime.Foundations.OrderedDict

/-! # The persisted list of stdio servers

`register_server` and `unregister_server` write the live table of the tenant to `stdio_servers.json` when
they succeed, and `restore_persisted_servers` registers what the file lists when the process starts. The
tables and the files of two tenants are separate, so one tenant is modelled. A table is an object of the
process: an operation keeps the one that it began with, also after the manager has dropped it. The file is
written in one step, and it can be written. -/

namespace KernelRuntime.McpPersistence
set_option autoImplicit false

/-- What the file lists of a server. -/
structure ServerRecord where
  name : String
  command : String
  args : List String
  workingDir : Option String
  description : String
deriving DecidableEq

abbrev Table := OrderedDict String ServerRecord

/-- A `register_server` that waits for `_start_server`, with its table. -/
structure Registration where
  record : ServerRecord
  table : ℕ
  restoring : Bool
deriving DecidableEq

/-- An `unregister_server` that waits for the process to end, with its table. -/
structure Unregistration where
  name : String
  table : ℕ
deriving DecidableEq

/-- `file` survives the process; `expected` are the servers that were registered successfully and not
unregistered since. The rest is the process: its tables, the one in `_tenant_servers`, the operations in
progress, and what `restore_persisted_servers` has still to do. -/
structure State where
  file : List ServerRecord
  expected : Table
  tables : ℕ → Table
  nextTable : ℕ
  current : Option ℕ
  registering : List (ℕ × Registration)
  unregistering : List (ℕ × Unregistration)
  restoring : List ServerRecord
  restored : Bool

def State.init : State :=
  ⟨[], OrderedDict.empty, fun _ => OrderedDict.empty, 0, none, [], [], [], false⟩

/-! ## Tables -/

def State.setTable (s : State) (i : ℕ) (table : Table) : State :=
  { s with tables := fun j => if j = i then table else s.tables j }

/-- `_get_tenant_servers`: it makes the table when there is none. -/
def State.getTenantServers (s : State) : State × ℕ :=
  match s.current with
  | some i => (s, i)
  | none => ({ s.setTable s.nextTable OrderedDict.empty with
      nextTable := s.nextTable + 1, current := some s.nextTable }, s.nextTable)

/-- The table that the manager has, without making one. -/
def State.live (s : State) : Table :=
  match s.current with
  | some i => s.tables i
  | none => OrderedDict.empty

/-- `_save_tenant_servers`. -/
def State.save (s : State) : State :=
  let (s', i) := s.getTenantServers
  { s' with file := (s'.tables i).values }

/-! ## Operations -/

/-- `register_server` up to the start: a name that is taken raises a `ValueError`. -/
def State.registerBegin (s : State) (id : ℕ) (record : ServerRecord) (restoring : Bool) : State :=
  let (s', i) := s.getTenantServers
  if (s'.tables i).contains record.name then s'
  else { s'.setTable i ((s'.tables i).set record.name record) with
    registering := assocSet id ⟨record, i, restoring⟩ s'.registering }

def State.registerOk (s : State) (id : ℕ) (r : Registration) : State :=
  { s.save with
    registering := assocErase id s.registering
    expected := s.expected.set r.record.name r.record }

/-- `del servers[name]`, in the table that the call began with. -/
def State.registerFail (s : State) (id : ℕ) (r : Registration) : State :=
  { s.setTable r.table ((s.tables r.table).erase r.record.name) with
    registering := assocErase id s.registering }

/-- `unregister_server` up to the end of the process; a name that is not there returns. -/
def State.unregisterBegin (s : State) (id : ℕ) (name : String) : State :=
  let (s', i) := s.getTenantServers
  if (s'.tables i).contains name then
    { s' with unregistering := assocSet id ⟨name, i⟩ s'.unregistering }
  else s'

/-- `del servers[name]`, and the tenant's table is dropped when the call's own table is empty. -/
def State.remove (s : State) (u : Unregistration) : State :=
  let table := (s.tables u.table).erase u.name
  let s' := s.setTable u.table table
  if table.keys.isEmpty then { s' with current := none } else s'

/-- The rest of `unregister_server`. A server that is not in the table any more raises a `KeyError`. -/
def State.unregisterEnd (s : State) (id : ℕ) (u : Unregistration) : State :=
  if (s.tables u.table).contains u.name then
    { (s.remove u).save with
      unregistering := assocErase id s.unregistering
      expected := s.expected.erase u.name }
  else { s with unregistering := assocErase id s.unregistering }

/-- The process ends, and another one starts. -/
def State.restart (s : State) : State := { State.init with file := s.file, expected := s.expected }

/-! ## Runs -/

inductive Label where
  | registerBegin (id : ℕ) (record : ServerRecord)
  | registerOk (id : ℕ)
  | registerFail (id : ℕ)
  | unregisterBegin (id : ℕ) (name : String)
  | unregisterEnd (id : ℕ)
  /-- `restore_persisted_servers` reads the file. -/
  | restore
  /-- It registers the next server, or fails to because the name is taken. -/
  | restoreNext (id : ℕ)
  | restart

/-- The identifier belongs to no operation in progress. -/
def State.idle (s : State) (id : ℕ) : Bool :=
  (s.registering.lookup id).isNone && (s.unregistering.lookup id).isNone

def step (s : State) : Label → Option State
  | .registerBegin id record => if s.idle id then some (s.registerBegin id record false) else none
  | .registerOk id => (s.registering.lookup id).map (s.registerOk id)
  | .registerFail id => (s.registering.lookup id).map (s.registerFail id)
  | .unregisterBegin id name => if s.idle id then some (s.unregisterBegin id name) else none
  | .unregisterEnd id => (s.unregistering.lookup id).map (s.unregisterEnd id)
  | .restore => if s.restored then none else some { s with restoring := s.file, restored := true }
  | .restoreNext id =>
    match s.restoring with
    | [] => none
    | record :: rest =>
      if s.idle id ∧ s.registering.all fun r => !r.2.restoring then
        some { s.registerBegin id record true with restoring := rest }
      else none
  | .restart => some s.restart

/-! ## What the file should list -/

def Quiescent (s : State) : Prop := s.registering = [] ∧ s.unregistering = [] ∧ s.restoring = []

def Expected (s : State) (record : ServerRecord) : Prop := s.expected.get? record.name = some record

/-- The file lists exactly the expected servers. -/
def FileMatches (s : State) : Prop := ∀ record, record ∈ s.file ↔ Expected s record

/-- Some call other than `id` is starting this server. -/
def StartingBeside (s : State) (id : ℕ) (record : ServerRecord) : Prop :=
  ∃ other ∈ s.registering, other.1 ≠ id ∧ other.2.record = record

def Starting (s : State) (record : ServerRecord) : Prop := ∃ r ∈ s.registering, r.2.record = record

def Holds (table : Table) (record : ServerRecord) : Prop := table.get? record.name = some record

/-- The file is written only when every expected server is live or still about to be started: the table has
the server that has just started, and a name that was removed is not in it again unless it is starting there.
A server that fails to start is listed only if it is expected, and is not forgotten by then; the same for a
server that `restore_persisted_servers` finds taken. When the process ends, a server that is being started is
listed exactly if it is expected, and what is still to be restored is listed if it is expected. -/
def StepOk (s : State) : Label → Prop
  | .registerOk id => ∀ r ∈ s.registering.lookup id, Holds s.live r.record ∧
      ∀ record ∈ s.expected.values, record.name ≠ r.record.name →
        Holds s.live record ∨ record ∈ s.restoring ∨ StartingBeside s id record
  | .registerFail id => ∀ r ∈ s.registering.lookup id,
      (r.record ∈ s.file → Expected s r.record ∨ StartingBeside s id r.record) ∧
        (Expected s r.record → r.record ∈ s.file ∨ r.record ∈ s.restoring ∨ StartingBeside s id r.record)
  | .unregisterEnd id => ∀ u ∈ s.unregistering.lookup id, (s.tables u.table).contains u.name = true →
      (∀ record ∈ s.expected.values, record.name ≠ u.name →
        Holds (s.remove u).live record ∨ record ∈ s.restoring ∨ Starting s record) ∧
      ∀ record ∈ (s.remove u).live.get? u.name, ∃ r ∈ s.registering,
        (s.remove u).current = some r.2.table ∧ r.2.record = record
  | .restoreNext _ => ∀ record ∈ s.restoring.head?, s.live.contains record.name = true → Expected s record →
      record ∈ s.file ∨ record ∈ s.restoring.tail ∨ Starting s record
  | .restart => (∀ r ∈ s.registering, r.2.record ∈ s.file ↔ Expected s r.2.record) ∧
      ∀ record ∈ s.restoring, Expected s record → record ∈ s.file
  | _ => True

instance (s : State) (record : ServerRecord) : Decidable (Expected s record) :=
  inferInstanceAs (Decidable (_ = _))

instance (table : Table) (record : ServerRecord) : Decidable (Holds table record) :=
  inferInstanceAs (Decidable (_ = _))

instance (s : State) (record : ServerRecord) : Decidable (Starting s record) :=
  inferInstanceAs (Decidable (∃ r ∈ s.registering, _))

instance (s : State) (id : ℕ) (record : ServerRecord) : Decidable (StartingBeside s id record) :=
  inferInstanceAs (Decidable (∃ r ∈ s.registering, _))

instance (s : State) : (i : Label) → Decidable (StepOk s i)
  | .registerOk id => inferInstanceAs (Decidable (∀ r ∈ s.registering.lookup id, _ ∧
      ∀ record ∈ s.expected.values, _))
  | .registerFail id => inferInstanceAs (Decidable (∀ r ∈ s.registering.lookup id, _ ∧ _))
  | .unregisterEnd id => inferInstanceAs (Decidable (∀ u ∈ s.unregistering.lookup id, _ →
      (∀ record ∈ s.expected.values, _) ∧ ∀ record ∈ (s.remove u).live.get? u.name, _))
  | .restoreNext _ => inferInstanceAs (Decidable (∀ record ∈ s.restoring.head?, _))
  | .restart => inferInstanceAs (Decidable ((∀ r ∈ s.registering, _) ∧ ∀ record ∈ s.restoring, _))
  | .registerBegin _ _ => isTrue trivial
  | .unregisterBegin _ _ => isTrue trivial
  | .restore => isTrue trivial

/-! ## Between the operations -/

/-- An entry of a table has its own name, and is expected or being started there. -/
def Accounted (s : State) (i : ℕ) (k : String) (record : ServerRecord) : Prop :=
  record.name = k ∧ (Expected s record ∨ ∃ r ∈ s.registering, r.2.table = i ∧ r.2.record = record)

/-- An expected server is listed, or will be once it has started again. -/
structure Inv (s : State) : Prop where
  ids : (s.registering.map Prod.fst).Nodup
  unread : s.restored = false → s.restoring = []
  kept : ∀ record, Expected s record → record ∈ s.file ∨ record ∈ s.restoring ∨ Starting s record
  listed : ∀ record ∈ s.file, Expected s record ∨ Starting s record
  live : ∀ i k record, s.current = some i → (s.tables i).get? k = some record → Accounted s i k record

theorem Inv.init : Inv State.init where
  ids := List.nodup_nil
  unread _ := rfl
  kept _ h := nomatch h
  listed _ h := nomatch h
  live _ _ _ h := nomatch h

theorem Inv.fileMatches {s : State} (h : Inv s) (hquiet : Quiescent s) : FileMatches s := by
  intro record
  constructor
  · intro hrecord
    refine (h.listed record hrecord).resolve_right ?_
    rintro ⟨r, hr, _⟩
    rw [hquiet.1] at hr
    cases hr
  · intro hexpected
    rcases h.kept record hexpected with hlisted | hrestoring | ⟨r, hr, _⟩
    · exact hlisted
    · rw [hquiet.2.2] at hrestoring
      cases hrestoring
    · rw [hquiet.1] at hr
      cases hr

section Steps
variable {s : State}

/-- The table that an operation gets is the live one. -/
theorem getTenantServers_table (s : State) :
    s.getTenantServers.1.tables s.getTenantServers.2 = s.live ∧
      s.getTenantServers.1.current = some s.getTenantServers.2 := by
  unfold State.getTenantServers State.live
  cases hcurrent : s.current with
  | none => exact ⟨by simp [State.setTable], rfl⟩
  | some i => exact ⟨rfl, hcurrent⟩

theorem getTenantServers_rest (s : State) : s.getTenantServers.1.file = s.file ∧
    s.getTenantServers.1.expected = s.expected ∧ s.getTenantServers.1.registering = s.registering ∧
      s.getTenantServers.1.restoring = s.restoring ∧ s.getTenantServers.1.restored = s.restored := by
  unfold State.getTenantServers
  cases s.current with
  | none => exact ⟨rfl, rfl, rfl, rfl, rfl⟩
  | some i => exact ⟨rfl, rfl, rfl, rfl, rfl⟩

theorem live_getTenantServers {P : ℕ → String → ServerRecord → Prop}
    (h : ∀ i k record, s.current = some i → (s.tables i).get? k = some record → P i k record)
    (i : ℕ) (k : String) (record : ServerRecord) (hi : s.getTenantServers.1.current = some i)
    (hrecord : (s.getTenantServers.1.tables i).get? k = some record) : P i k record := by
  unfold State.getTenantServers at hi hrecord
  cases hcurrent : s.current with
  | none =>
    rw [hcurrent] at hi hrecord
    obtain rfl := Option.some.inj hi
    simp [State.setTable] at hrecord
  | some j =>
    rw [hcurrent] at hi hrecord
    exact h i k record hi hrecord

theorem Inv.getTenantServers (h : Inv s) : Inv s.getTenantServers.1 := by
  obtain ⟨hfile, hexpected, hregistering, hrestoring, hrestored⟩ := getTenantServers_rest s
  constructor
  · rw [hregistering]
    exact h.ids
  · rw [hrestored, hrestoring]
    exact h.unread
  · unfold Expected Starting
    rw [hexpected, hfile, hrestoring, hregistering]
    exact h.kept
  · rw [hfile]
    unfold Expected Starting
    rw [hexpected, hregistering]
    exact h.listed
  · intro i k record hi hrecord
    unfold Accounted Expected
    rw [hexpected, hregistering]
    exact live_getTenantServers h.live i k record hi hrecord

theorem not_used_of_idle {id : ℕ} (h : s.idle id = true) : ∀ r ∈ s.registering, r.1 ≠ id := by
  have hboth : (s.registering.lookup id).isNone = true ∧ (s.unregistering.lookup id).isNone = true := by
    simpa [State.idle] using h
  intro r hr hid
  have hne := List.lookup_eq_none_iff.mp (Option.isNone_iff_eq_none.mp hboth.1) r hr
  simp [hid] at hne

theorem Inv.registerBegin (h : Inv s) {id : ℕ} (hidle : s.idle id = true) (record : ServerRecord)
    (restoring : Bool) : Inv (s.registerBegin id record restoring) := by
  have hs := h.getTenantServers
  obtain ⟨_, hcurrent⟩ := getTenantServers_table s
  have hunused : ∀ r ∈ s.getTenantServers.1.registering, r.1 ≠ id := by
    rw [(getTenantServers_rest s).2.2.1]
    exact not_used_of_idle hidle
  unfold State.registerBegin
  generalize s.getTenantServers = fetched at hs hcurrent hunused ⊢
  obtain ⟨s', i⟩ := fetched
  simp only at hs hcurrent hunused ⊢
  split_ifs with htaken
  · exact hs
  · have hstarting : ∀ {other}, Starting s' other → ∃ r ∈ assocSet id ⟨record, i, restoring⟩ s'.registering,
        r.2.record = other :=
      fun ⟨r, hr, hsame⟩ => ⟨r, mem_assocSet_of_ne hr (hunused r hr), hsame⟩
    refine ⟨nodup_assocSet _ _ hs.ids, hs.unread, fun other hother => ?_, fun other hother => ?_,
      fun j k entry hj hentry => ?_⟩
    · exact (hs.kept other hother).imp_right (Or.imp_right hstarting)
    · exact (hs.listed other hother).imp_right hstarting
    · obtain rfl := Option.some.inj (hcurrent.symm.trans hj)
      simp only [State.setTable, if_true, OrderedDict.get?_set] at hentry
      split_ifs at hentry with hk
      · obtain rfl := Option.some.inj hentry
        exact ⟨hk.symm, Or.inr ⟨_, mem_assocSet_self _ _ _, rfl, rfl⟩⟩
      · obtain ⟨hname, hexpected | ⟨r, hr, htable⟩⟩ := hs.live i k entry hcurrent hentry
        · exact ⟨hname, Or.inl hexpected⟩
        · exact ⟨hname, Or.inr ⟨r, mem_assocSet_of_ne hr (hunused r hr), htable⟩⟩

/-- The server is being started afterwards, or its name was taken and nothing has changed. -/
theorem registerBegin_cases (s : State) (id : ℕ) (record : ServerRecord) (restoring : Bool) :
    Starting (s.registerBegin id record restoring) record ∨ s.live.contains record.name = true ∧
      (s.registerBegin id record restoring).file = s.file ∧
      (s.registerBegin id record restoring).expected = s.expected ∧
      (s.registerBegin id record restoring).registering = s.registering := by
  have htable := (getTenantServers_table s).1
  obtain ⟨hfile, hexpected, hregistering, _⟩ := getTenantServers_rest s
  unfold State.registerBegin
  generalize s.getTenantServers = fetched at htable hfile hexpected hregistering ⊢
  obtain ⟨s', i⟩ := fetched
  simp only at htable hfile hexpected hregistering ⊢
  split_ifs with htaken
  · exact Or.inr ⟨htable ▸ htaken, hfile, hexpected, hregistering⟩
  · exact Or.inl ⟨_, mem_assocSet_self _ _ _, rfl⟩

theorem registerBegin_restoring (s : State) (id : ℕ) (record : ServerRecord) (restoring : Bool) :
    (s.registerBegin id record restoring).restoring = s.restoring := by
  have hrestoring := (getTenantServers_rest s).2.2.2.1
  unfold State.registerBegin
  generalize s.getTenantServers = fetched at hrestoring ⊢
  obtain ⟨s', i⟩ := fetched
  simp only at hrestoring ⊢
  split_ifs
  · exact hrestoring
  · exact hrestoring

/-- `_save_tenant_servers` lists the live table. -/
theorem save_eq (s : State) : s.save = { s.getTenantServers.1 with file := s.live.values } := by
  unfold State.save
  simp only
  rw [(getTenantServers_table s).1]

theorem Holds.mem_values {table : Table} {record : ServerRecord} (h : Holds table record) : record ∈ table.values :=
  (OrderedDict.mem_values_iff _ _).mpr ⟨_, h⟩

/-- After a write of the live table the file lists what the table holds. -/
theorem listed_of_live {expected : Table} {registering : List (ℕ × Registration)}
    (hlive : ∀ i k record, s.current = some i → (s.tables i).get? k = some record →
      record.name = k ∧ (expected.get? record.name = some record ∨
        ∃ r ∈ registering, r.2.table = i ∧ r.2.record = record)) :
    ∀ record ∈ s.live.values, expected.get? record.name = some record ∨
      ∃ r ∈ registering, r.2.record = record := by
  intro record hrecord
  obtain ⟨k, hk⟩ := (OrderedDict.mem_values_iff _ _).mp hrecord
  unfold State.live at hk
  cases hcurrent : s.current with
  | none =>
    rw [hcurrent] at hk
    cases hk
  | some i =>
    rw [hcurrent] at hk
    obtain ⟨_, hexpected | ⟨r, hr, _, hsame⟩⟩ := hlive i k record hcurrent hk
    · exact Or.inl hexpected
    · exact Or.inr ⟨r, hr, hsame⟩

theorem live_eq {i : ℕ} (h : s.current = some i) : s.live = s.tables i := by
  unfold State.live
  rw [h]

theorem Inv.registration_eq (h : Inv s) {id : ℕ} {r : ℕ × Registration} {registration : Registration}
    (hlookup : s.registering.lookup id = some registration) (hr : r ∈ s.registering) (hid : r.1 = id) :
    r.2 = registration := by
  have hsame := (lookup_eq_some_iff h.ids _ _).mpr hr
  rw [hid, hlookup] at hsame
  exact (Option.some.inj hsame).symm

/-- A write of the file keeps the invariant of the servers that are then expected and started. -/
theorem Inv.save {expected : Table} {registering : List (ℕ × Registration)} {unregistering : List (ℕ × Unregistration)}
    (hids : (registering.map Prod.fst).Nodup) (hunread : s.restored = false → s.restoring = [])
    (hkept : ∀ record, expected.get? record.name = some record →
      Holds s.live record ∨ record ∈ s.restoring ∨ ∃ r ∈ registering, r.2.record = record)
    (haccounted : ∀ i k record, s.current = some i → (s.tables i).get? k = some record → record.name = k ∧
      (expected.get? record.name = some record ∨ ∃ r ∈ registering, r.2.table = i ∧ r.2.record = record)) :
    Inv { s.save with expected := expected, registering := registering, unregistering := unregistering } := by
  obtain ⟨_, _, _, hrestoring, hrestored⟩ := getTenantServers_rest s
  rw [save_eq]
  refine ⟨hids, ?_, ?_, listed_of_live haccounted, live_getTenantServers haccounted⟩
  · simp only [hrestoring, hrestored]
    exact hunread
  · unfold Expected Starting
    simp only [hrestoring]
    exact fun record hrecord => (hkept record hrecord).imp_left Holds.mem_values

theorem Inv.registerOk (h : Inv s) {id : ℕ} {r : Registration} (hr : s.registering.lookup id = some r)
    (hlive : Holds s.live r.record) (hothers : ∀ record ∈ s.expected.values, record.name ≠ r.record.name →
      Holds s.live record ∨ record ∈ s.restoring ∨ StartingBeside s id record) : Inv (s.registerOk id r) := by
  refine Inv.save (nodup_assocErase _ h.ids) h.unread (fun record hrecord => ?_) fun i k record hi hrecord => ?_
  · by_cases hsame : record.name = r.record.name
    · rw [hsame, OrderedDict.get?_set_self] at hrecord
      exact Or.inl (Option.some.inj hrecord ▸ hlive)
    · rw [OrderedDict.get?_set_ne _ _ hsame] at hrecord
      refine (hothers record ((OrderedDict.mem_values_iff _ _).mpr ⟨_, hrecord⟩) hsame).imp_right (Or.imp_right ?_)
      rintro ⟨other, hother, hne, hsame⟩
      exact ⟨other, mem_assocErase.mpr ⟨hother, hne⟩, hsame⟩
  · obtain ⟨hname, haccount⟩ := h.live i k record hi hrecord
    refine ⟨hname, ?_⟩
    by_cases hsame : record.name = r.record.name
    · have hentry : (s.tables i).get? r.record.name = some r.record := live_eq hi ▸ hlive
      rw [← hsame, hname, hrecord] at hentry
      obtain rfl := Option.some.inj hentry
      exact Or.inl (OrderedDict.get?_set_self _ _ _)
    · rcases haccount with hexpected | ⟨other, hother, htable, hrecord⟩
      · left
        rw [OrderedDict.get?_set_ne _ _ hsame]
        exact hexpected
      · refine Or.inr ⟨other, mem_assocErase.mpr ⟨hother, fun hid => hsame ?_⟩, htable, hrecord⟩
        rw [← hrecord, h.registration_eq hr hother hid]

theorem Inv.registerFail (h : Inv s) {id : ℕ} {r : Registration} (hr : s.registering.lookup id = some r)
    (hlisted : r.record ∈ s.file → Expected s r.record ∨ StartingBeside s id r.record)
    (hkept : Expected s r.record → r.record ∈ s.file ∨ r.record ∈ s.restoring ∨ StartingBeside s id r.record) :
    Inv (s.registerFail id r) := by
  have hbeside : ∀ {record}, StartingBeside s id record → Starting (s.registerFail id r) record :=
    fun ⟨other, hother, hne, hsame⟩ => ⟨other, mem_assocErase.mpr ⟨hother, hne⟩, hsame⟩
  -- The other starts go on.
  have hstarting : ∀ {record}, Starting s record → record = r.record ∨ StartingBeside s id record := by
    rintro record ⟨other, hother, hsame⟩
    by_cases hid : other.1 = id
    · rw [h.registration_eq hr hother hid] at hsame
      exact Or.inl hsame.symm
    · exact Or.inr ⟨other, hother, hid, hsame⟩
  refine ⟨nodup_assocErase _ h.ids, h.unread, fun record hrecord => ?_, fun record hrecord => ?_,
    fun i k record hi hrecord => ?_⟩
  · rcases h.kept record hrecord with hfile | hrestoring | hstarts
    · exact Or.inl hfile
    · exact Or.inr (Or.inl hrestoring)
    · rcases hstarting hstarts with rfl | hother
      · exact (hkept hrecord).imp_right (Or.imp_right hbeside)
      · exact Or.inr (Or.inr (hbeside hother))
  · rcases h.listed record hrecord with hexpected | hstarts
    · exact Or.inl hexpected
    · rcases hstarting hstarts with rfl | hother
      · exact (hlisted hrecord).imp_right hbeside
      · exact Or.inr (hbeside hother)
  · have hbefore : (s.tables i).get? k = some record ∧ (i = r.table → k ≠ r.record.name) := by
      simp only [State.registerFail, State.setTable] at hrecord
      split_ifs at hrecord with htable
      · rw [← htable] at hrecord
        refine ⟨OrderedDict.get?_of_get?_erase hrecord, fun _ hk => ?_⟩
        rw [hk, OrderedDict.get?_erase_self] at hrecord
        cases hrecord
      · exact ⟨hrecord, fun htable' => absurd htable' htable⟩
    obtain ⟨hname, hexpected | ⟨other, hother, htable, hsame⟩⟩ := h.live i k record hi hbefore.1
    · exact ⟨hname, Or.inl hexpected⟩
    · refine ⟨hname, Or.inr ⟨other, mem_assocErase.mpr ⟨hother, fun hid => ?_⟩, htable, hsame⟩⟩
      rw [h.registration_eq hr hother hid] at htable hsame
      exact hbefore.2 htable.symm (by rw [← hname, ← hsame])

/-- Dropping an entry, and perhaps the table, leaves the other entries accounted for. -/
theorem Inv.live_remove (h : Inv s) (u : Unregistration) (i : ℕ) (k : String) (record : ServerRecord)
    (hi : (s.remove u).current = some i) (hrecord : ((s.remove u).tables i).get? k = some record) :
    Accounted s i k record := by
  have hboth : s.current = some i ∧
      ((s.setTable u.table ((s.tables u.table).erase u.name)).tables i).get? k = some record := by
    unfold State.remove at hi hrecord
    simp only at hi hrecord
    split_ifs at hi hrecord with hempty
    exact ⟨hi, hrecord⟩
  refine h.live i k record hboth.1 ?_
  have hentry := hboth.2
  simp only [State.setTable] at hentry
  split_ifs at hentry with htable
  · rw [htable]
    exact OrderedDict.get?_of_get?_erase hentry
  · exact hentry

theorem remove_rest (s : State) (u : Unregistration) : (s.remove u).registering = s.registering ∧
    (s.remove u).restoring = s.restoring ∧ (s.remove u).restored = s.restored := by
  unfold State.remove
  simp only
  split_ifs <;> exact ⟨rfl, rfl, rfl⟩

theorem Inv.unregisterEnd (h : Inv s) {id : ℕ} {u : Unregistration}
    (hok : (s.tables u.table).contains u.name = true →
      (∀ record ∈ s.expected.values, record.name ≠ u.name →
        Holds (s.remove u).live record ∨ record ∈ s.restoring ∨ Starting s record) ∧
      ∀ record ∈ (s.remove u).live.get? u.name, ∃ r ∈ s.registering,
        (s.remove u).current = some r.2.table ∧ r.2.record = record) : Inv (s.unregisterEnd id u) := by
  unfold State.unregisterEnd
  split_ifs with hthere
  · obtain ⟨hothers, hagain⟩ := hok hthere
    obtain ⟨hregistering, hrestoring, hrestored⟩ := remove_rest s u
    have hsaved : (s.remove u).save.registering = s.registering := by
      rw [save_eq]
      exact (getTenantServers_rest (s.remove u)).2.2.1.trans hregistering
    refine Inv.save ?_ ?_ (fun record hrecord => ?_) fun i k record hi hrecord => ?_
    · rw [hsaved]
      exact h.ids
    · rw [hrestoring, hrestored]
      exact h.unread
    · rw [OrderedDict.get?_erase] at hrecord
      split_ifs at hrecord with hne
      rw [hrestoring, hsaved]
      exact hothers record ((OrderedDict.mem_values_iff _ _).mpr ⟨_, hrecord⟩) hne
    · obtain ⟨hname, haccount⟩ := h.live_remove u i k record hi hrecord
      rw [hsaved]
      refine ⟨hname, ?_⟩
      by_cases hsame : k = u.name
      · subst hsame
        obtain ⟨r, hr, htable, hsame⟩ := hagain record (by rw [live_eq hi]; exact hrecord)
        exact Or.inr ⟨r, hr, Option.some.inj (htable.symm.trans hi), hsame⟩
      · rcases haccount with hexpected | hstarting
        · left
          rw [OrderedDict.get?_erase, if_neg (hname ▸ hsame)]
          exact hexpected
        · exact Or.inr hstarting
  · exact ⟨h.ids, h.unread, h.kept, h.listed, h.live⟩

theorem Inv.unregisterBegin (h : Inv s) (id : ℕ) (name : String) : Inv (s.unregisterBegin id name) := by
  have hs := h.getTenantServers
  unfold State.unregisterBegin
  generalize s.getTenantServers = fetched at hs ⊢
  obtain ⟨s', i⟩ := fetched
  simp only at hs ⊢
  split_ifs
  · exact ⟨hs.ids, hs.unread, hs.kept, hs.listed, hs.live⟩
  · exact hs

/-- `restore_persisted_servers` goes on to its next server. -/
theorem Inv.restoreNext (h : Inv s) {id : ℕ} (hidle : s.idle id = true) {record : ServerRecord}
    {rest : List ServerRecord} (hrestoring : s.restoring = record :: rest)
    (htaken : s.live.contains record.name = true → Expected s record →
      record ∈ s.file ∨ record ∈ rest ∨ Starting s record) :
    Inv { s.registerBegin id record true with restoring := rest } := by
  have hs := h.registerBegin hidle record true
  have hunread : (s.registerBegin id record true).restored = true := by
    by_contra hrestored
    have hempty := hs.unread (Bool.not_eq_true _ ▸ hrestored)
    rw [registerBegin_restoring, hrestoring] at hempty
    cases hempty
  refine ⟨hs.ids, fun hrestored => ?_, fun other hother => ?_, hs.listed, hs.live⟩
  · rw [hunread] at hrestored
    cases hrestored
  · rcases hs.kept other hother with hfile | hwaiting | hstarting
    · exact Or.inl hfile
    · rw [registerBegin_restoring, hrestoring, List.mem_cons] at hwaiting
      rcases hwaiting with rfl | hwaiting
      · rcases registerBegin_cases s id other true with hstarting | ⟨hcontains, hfile, hexpected, hregistering⟩
        · exact Or.inr (Or.inr hstarting)
        · have hother' : Expected s other := by
            unfold Expected at hother ⊢
            rw [← hexpected]
            exact hother
          unfold Starting
          simp only [hfile, hregistering]
          exact htaken hcontains hother'
      · exact Or.inr (Or.inl hwaiting)
    · exact Or.inr (Or.inr hstarting)

theorem Inv.step {i : Label} {s' : State} (h : Inv s) (hok : StepOk s i)
    (hstep : McpPersistence.step s i = some s') : Inv s' := by
  cases i with
  | registerBegin id record =>
    simp only [McpPersistence.step] at hstep
    split_ifs at hstep with hidle
    exact Option.some.inj hstep ▸ h.registerBegin hidle record false
  | registerOk id =>
    obtain ⟨r, hr, rfl⟩ := Option.map_eq_some_iff.mp hstep
    exact h.registerOk hr (hok r hr).1 (hok r hr).2
  | registerFail id =>
    obtain ⟨r, hr, rfl⟩ := Option.map_eq_some_iff.mp hstep
    exact h.registerFail hr (hok r hr).1 (hok r hr).2
  | unregisterBegin id name =>
    simp only [McpPersistence.step] at hstep
    split_ifs at hstep
    exact Option.some.inj hstep ▸ h.unregisterBegin id name
  | unregisterEnd id =>
    obtain ⟨u, hu, rfl⟩ := Option.map_eq_some_iff.mp hstep
    exact h.unregisterEnd (hok u hu)
  | restore =>
    simp only [McpPersistence.step] at hstep
    split_ifs at hstep with hrestored
    obtain rfl := Option.some.inj hstep
    refine ⟨h.ids, nofun, fun record hrecord => ?_, h.listed, h.live⟩
    rcases h.kept record hrecord with hfile | hwaiting | hstarting
    · exact Or.inl hfile
    · rw [h.unread (Bool.not_eq_true _ ▸ hrestored)] at hwaiting
      cases hwaiting
    · exact Or.inr (Or.inr hstarting)
  | restoreNext id =>
    simp only [McpPersistence.step] at hstep
    split at hstep
    next => cases hstep
    next record rest hrestoring =>
      split_ifs at hstep with henabled
      obtain rfl := Option.some.inj hstep
      have htaken := hok record (by rw [hrestoring]; rfl)
      rw [hrestoring, List.tail_cons] at htaken
      exact h.restoreNext henabled.1 hrestoring htaken
  | restart =>
    obtain rfl := Option.some.inj hstep
    refine ⟨List.nodup_nil, fun _ => rfl, fun record hrecord => Or.inl ?_, fun record hrecord => Or.inl ?_,
      fun _ _ _ hi => nomatch hi⟩
    · rcases h.kept record hrecord with hfile | hrestoring | ⟨r, hr, rfl⟩
      · exact hfile
      · exact hok.2 record hrestoring hrecord
      · exact (hok.1 r hr).mpr hrecord
    · rcases h.listed record hrecord with hexpected | ⟨r, hr, rfl⟩
      · exact hexpected
      · exact (hok.1 r hr).mp hrecord

end Steps

/-- **When every write finds the expected servers live or still to be started and no failed start is listed,
the file lists exactly the expected servers whenever nothing is in progress.** -/
theorem file_matches_of_guarded {is : List Label} {s : State} (hok : Guarded step StepOk State.init is)
    (hrun : exec step State.init is = some s) (hquiet : Quiescent s) : FileMatches s :=
  (exec_invariant (fun _ _ _ h hok hstep => Inv.step h hok hstep) Inv.init hok hrun).fileMatches hquiet

/-- A server that did not start at boot is dropped by the next server that starts: the write lists the live
table. -/
theorem forgotten_of_not_live {s : State} {id : ℕ} {r : Registration} {record : ServerRecord}
    (hnames : ∀ k entry, s.live.get? k = some entry → entry.name = k)
    (hgone : s.live.get? record.name ≠ some record) : record ∉ (s.registerOk id r).file := by
  unfold State.registerOk
  rw [save_eq]
  intro hrecord
  obtain ⟨k, hk⟩ := (OrderedDict.mem_values_iff _ _).mp hrecord
  rw [← hnames k record hk] at hk
  exact hgone hk

/-! ## Two servers and a restart -/

def filesServer : ServerRecord := ⟨"files", "npx", ["files"], none, ""⟩

def searchServer : ServerRecord := ⟨"search", "npx", ["search"], none, ""⟩

/-- Two servers are registered, the process restarts, and `search` is started again; `started` says whether
`files` is. -/
def rebooted (started : Bool) : List Label :=
  [.registerBegin 1 filesServer, .registerOk 1, .registerBegin 1 searchServer, .registerOk 1, .restart, .restore,
   .restoreNext 1, if started then .registerOk 1 else .registerFail 1, .restoreNext 1, .registerOk 1]

/-- Where a run ends that is taken to its end. -/
def endOf (is : List Label) : State := (exec step State.init is).getD State.init

theorem exec_rebooted (started : Bool) : exec step State.init (rebooted started) = some (endOf (rebooted started)) := by
  cases started <;> rfl

theorem file_matches_rebooted : FileMatches (endOf (rebooted true)) :=
  file_matches_of_guarded (by decide) (exec_rebooted true) ⟨rfl, rfl, rfl⟩

theorem server_forgotten : ¬ ∀ (is : List Label) (s : State), exec step State.init is = some s →
    Quiescent s → FileMatches s := by
  intro h
  have hmatches := h (rebooted false) _ (exec_rebooted false) ⟨rfl, rfl, rfl⟩
  exact absurd ((hmatches filesServer).mpr (by decide)) (by decide)

end KernelRuntime.McpPersistence
