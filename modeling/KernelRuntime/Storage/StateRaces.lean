import KernelRuntime.Foundations.FileOffsets
import KernelRuntime.Storage.Restore

/-! # Writes that cross

Several calls of `write_file` on one mount. Between its awaits a call runs alone: it changes the index, takes the
content that it passes on, or lists the state. Opening a file, which empties it, and the bytes that get to it are
steps of their own, and every call writes through its own handles. -/

namespace KernelRuntime.StateRaces
open Gvfs
set_option autoImplicit false

/-- How far a call is. -/
inductive Phase where
  | called
  | changed (change : List String)
  | changeOpen (change : List String)
  | changeWriting (change : List String) (offset : ℕ) (rest : Bytes)
  | changeClosed
  | listed (saved : SavedState)
  | stateWriting (saved : SavedState) (offset : ℕ) (rest : Bytes)
  | returned
deriving DecidableEq

/-- A call, with what it was called with. -/
structure Call where
  path : String
  content : Bytes
  phase : Phase

variable {ι : Type} [DecidableEq ι]

/-- The mount, the disk and the calls; `last` is the call that opened the state file last. -/
structure World (ι : Type) where
  mount : SessionMount
  disk : FileTree
  calls : ι → Call
  last : Option ι

def World.state (w : World ι) : State := ⟨w.mount, w.disk⟩

def World.phase (w : World ι) (i : ι) : Phase := (w.calls i).phase

def World.goTo (w : World ι) (i : ι) (phase : Phase) : World ι :=
  { w with calls := Function.update w.calls i { w.calls i with phase := phase } }

/-- What can happen next to a call: with the time for a change of the index, and for bytes that get to a file how many
they are. -/
inductive Label (ι : Type) where
  | change (i : ι) (now : ℕ)
  | openChange (i : ι)
  | passChange (i : ι)
  | writeChange (i : ι) (n : ℕ)
  | closeChange (i : ι)
  | list (i : ι)
  | openState (i : ι)
  | writeState (i : ι) (n : ℕ)
  | closeState (i : ι)
deriving DecidableEq

/-- Bytes get to a file through a handle. -/
def putBytes (t : FileTree) (p : List String) (offset : ℕ) (bytes : Bytes) : Option FileTree :=
  (t.contentAt p).map fun old => Function.update t p (some (.file (writeAt 0 old offset bytes)))

/-- A step of a call that does not raise. -/
def step (lib : Library) (storagePath : List String) (w : World ι) : Label ι → Option (World ι)
  | .change i now =>
    match w.phase i with
    | .called =>
      let change := changePath lib storagePath now w.state (w.calls i).path (w.calls i).content
      (w.disk.makeParents change).toOption.map fun t =>
        { w.goTo i (.changed change) with
          mount := writtenMount lib now w.state (w.calls i).path (w.calls i).content, disk := t }
    | _ => none
  | .openChange i =>
    match w.phase i with
    | .changed change =>
      (w.disk.write change []).toOption.map fun t => { w.goTo i (.changeOpen change) with disk := t }
    | _ => none
  | .passChange i =>
    match w.phase i with
    | .changeOpen change =>
      ((w.mount.files.get? (normalizePath (w.calls i).path)).bind VirtualFile.content).map fun content =>
        w.goTo i (.changeWriting change 0 content)
    | _ => none
  | .writeChange i n =>
    match w.phase i with
    | .changeWriting change offset rest =>
      (putBytes w.disk change offset (rest.take n)).map fun t =>
        { w.goTo i (.changeWriting change (offset + (rest.take n).length) (rest.drop n)) with disk := t }
    | _ => none
  | .closeChange i =>
    match w.phase i with
    | .changeWriting _ _ [] => some (w.goTo i .changeClosed)
    | _ => none
  | .list i =>
    match w.phase i with
    | .changeClosed =>
      (w.disk.makeParents (stateFile storagePath w.mount)).toOption.map fun t =>
        { w.goTo i (.listed (saveMount lib w.mount)) with disk := t }
    | _ => none
  | .openState i =>
    match w.phase i with
    | .listed saved =>
      (w.disk.write (stateFile storagePath w.mount) []).toOption.map fun t =>
        { w.goTo i (.stateWriting saved 0 (lib.dumps saved)) with disk := t, last := some i }
    | _ => none
  | .writeState i n =>
    match w.phase i with
    | .stateWriting saved offset rest =>
      (putBytes w.disk (stateFile storagePath w.mount) offset (rest.take n)).map fun t =>
        { w.goTo i (.stateWriting saved (offset + (rest.take n).length) (rest.drop n)) with disk := t }
    | _ => none
  | .closeState i =>
    match w.phase i with
    | .stateWriting _ _ [] => some (w.goTo i .returned)
    | _ => none

/-! ## What the state file should hold -/

/-- The state file parses and lists every file with its status and its sha. -/
def StateListed (lib : Library) (storagePath : List String) (w : World ι) : Prop :=
  ∃ text saved, w.disk.contentAt (stateFile storagePath w.mount) = some text ∧ lib.loads text = .ok saved ∧
    ∀ key vfile, w.mount.files.get? key = some vfile →
      ∃ f ∈ saved.files, f.path = vfile.path ∧ f.status = vfile.status.value ∧ f.sha = vfile.sha

def Phase.Opened : Phase → Prop
  | .stateWriting _ _ _ => True
  | .returned => True
  | _ => False

def AllOpened (w : World ι) : Prop := ∀ i, (w.phase i).Opened

/-- The text of the state as the index is. -/
def World.text (lib : Library) (w : World ι) : Bytes := lib.dumps (saveMount lib w.mount)

/-- How many places of the text a call has written that opened the state file. -/
def Phase.written (text : Bytes) : Phase → ℕ
  | .stateWriting _ offset _ => offset
  | .returned => text.length
  | _ => 0

/-- The last call to open the state file listed the index as it is. Once all calls have opened it, what another call
writes stays inside the text of the index, and where the last one wrote already it is the text's own. -/
def StepOk (lib : Library) (w : World ι) : Label ι → Prop
  | .openState i => (∀ j, j ≠ i → (w.phase j).Opened) → ∀ saved, w.phase i = .listed saved → saved = saveMount lib w.mount
  | .writeState i n => AllOpened w → ∀ l, w.last = some l → l ≠ i → ∀ saved offset rest,
      w.phase i = .stateWriting saved offset rest →
      Spares (w.text lib) ((w.phase l).written (w.text lib)) offset (rest.take n)
  | _ => True

/-- The call writes the text, or has written it. -/
def Phase.Writes (text : Bytes) : Phase → Prop
  | .stateWriting _ offset rest => rest = text.drop offset ∧ offset ≤ text.length
  | .returned => True
  | _ => False

/-- Once all calls have opened the state file, the last one that did is on its way through the text of the index, and
nothing in the file is in its way. -/
def Inv (lib : Library) (storagePath : List String) (w : World ι) : Prop :=
  AllOpened w → ∃ l content, w.last = some l ∧ (w.phase l).Writes (w.text lib) ∧
    w.disk.contentAt (stateFile storagePath w.mount) = some content ∧
    Agrees (w.text lib) ((w.phase l).written (w.text lib)) content

/-- The world in which nothing but the call, the mount and the disk is different. -/
def World.put (w : World ι) (i : ι) (mount : SessionMount) (disk : FileTree) (last : Option ι) (phase : Phase) : World ι :=
  { w.goTo i phase with mount := mount, disk := disk, last := last }

section Put
variable {w : World ι} {i : ι} {mount : SessionMount} {disk : FileTree} {last : Option ι} {phase : Phase}

@[simp] theorem put_phase : (w.put i mount disk last phase).phase i = phase := by
  simp [World.phase, World.put, World.goTo]

@[simp] theorem put_phase_ne {j : ι} (h : j ≠ i) :
    (w.put i mount disk last phase).phase j = w.phase j := by
  simp [World.phase, World.put, World.goTo, h]

@[simp] theorem put_disk : (w.put i mount disk last phase).disk = disk := rfl

@[simp] theorem put_mount : (w.put i mount disk last phase).mount = mount := rfl

@[simp] theorem put_last : (w.put i mount disk last phase).last = last := rfl

@[simp] theorem put_path : ((w.put i mount disk last phase).calls i).path = (w.calls i).path := by
  simp [World.put, World.goTo]

@[simp] theorem put_put {mount' : SessionMount} {disk' : FileTree} {last' : Option ι} {phase' : Phase} :
    (w.put i mount disk last phase).put i mount' disk' last' phase' = w.put i mount' disk' last' phase' := by
  simp [World.put, World.goTo]

end Put

/-! ## What a step does -/

section Steps
variable {lib : Library} {storagePath : List String} {w w' : World ι} {i : ι}

/-- A call that goes where the state file is not opened yet. -/
theorem not_allOpened_put {mount : SessionMount} {disk : FileTree} {last : Option ι} {phase : Phase} (h : ¬ phase.Opened) :
    ¬ AllOpened (w.put i mount disk last phase) := by
  intro hall
  have hopened := hall i
  rw [put_phase] at hopened
  exact h hopened

/-- Before the state file is opened a call is not among those that opened it. -/
theorem not_allOpened_of_step {label : Label ι} (h : step lib storagePath w label = some w') :
    ¬ AllOpened w' ∨ (∃ i, label = .openState i) ∨ (∃ i n, label = .writeState i n) ∨ ∃ i, label = .closeState i := by
  cases label
  case openState i => exact Or.inr (Or.inl ⟨i, rfl⟩)
  case writeState i n => exact Or.inr (Or.inr (Or.inl ⟨i, n, rfl⟩))
  case closeState i => exact Or.inr (Or.inr (Or.inr ⟨i, rfl⟩))
  case closeChange i =>
    simp only [step] at h
    split at h
    · cases h
      exact Or.inl (not_allOpened_put (w := w) id)
    · cases h
  -- the other steps of the change and the listing leave their call before the state file
  all_goals
    simp only [step] at h
    split at h
    · obtain ⟨t, -, rfl⟩ := Option.map_eq_some_iff.mp h
      exact Or.inl (not_allOpened_put (w := w) id)
    · cases h

theorem openState_cases (h : step lib storagePath w (.openState i) = some w') : ∃ saved t,
    w.phase i = .listed saved ∧ w.disk.write (stateFile storagePath w.mount) [] = .ok t ∧
      w' = w.put i w.mount t (some i) (.stateWriting saved 0 (lib.dumps saved)) := by
  simp only [step] at h
  split at h
  · next saved hphase =>
    obtain ⟨t, ht, rfl⟩ := Option.map_eq_some_iff.mp h
    exact ⟨saved, t, hphase, eq_ok_of_toOption ht, rfl⟩
  · cases h

theorem writeState_cases {n : ℕ} (h : step lib storagePath w (.writeState i n) = some w') :
    ∃ saved offset rest t, w.phase i = .stateWriting saved offset rest ∧
      putBytes w.disk (stateFile storagePath w.mount) offset (rest.take n) = some t ∧
      w' = w.put i w.mount t w.last (.stateWriting saved (offset + (rest.take n).length) (rest.drop n)) := by
  simp only [step] at h
  split at h
  · next saved offset rest hphase =>
    obtain ⟨t, ht, rfl⟩ := Option.map_eq_some_iff.mp h
    exact ⟨saved, offset, rest, t, hphase, ht, rfl⟩
  · cases h

theorem closeState_cases (h : step lib storagePath w (.closeState i) = some w') : ∃ saved offset,
    w.phase i = .stateWriting saved offset [] ∧ w' = w.put i w.mount w.disk w.last .returned := by
  simp only [step] at h
  split at h
  · next saved offset hphase =>
    cases h
    exact ⟨saved, offset, hphase, rfl⟩
  · cases h

/-! ## The steps keep the invariant -/

theorem contentAt_update_self (t : FileTree) (p : List String) (content : Bytes) :
    FileTree.contentAt (Function.update t p (some (.file content))) p = some content := by
  rw [FileTree.contentAt_eq_some_iff, Function.update_self]

theorem contentAt_putBytes {t t' : FileTree} {p : List String} {offset : ℕ} {bytes content : Bytes}
    (hcontent : t.contentAt p = some content) (h : putBytes t p offset bytes = some t') :
    t'.contentAt p = some (writeAt 0 content offset bytes) := by
  unfold putBytes at h
  rw [hcontent, Option.map_some] at h
  rw [← Option.some.inj h]
  exact contentAt_update_self _ _ _

/-- A step of a call that has opened the state file is none of the others' opening. -/
theorem allOpened_of_put {mount : SessionMount} {disk : FileTree} {last : Option ι} {phase : Phase}
    (hopened : (w.phase i).Opened) (hall : AllOpened (w.put i mount disk last phase)) : AllOpened w := by
  intro j
  by_cases hj : j = i
  · rw [hj]
    exact hopened
  · rw [← put_phase_ne (w := w) hj]
    exact hall j

theorem Inv.openState (hok : StepOk lib w (.openState i))
    (h : step lib storagePath w (.openState i) = some w') : Inv lib storagePath w' := by
  obtain ⟨saved, t, hphase, hwrite, rfl⟩ := openState_cases h
  intro hall
  have hothers : ∀ j, j ≠ i → (w.phase j).Opened := by
    intro j hj
    rw [← put_phase_ne (w := w) hj]
    exact hall j
  have hfresh : saved = saveMount lib w.mount := hok hothers saved hphase
  refine ⟨i, [], rfl, ?_, ?_, ?_⟩
  · rw [put_phase, hfresh]
    exact ⟨rfl, Nat.zero_le _⟩
  · rw [put_disk, put_mount, FileTree.write_ok hwrite]
    exact contentAt_update_self _ _ _
  · rw [put_phase]
    exact agrees_nil _

omit [DecidableEq ι] in
theorem written_le {text : Bytes} {phase : Phase} (h : phase.Writes text) : phase.written text ≤ text.length := by
  cases phase
  case stateWriting saved offset rest => exact h.2
  case returned => exact le_rfl
  all_goals exact h.elim

/-- Its own bytes bring a call on in its text. -/
theorem writes_take {text rest : Bytes} {saved : SavedState} {offset : ℕ} (n : ℕ)
    (h : (Phase.stateWriting saved offset rest).Writes text) :
    (Phase.stateWriting saved (offset + (rest.take n).length) (rest.drop n)).Writes text := by
  obtain ⟨rfl, hoffset⟩ := h
  have hlength : ((text.drop offset).take n).length = min n (text.length - offset) := by
    rw [List.length_take, List.length_drop]
  refine ⟨?_, by omega⟩
  rw [List.drop_drop, hlength]
  by_cases hn : n ≤ text.length - offset
  · rw [Nat.min_eq_left hn]
  · rw [List.drop_eq_nil_of_le (by omega), List.drop_eq_nil_of_le (by omega)]

theorem Inv.writeState {n : ℕ} (hinv : Inv lib storagePath w) (hok : StepOk lib w (.writeState i n))
    (h : step lib storagePath w (.writeState i n) = some w') : Inv lib storagePath w' := by
  obtain ⟨saved, offset, rest, t, hphase, hput, rfl⟩ := writeState_cases h
  intro hall
  have hbefore : AllOpened w := by
    refine allOpened_of_put ?_ hall
    rw [hphase]
    exact True.intro
  obtain ⟨l, content, hlast, hwrites, hcontent, hagrees⟩ := hinv hbefore
  refine ⟨l, _, hlast, ?_, contentAt_putBytes hcontent hput, ?_⟩
  -- the call is the one that opened the file last, or its bytes spare the text
  · by_cases hl : l = i
    · subst hl
      rw [hphase] at hwrites
      rw [put_phase]
      exact writes_take n hwrites
    · rw [put_phase_ne hl]
      exact hwrites
  · by_cases hl : l = i
    · subst hl
      rw [hphase] at hwrites hagrees
      rw [put_phase]
      exact hagrees.extend (hwrites.1 ▸ List.take_prefix n rest)
    · rw [put_phase_ne hl]
      refine hagrees.spared ?_ (hok hbefore l hlast hl saved offset rest hphase)
      exact written_le hwrites

theorem Inv.closeState (hinv : Inv lib storagePath w) (h : step lib storagePath w (.closeState i) = some w') :
    Inv lib storagePath w' := by
  obtain ⟨saved, offset, hphase, rfl⟩ := closeState_cases h
  intro hall
  have hbefore : AllOpened w := by
    refine allOpened_of_put ?_ hall
    rw [hphase]
    exact True.intro
  obtain ⟨l, content, hlast, hwrites, hcontent, hagrees⟩ := hinv hbefore
  by_cases hl : l = i
  · subst hl
    rw [hphase] at hwrites hagrees
    -- nothing is left of its text
    have hend : offset = (w.text lib).length :=
      le_antisymm hwrites.2 (List.drop_eq_nil_iff.mp hwrites.1.symm)
    refine ⟨l, content, hlast, ?_, hcontent, ?_⟩
    · rw [put_phase]
      exact True.intro
    · rw [put_phase]
      rwa [hend] at hagrees
  · refine ⟨l, content, hlast, ?_, hcontent, ?_⟩
    · rw [put_phase_ne hl]
      exact hwrites
    · rw [put_phase_ne hl]
      exact hagrees

theorem Inv.step {label : Label ι} (hinv : Inv lib storagePath w) (hok : StepOk lib w label)
    (h : StateRaces.step lib storagePath w label = some w') : Inv lib storagePath w' := by
  rcases not_allOpened_of_step h with hnot | ⟨i, rfl⟩ | ⟨i, n, rfl⟩ | ⟨i, rfl⟩
  · exact fun hall => absurd hall hnot
  · exact Inv.openState hok h
  · exact hinv.writeState hok h
  · exact hinv.closeState h

end Steps

/-! ## Runs -/

/-- **When all calls have returned, the state file lists every file as it is, provided that the last call to open it
listed the index as it is and no other call's bytes got in its way.** -/
theorem state_listed_of_guarded [Nonempty ι] (lib : Library) (storagePath : List String) {w w' : World ι}
    {labels : List (Label ι)} (hcalled : ∀ i, w.phase i = .called)
    (hrun : exec (step lib storagePath) w labels = some w')
    (hok : Guarded (step lib storagePath) (StepOk lib) w labels) (hreturned : ∀ i, w'.phase i = .returned)
    (hjson : RoundTrips lib w'.mount) : StateListed lib storagePath w' := by
  have hstart : Inv lib storagePath w := fun hall => by
    obtain ⟨i⟩ := ‹Nonempty ι›
    have hopened := hall i
    rw [hcalled i] at hopened
    exact hopened.elim
  have hinv : Inv lib storagePath w' :=
    exec_invariant (fun s label s' h hstep hs' => h.step hstep hs') hstart hok hrun
  obtain ⟨l, content, -, -, hcontent, hagrees⟩ := hinv fun i => by
    rw [hreturned i]
    exact True.intro
  rw [hreturned l] at hagrees
  rw [hagrees.eq] at hcontent
  refine ⟨_, _, hcontent, hjson, fun key vfile hget => ?_⟩
  refine ⟨saveFile lib vfile, List.mem_map_of_mem ((OrderedDict.mem_values_iff _ _).mpr ⟨key, hget⟩), rfl, rfl, rfl⟩

/-! ## A call that runs alone -/

/-- The steps of a call whose bytes get to the files at once. -/
def aloneLabels (i : ι) (now n m : ℕ) : List (Label ι) :=
  [.change i now, .openChange i, .passChange i, .writeChange i n, .closeChange i, .list i, .openState i,
    .writeState i m, .closeState i]

section Alone
variable {lib : Library} {storagePath : List String} {w : World ι} {i : ι} {now : ℕ}

theorem write_ok_iff {t t' : FileTree} {p : List String} {content : Bytes} : t.write p content = .ok t' ↔
    t p ≠ some .directory ∧ t p.dropLast = some .directory ∧ t' = Function.update t p (some (.file content)) := by
  unfold FileTree.write
  split
  · next hdirectory => exact iff_of_false nofun fun h => h.1 hdirectory
  · next hfree =>
    split_ifs with hparent
    · exact ⟨fun h => ⟨hfree, hparent, (Except.ok.inj h).symm⟩, fun h => congrArg Except.ok h.2.2.symm⟩
    · exact iff_of_false nofun fun h => hparent h.2.1

theorem write_again {t t' : FileTree} {p : List String} {content : Bytes} (h : t.write p content = .ok t')
    (other : Bytes) : t.write p other = .ok (Function.update t p (some (.file other))) := by
  obtain ⟨hfree, hparent, -⟩ := write_ok_iff.mp h
  exact write_ok_iff.mpr ⟨hfree, hparent, rfl⟩

/-- What is in a file does not keep it from being written. -/
theorem write_over {t t' : FileTree} {p : List String} {content : Bytes} (h : t.write p content = .ok t')
    (old : Bytes) : FileTree.write (Function.update t p (some (.file old))) p content = .ok t' := by
  obtain ⟨hfree, hparent, rfl⟩ := write_ok_iff.mp h
  have hne : p.dropLast ≠ p := fun heq => hfree (heq ▸ hparent)
  refine write_ok_iff.mpr ⟨?_, ?_, (Function.update_idem ..).symm⟩
  · rw [Function.update_self]
    exact nofun
  · rw [Function.update_of_ne hne, hparent]

theorem store_ok {t t' : FileTree} {p : List String} {content : Bytes} (h : t.store p content = (.ok (), t')) :
    ∃ made, t.makeParents p = .ok made ∧ made.write p content = .ok t' := by
  unfold FileTree.store at h
  cases hmade : t.makeParents p with
  | error e =>
    rw [hmade] at h
    cases h
  | ok made =>
    rw [hmade] at h
    simp only at h
    cases hwrite : made.write p content with
    | error e =>
      rw [hwrite] at h
      cases h
    | ok written =>
      rw [hwrite] at h
      obtain ⟨-, rfl⟩ := Prod.mk.inj h
      exact ⟨made, rfl, hwrite⟩

/-- A file that was opened and then written at once. -/
theorem putBytes_opened (t : FileTree) (p : List String) (content : Bytes) :
    putBytes (Function.update t p (some (.file []))) p 0 content = some (Function.update t p (some (.file content))) := by
  unfold putBytes
  rw [contentAt_update_self, Option.map_some, writeAt_empty, Function.update_idem]

section Steps
variable {t : FileTree}

theorem step_change (hphase : w.phase i = .called) (hmade : w.disk.makeParents
    (changePath lib storagePath now w.state (w.calls i).path (w.calls i).content) = .ok t) :
    step lib storagePath w (.change i now) =
      some (w.put i (writtenMount lib now w.state (w.calls i).path (w.calls i).content) t w.last
        (.changed (changePath lib storagePath now w.state (w.calls i).path (w.calls i).content))) := by
  simp only [step, hphase, hmade]
  rfl

theorem step_openChange {change : List String} (hphase : w.phase i = .changed change)
    (hopen : w.disk.write change [] = .ok t) :
    step lib storagePath w (.openChange i) = some (w.put i w.mount t w.last (.changeOpen change)) := by
  simp only [step, hphase, hopen]
  rfl

theorem step_passChange {change : List String} {content : Bytes} (hphase : w.phase i = .changeOpen change)
    (hcontent : (w.mount.files.get? (normalizePath (w.calls i).path)).bind VirtualFile.content = some content) :
    step lib storagePath w (.passChange i) =
      some (w.put i w.mount w.disk w.last (.changeWriting change 0 content)) := by
  simp only [step, hphase, hcontent]
  rfl

theorem step_writeChange {change : List String} {offset : ℕ} {rest : Bytes}
    (hphase : w.phase i = .changeWriting change offset rest) (hput : putBytes w.disk change offset rest = some t) :
    step lib storagePath w (.writeChange i rest.length) =
      some (w.put i w.mount t w.last (.changeWriting change (offset + rest.length) [])) := by
  simp only [step, hphase, List.take_length, List.drop_length, hput]
  rfl

theorem step_closeChange {change : List String} {offset : ℕ} (hphase : w.phase i = .changeWriting change offset []) :
    step lib storagePath w (.closeChange i) = some (w.put i w.mount w.disk w.last .changeClosed) := by
  simp only [step, hphase]
  rfl

theorem step_list (hphase : w.phase i = .changeClosed)
    (hmade : w.disk.makeParents (stateFile storagePath w.mount) = .ok t) :
    step lib storagePath w (.list i) = some (w.put i w.mount t w.last (.listed (saveMount lib w.mount))) := by
  simp only [step, hphase, hmade]
  rfl

theorem step_openState {saved : SavedState} (hphase : w.phase i = .listed saved)
    (hopen : w.disk.write (stateFile storagePath w.mount) [] = .ok t) :
    step lib storagePath w (.openState i) =
      some (w.put i w.mount t (some i) (.stateWriting saved 0 (lib.dumps saved))) := by
  simp only [step, hphase, hopen]
  rfl

theorem step_writeState {saved : SavedState} {offset : ℕ} {rest : Bytes}
    (hphase : w.phase i = .stateWriting saved offset rest)
    (hput : putBytes w.disk (stateFile storagePath w.mount) offset rest = some t) :
    step lib storagePath w (.writeState i rest.length) =
      some (w.put i w.mount t w.last (.stateWriting saved (offset + rest.length) [])) := by
  simp only [step, hphase, List.take_length, List.drop_length, hput]
  rfl

theorem step_closeState {saved : SavedState} {offset : ℕ} (hphase : w.phase i = .stateWriting saved offset []) :
    step lib storagePath w (.closeState i) = some (w.put i w.mount w.disk w.last .returned) := by
  simp only [step, hphase]
  rfl

end Steps

/-- The disk on the way of a `write_file` that completes. -/
theorem writeFile_stages {s : State} {path : String} {content : Bytes} {vfile : VirtualFile}
    (h : (writeFile lib storagePath now s path content).1 = .ok vfile) : ∃ made written stated saved,
      s.disk.makeParents (changePath lib storagePath now s path content) = .ok made ∧
      made.write (changePath lib storagePath now s path content) content = .ok written ∧
      written.makeParents (stateFile storagePath s.mount) = .ok stated ∧
      stated.write (stateFile storagePath s.mount) (lib.dumps (saveMount lib (writtenMount lib now s path content))) = .ok saved ∧
      (writeFile lib storagePath now s path content).2 = ⟨writtenMount lib now s path content, saved⟩ := by
  rw [writeFile_eq] at h ⊢
  cases hchange : (storedChange lib storagePath now s path content).1 with
  | error e =>
    rw [hchange] at h
    cases h
  | ok u =>
    rw [hchange] at h
    simp only at h ⊢
    cases hstate : (storedState lib storagePath now s path content).1 with
    | error e =>
      rw [hstate] at h
      cases h
    | ok u =>
      obtain ⟨made, hmade, hwritten⟩ := store_ok (Prod.ext hchange rfl :
        s.disk.store (changePath lib storagePath now s path content) content = (.ok (), _))
      obtain ⟨stated, hstated, hsaved⟩ := store_ok (Prod.ext hstate rfl :
        (storedChange lib storagePath now s path content).2.store (stateFile storagePath s.mount)
          (lib.dumps (saveMount lib (writtenMount lib now s path content))) = (.ok (), _))
      exact ⟨made, _, stated, _, hmade, hwritten, hstated, hsaved, rfl⟩

variable (lib) in
omit [DecidableEq ι] in
/-- Nothing is asked of what the call writes that opened the state file last. -/
theorem stepOk_of_last (hlast : w.last = some i) (n : ℕ) : StepOk lib w (.writeState i n) :=
  fun _ _ hl hne => absurd (Option.some.inj (hl.symm.trans hlast)) hne

/-- A call that runs alone leaves what `write_file` leaves, and keeps to the condition. -/
theorem alone_run {vfile : VirtualFile} (hcalled : w.phase i = .called)
    (hwrite : (writeFile lib storagePath now w.state (w.calls i).path (w.calls i).content).1 = .ok vfile) :
    ∃ w', (exec (step lib storagePath) w (aloneLabels i now (w.calls i).content.length
        (lib.dumps (saveMount lib (writtenMount lib now w.state (w.calls i).path (w.calls i).content))).length) = some w' ∧
      Guarded (step lib storagePath) (StepOk lib) w (aloneLabels i now (w.calls i).content.length
        (lib.dumps (saveMount lib (writtenMount lib now w.state (w.calls i).path (w.calls i).content))).length)) ∧
      w'.state = (writeFile lib storagePath now w.state (w.calls i).path (w.calls i).content).2 ∧
      w'.calls = (w.goTo i .returned).calls := by
  obtain ⟨made, written, stated, saved, hmade, hchange, hstated, hsave, hresult⟩ := writeFile_stages hwrite
  have hentry : ((writtenMount lib now w.state (w.calls i).path (w.calls i).content).files.get?
      (normalizePath (w.calls i).path)).bind VirtualFile.content = some (w.calls i).content := by
    unfold writtenMount
    simp only [OrderedDict.get?_set_self, Option.bind_some]
    unfold writtenFile
    split <;> rfl
  obtain rfl := FileTree.write_ok hchange
  obtain rfl := FileTree.write_ok hsave
  have hlisted : step lib storagePath w (.change i now) = some _ := step_change hcalled hmade
  have hfile : stateFile storagePath (writtenMount lib now w.state (w.calls i).path (w.calls i).content) =
      stateFile storagePath w.state.mount := rfl
  generalize writtenMount lib now w.state (w.calls i).path (w.calls i).content = mount at *
  rw [← hfile] at hstated hsave hresult
  refine ⟨w.put i mount _ (some i) .returned, ?_, hresult.symm, rfl⟩
  refine exec_guarded_cons hlisted True.intro ?_
  refine exec_guarded_cons (step_openChange put_phase (write_again hchange [])) True.intro ?_
  rw [put_put]
  refine exec_guarded_cons (step_passChange put_phase (by rw [put_mount, put_path]; exact hentry)) True.intro ?_
  rw [put_put]
  refine exec_guarded_cons (step_writeChange put_phase (putBytes_opened ..)) True.intro ?_
  rw [put_put]
  refine exec_guarded_cons (step_closeChange put_phase) True.intro ?_
  rw [put_put]
  refine exec_guarded_cons (step_list put_phase hstated) True.intro ?_
  rw [put_put]
  refine exec_guarded_cons (step_openState put_phase (write_again hsave [])) ?_ ?_
  · intro _ listed hlisted
    rw [put_phase] at hlisted
    cases hlisted
    rfl
  rw [put_put]
  refine exec_guarded_cons (step_writeState put_phase (putBytes_opened ..)) (stepOk_of_last lib rfl _) ?_
  rw [put_put]
  refine exec_guarded_cons (step_closeState put_phase) True.intro ?_
  rw [put_put]
  exact ⟨rfl, True.intro⟩

/-- A call that opened the state file writes all it has left, and closes it. -/
theorem finish_run {saved : SavedState} {offset : ℕ} {rest content : Bytes}
    (hphase : w.phase i = .stateWriting saved offset rest)
    (hcontent : w.disk.contentAt (stateFile storagePath w.mount) = some content)
    (hok : StepOk lib w (.writeState i rest.length)) :
    exec (step lib storagePath) w [.writeState i rest.length, .closeState i] =
        some (w.put i w.mount (Function.update w.disk (stateFile storagePath w.mount)
          (some (.file (writeAt 0 content offset rest)))) w.last .returned) ∧
      Guarded (step lib storagePath) (StepOk lib) w [.writeState i rest.length, .closeState i] := by
  have hput : putBytes w.disk (stateFile storagePath w.mount) offset rest =
      some (Function.update w.disk (stateFile storagePath w.mount) (some (.file (writeAt 0 content offset rest)))) := by
    unfold putBytes
    rw [hcontent, Option.map_some]
  refine exec_guarded_cons (step_writeState hphase hput) hok ?_
  refine exec_guarded_cons (step_closeState put_phase) True.intro ?_
  rw [put_put]
  exact ⟨rfl, True.intro⟩

end Alone

/-! ## A call that is overtaken -/

section Overtaken
variable {lib : Library} {storagePath : List String} {w : World ι} {i j : ι}

/-- Both calls open the state file, the older listing is written and closed, then the newer one. -/
def overtakenLabels (i j : ι) (n m : ℕ) : List (Label ι) :=
  [.openState i, .openState j] ++ ([.writeState i n, .closeState i] ++ [.writeState j m, .closeState j])

theorem opened_run (hij : i ≠ j) {old : SavedState} {t : FileTree} (hold : w.phase i = .listed old)
    (hnew : w.phase j = .listed (saveMount lib w.mount))
    (hopen : w.disk.write (stateFile storagePath w.mount) [] = .ok t) :
    ∃ w', (exec (step lib storagePath) w [.openState i, .openState j] = some w' ∧
        Guarded (step lib storagePath) (StepOk lib) w [.openState i, .openState j]) ∧
      w'.mount = w.mount ∧ w'.last = some j ∧ w'.disk.contentAt (stateFile storagePath w.mount) = some [] ∧
      w'.phase i = .stateWriting old 0 (lib.dumps old) ∧
      w'.phase j = .stateWriting (saveMount lib w.mount) 0 (w.text lib) := by
  have hreopen : t.write (stateFile storagePath w.mount) [] = .ok t := by
    obtain rfl := FileTree.write_ok hopen
    exact write_over hopen []
  have hempty : t.contentAt (stateFile storagePath w.mount) = some [] := by
    rw [FileTree.write_ok hopen]
    exact contentAt_update_self _ _ _
  refine ⟨(w.put i w.mount t (some i) (.stateWriting old 0 (lib.dumps old))).put j w.mount t (some j)
    (.stateWriting (saveMount lib w.mount) 0 (w.text lib)), ?_, rfl, rfl, hempty, (put_phase_ne hij).trans put_phase,
    put_phase⟩
  refine exec_guarded_cons (step_openState hold hopen) ?_ ?_
  · intro hothers
    have hopened := hothers j hij.symm
    rw [hnew] at hopened
    exact hopened.elim
  refine exec_guarded_cons (step_openState ((put_phase_ne hij.symm).trans hnew) hreopen) ?_ ?_
  · intro _ saved hsaved
    rw [put_phase_ne hij.symm, hnew] at hsaved
    exact (Phase.listed.inj hsaved).symm
  exact ⟨rfl, True.intro⟩

/-- An older listing that is no longer than the newer one, and gets to the file before it, keeps to the condition. -/
theorem overtaken_run (hij : i ≠ j) {old : SavedState} {t : FileTree} (hold : w.phase i = .listed old)
    (hnew : w.phase j = .listed (saveMount lib w.mount))
    (hopen : w.disk.write (stateFile storagePath w.mount) [] = .ok t)
    (hshort : (lib.dumps old).length ≤ (w.text lib).length) :
    ∃ w', (exec (step lib storagePath) w (overtakenLabels i j (lib.dumps old).length (w.text lib).length) = some w' ∧
      Guarded (step lib storagePath) (StepOk lib) w
        (overtakenLabels i j (lib.dumps old).length (w.text lib).length)) ∧
      w'.mount = w.mount ∧ w'.phase i = .returned ∧ w'.phase j = .returned := by
  obtain ⟨w₁, hopened, hmount, hlast, hempty, hfirst, hsecond⟩ := opened_run hij hold hnew hopen
  rw [← hmount] at hempty
  have htext : w₁.text lib = w.text lib := by
    unfold World.text
    rw [hmount]
  -- the call that opened the file last has written nothing yet
  have hspares : StepOk lib w₁ (.writeState i (lib.dumps old).length) := by
    intro _ l hl _ saved offset rest hrest
    obtain rfl : j = l := Option.some.inj (hlast.symm.trans hl)
    obtain ⟨rfl, rfl, rfl⟩ := Phase.stateWriting.inj (hfirst.symm.trans hrest)
    rw [hsecond, htext]
    intro k hk
    rw [List.take_length] at hk
    rw [Nat.zero_add]
    exact ⟨hk.trans_le hshort, fun hwritten => absurd hwritten (Nat.not_lt_zero k)⟩
  have hfinished := finish_run hfirst hempty hspares
  have hcontent := contentAt_update_self w₁.disk (stateFile storagePath w₁.mount) (writeAt 0 [] 0 (lib.dumps old))
  generalize Function.update w₁.disk _ _ = disk at hfinished hcontent
  generalize hw₂ : w₁.put i w₁.mount disk w₁.last .returned = w₂ at hfinished
  obtain ⟨hfirst₂, hsecond₂, hlast₂, hmount₂⟩ : w₂.phase i = .returned ∧
      w₂.phase j = .stateWriting (saveMount lib w.mount) 0 (w.text lib) ∧ w₂.last = some j ∧ w₂.mount = w₁.mount := by
    rw [← hw₂]
    exact ⟨put_phase, (put_phase_ne hij.symm).trans hsecond, hlast, rfl⟩
  have hcontent₂ : w₂.disk.contentAt (stateFile storagePath w₂.mount) = some (writeAt 0 [] 0 (lib.dumps old)) := by
    rw [← hw₂]
    exact hcontent
  have hlastCall := finish_run hsecond₂ hcontent₂ (stepOk_of_last lib hlast₂ _)
  refine ⟨_, exec_guarded_append hopened (exec_guarded_append hfinished hlastCall), hmount₂.trans hmount, ?_, put_phase⟩
  rw [put_phase_ne hij, hfirst₂]

variable (lib storagePath) in
/-- A call that has listed the state writes it, whatever the index is by then. -/
theorem exec_write_listed {saved : SavedState} {t : FileTree} (hphase : w.phase i = .listed saved)
    (hopen : w.disk.write (stateFile storagePath w.mount) [] = .ok t) :
    exec (step lib storagePath) w [.openState i, .writeState i (lib.dumps saved).length, .closeState i] =
      some (w.put i w.mount (Function.update w.disk (stateFile storagePath w.mount) (some (.file (lib.dumps saved))))
        (some i) .returned) := by
  obtain rfl := FileTree.write_ok hopen
  refine (exec_cons_eq_some _).mpr ⟨_, step_openState hphase hopen, ?_⟩
  refine (exec_cons_eq_some _).mpr ⟨_, step_writeState put_phase (putBytes_opened ..), ?_⟩
  rw [put_put]
  refine (exec_cons_eq_some _).mpr ⟨_, step_closeState put_phase, ?_⟩
  rw [put_put]
  rfl

end Overtaken

/-! ## Two writers of the note's repository -/

/-- The calls at their start. -/
def noteWorld (paths : ι → String) : World ι where
  mount := noteMount.mount
  disk := noteMount.disk
  calls i := ⟨paths i, byeBytes, .called⟩
  last := none

/-- The state of the index with the note modified and a file added. -/
def savedBoth : SavedState :=
  { savedNote .modified with
    files := (savedNote .modified).files ++
      [⟨"todo.txt", "abc6fd595fc079d3", 4, "added", none, "1970-01-01T00:00:01"⟩] }

def bothTextEnd : String :=
  "\",\n      \"head_sha\": \"45b983be36b73c0788dc9cbcb76cbb80fc7bb057\",\n" ++
    "      \"modified_at\": \"1970-01-01T00:00:00\"\n    \x7d,\n    \x7b\n" ++
    "      \"path\": \"todo.txt\",\n      \"sha\": \"abc6fd595fc079d3\",\n      \"size\": 4,\n" ++
    "      \"status\": \"added\",\n      \"head_sha\": null,\n" ++
    "      \"modified_at\": \"1970-01-01T00:00:01\"\n    \x7d\n  ],\n" ++
    "  \"last_sync\": \"1970-01-01T00:00:00\"\n\x7d"

def bothText : Bytes :=
  (noteTextStart ++ "modified" ++ bothTextEnd).toList.map fun c => UInt8.ofNat c.toNat

theorem noteText_shorter : (noteText .modified).length < bothText.length := by
  have hends : noteTextEnd.length < bothTextEnd.length := by decide +kernel
  unfold noteText bothText
  simp only [List.length_map, String.length_toList, String.length_append, FileStatus.value]
  omega

def bothTable : List (SavedState × Bytes) := [(savedNote .modified, noteText .modified), (savedBoth, bothText)]

theorem bothTable_states : (bothTable.map Prod.fst).Nodup := by
  have hne : savedNote .modified ≠ savedBoth := by decide
  simp [bothTable, hne]

theorem bothTable_texts : (bothTable.map Prod.snd).Nodup := by
  have hne : noteText .modified ≠ bothText := fun h => Nat.ne_of_lt noteText_shorter (congrArg List.length h)
  simp [bothTable, hne]

def bothJson : Library := tableLibrary noteDigest noteLibrary.sha256Hex_length bothTable

theorem bothJson_dumps {saved : SavedState} {text : Bytes} (hmem : (saved, text) ∈ bothTable) :
    bothJson.dumps saved = text :=
  tableLibrary_dumps _ _ bothTable_states hmem

theorem bothJson_roundTrips {mount : SessionMount} (text : Bytes) (hmem : (saveMount bothJson mount, text) ∈ bothTable) :
    RoundTrips bothJson mount :=
  tableLibrary_roundTrips _ _ bothTable_states bothTable_texts hmem

/-- Both calls write their file and list the state. -/
def crossingLabels : List (Label (Fin 2)) :=
  [.change 0 0, .openChange 0, .passChange 0, .writeChange 0 4, .closeChange 0, .list 0, .change 1 1, .openChange 1,
    .passChange 1, .writeChange 1 4, .closeChange 1, .list 1]

def crossingWorld : World (Fin 2) := noteWorld fun i => if i = 0 then "note.txt" else "todo.txt"

theorem crossing_listed : (exec (step bothJson noteStorage) crossingWorld crossingLabels).map (fun w =>
    ((saveMount bothJson w.mount, w.phase 0, w.phase 1),
      (w.mount.files.get? "todo.txt").map VirtualFile.path, stateFile noteStorage w.mount)) =
    some ((savedBoth, .listed (savedNote .modified), .listed savedBoth), some "todo.txt",
      ["srv", "gvfs_metadata", "sessions", "s1", "vfs_state.json"]) := by
  decide +kernel

theorem crossing_opens : (exec (step bothJson noteStorage) crossingWorld crossingLabels).map (fun w =>
    (w.disk.write ["srv", "gvfs_metadata", "sessions", "s1", "vfs_state.json"] []).toOption.isSome) = some true := by
  decide +kernel

/-- Both calls have listed the state: the first one without the file of the second one. -/
structure Crossed (w : World (Fin 2)) : Prop where
  reached : exec (step bothJson noteStorage) crossingWorld crossingLabels = some w
  saved : saveMount bothJson w.mount = savedBoth
  older : w.phase 0 = .listed (savedNote .modified)
  newer : w.phase 1 = .listed savedBoth
  added : ∃ vfile, w.mount.files.get? "todo.txt" = some vfile ∧ vfile.path = "todo.txt"
  opens : ∃ t, w.disk.write (stateFile noteStorage w.mount) [] = .ok t

theorem crossed : ∃ w, Crossed w := by
  obtain ⟨w, hrun, hends⟩ := Option.map_eq_some_iff.mp crossing_listed
  simp only [Prod.mk.injEq] at hends
  obtain ⟨⟨hsaved, hfirst, hsecond⟩, hadded, hfile⟩ := hends
  have hopen : (w.disk.write (stateFile noteStorage w.mount) []).toOption.isSome := by
    have hopens := crossing_opens
    rw [hrun, Option.map_some, ← hfile] at hopens
    exact Option.some.inj hopens
  obtain ⟨t, ht⟩ := Option.isSome_iff_exists.mp hopen
  exact ⟨w, hrun, hsaved, hfirst, hsecond, Option.map_eq_some_iff.mp hadded, t, eq_ok_of_toOption ht⟩

theorem Crossed.roundTrips {w : World (Fin 2)} (h : Crossed w) : RoundTrips bothJson w.mount := by
  refine bothJson_roundTrips bothText ?_
  rw [h.saved]
  exact List.mem_cons_of_mem _ List.mem_cons_self

/-- The first call opens the state file, the second one opens it again, and the older listing gets there before the
newer one: both files are listed. -/
theorem overtaken_note_listed : ∃ w', exec (step bothJson noteStorage) crossingWorld (crossingLabels ++
      overtakenLabels 0 1 (bothJson.dumps (savedNote .modified)).length (bothJson.dumps savedBoth).length) = some w' ∧
    StateListed bothJson noteStorage w' := by
  obtain ⟨w, h⟩ := crossed
  obtain ⟨t, hopen⟩ := h.opens
  have htext : w.text bothJson = bothJson.dumps savedBoth := congrArg bothJson.dumps h.saved
  have hshort : (bothJson.dumps (savedNote .modified)).length ≤ (w.text bothJson).length := by
    rw [htext, bothJson_dumps List.mem_cons_self, bothJson_dumps (List.mem_cons_of_mem _ List.mem_cons_self)]
    exact noteText_shorter.le
  -- up to the listings nothing is asked of a step
  have hfree : ∀ label ∈ crossingLabels, ∀ w, StepOk bothJson w label := by
    unfold crossingLabels
    simp [StepOk]
  have hbefore : Guarded (step bothJson noteStorage) (StepOk bothJson) crossingWorld crossingLabels :=
    @Guarded.imp_of_invariant _ _ _ _ _ (fun _ => True) (fun _ _ _ _ _ _ => True.intro) (fun w _ _ hok => hok w) _ _
      True.intro (guarded_of_forall hfree crossingWorld)
  have hnew : w.phase 1 = .listed (saveMount bothJson w.mount) := h.saved.symm ▸ h.newer
  obtain ⟨w', hrun, hmount, hfirst, hsecond⟩ := overtaken_run (by decide) h.older hnew hopen hshort
  rw [htext] at hrun
  obtain ⟨hall, hok⟩ := exec_guarded_append ⟨h.reached, hbefore⟩ hrun
  exact ⟨w', hall, state_listed_of_guarded bothJson noteStorage (fun _ => rfl) hall hok
    (Fin.forall_fin_two.mpr ⟨hfirst, hsecond⟩) (hmount ▸ h.roundTrips)⟩

/-- Writes that cross leave a state file that does not list the file that was added. -/
theorem crossing_writes_not_listed : ¬ ∀ (n : ℕ) (lib : Library) (storagePath : List String) (w w' : World (Fin (n + 1)))
    (labels : List (Label (Fin (n + 1)))), (∀ i, w.phase i = .called) →
    exec (step lib storagePath) w labels = some w' → (∀ i, w'.phase i = .returned) → RoundTrips lib w'.mount →
    StateListed lib storagePath w' := by
  intro h
  obtain ⟨w, hcrossed⟩ := crossed
  obtain ⟨vfile, hvfile, hpath⟩ := hcrossed.added
  obtain ⟨t, hopened⟩ := hcrossed.opens
  -- the second call writes what it listed, and after it the first
  have hnewer := exec_write_listed bothJson noteStorage hcrossed.newer hopened
  generalize hw₁ : w.put 1 w.mount (Function.update w.disk (stateFile noteStorage w.mount)
    (some (.file (bothJson.dumps savedBoth)))) (some 1) .returned = w₁ at hnewer
  have hmount : w₁.mount = w.mount := by
    rw [← hw₁]
    rfl
  have hfirst₁ : w₁.phase 0 = .listed (savedNote .modified) := by
    rw [← hw₁, put_phase_ne (by decide)]
    exact hcrossed.older
  have hreopen : w₁.disk.write (stateFile noteStorage w₁.mount) [] = .ok t := by
    rw [← hw₁]
    exact write_over hopened _
  have holder := exec_write_listed bothJson noteStorage hfirst₁ hreopen
  have hreturned : ∀ i : Fin 2, (w₁.put 0 w₁.mount (Function.update w₁.disk (stateFile noteStorage w₁.mount)
      (some (.file (bothJson.dumps (savedNote .modified))))) (some 0) .returned).phase i = .returned := by
    refine Fin.forall_fin_two.mpr ⟨put_phase, ?_⟩
    rw [put_phase_ne (by decide), ← hw₁, put_phase]
  have hwritten : saveMount bothJson writtenNote.mount = savedNote .modified := by decide +kernel
  have hnote : RoundTrips bothJson writtenNote.mount := by
    refine bothJson_roundTrips (noteText .modified) ?_
    rw [hwritten]
    exact List.mem_cons_self
  obtain ⟨text, saved, htext, hloads, hlisted⟩ := h 1 bothJson noteStorage crossingWorld _ _ (fun _ => rfl)
    (exec_trans hcrossed.reached (exec_trans hnewer holder)) hreturned (hmount ▸ hcrossed.roundTrips)
  -- the state that is there is the one from before the file was added
  obtain rfl : bothJson.dumps (savedNote .modified) = text :=
    Option.some.inj ((contentAt_update_self _ _ _).symm.trans htext)
  unfold RoundTrips at hnote
  rw [hwritten, hloads] at hnote
  obtain rfl := Except.ok.inj hnote
  obtain ⟨f, hf, hname, -⟩ := hlisted "todo.txt" vfile (by rw [put_mount, hmount]; exact hvfile)
  rw [List.mem_singleton.mp hf, hpath] at hname
  exact absurd hname (by decide)

end KernelRuntime.StateRaces
