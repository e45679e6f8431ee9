import Mathlib.Data.Option.Basic
import Mathlib.Data.List.Basic
import Mathlib.Tactic.Common

/-! # Runs of partial labelled steps

A system is a step function `σ → ι → Option σ`: `none` when the label is not enabled. `exec` runs
a list of labels. `Guarded ok` says that every label of a run meets a condition in the state it is
taken from; `exec_invariant` is the induction over such a run, done once. -/

namespace KernelRuntime
set_option autoImplicit false

section Execution
variable {σ ι : Type*} (step : σ → ι → Option σ)

/-- Execute the labels in order; `none` as soon as one is not enabled. -/
def exec (s : σ) : List ι → Option σ
  | [] => some s
  | i :: is => (step s i).bind fun s' => exec s' is

@[simp] theorem exec_nil (s : σ) : exec step s [] = some s := rfl

theorem exec_cons (s : σ) (i : ι) (is : List ι) :
    exec step s (i :: is) = (step s i).bind fun s' => exec step s' is := rfl

theorem exec_cons_eq_some {s t : σ} {i : ι} {is : List ι} :
    exec step s (i :: is) = some t ↔ ∃ s', step s i = some s' ∧ exec step s' is = some t := by
  rw [exec_cons, Option.bind_eq_some_iff]

theorem exec_append (s : σ) (is js : List ι) :
    exec step s (is ++ js) = (exec step s is).bind fun s' => exec step s' js := by
  induction is generalizing s with
  | nil => rfl
  | cons i is ih =>
    rw [List.cons_append, exec_cons, exec_cons]
    cases h : step s i with
    | none => rfl
    | some s' => simpa using ih s'

theorem exec_concat_eq_some {s t : σ} {is : List ι} {i : ι} :
    exec step s (is ++ [i]) = some t ↔ ∃ s', exec step s is = some s' ∧ step s' i = some t := by
  rw [exec_append, Option.bind_eq_some_iff]
  simp [exec_cons]

/-- Every label of the run meets `ok` in the state it is taken from. -/
def Guarded (ok : σ → ι → Prop) (s : σ) : List ι → Prop
  | [] => True
  | i :: is => ok s i ∧ ∀ s', step s i = some s' → Guarded ok s' is

/-- A run can be checked step by step. -/
instance Guarded.decidable (ok : σ → ι → Prop) [∀ s i, Decidable (ok s i)] :
    (s : σ) → (is : List ι) → Decidable (Guarded step ok s is)
  | _, [] => isTrue True.intro
  | s, i :: is =>
    match hs : step s i with
    | none => decidable_of_iff (ok s i) ⟨fun h => ⟨h, fun s' hs' => by rw [hs] at hs'; cases hs'⟩, fun h => h.1⟩
    | some s' =>
      have := Guarded.decidable ok s' is
      decidable_of_iff (ok s i ∧ Guarded step ok s' is)
        ⟨fun h => ⟨h.1, fun t ht => by rw [hs] at ht; cases ht; exact h.2⟩, fun h => ⟨h.1, h.2 s' hs⟩⟩

theorem Guarded.trivial (s : σ) (is : List ι) : Guarded step (fun _ _ => True) s is := by
  induction is generalizing s with
  | nil => exact True.intro
  | cons i is ih => exact ⟨True.intro, fun s' _ => ih s'⟩

variable {step}

theorem exec_trans {s t u : σ} {is js : List ι} (hs : exec step s is = some t) (ht : exec step t js = some u) :
    exec step s (is ++ js) = some u := by
  rw [exec_append, hs, Option.bind_some, ht]

theorem Guarded.of_append {ok : σ → ι → Prop} {s : σ} {is js : List ι}
    (h : Guarded step ok s (is ++ js)) : Guarded step ok s is := by
  induction is generalizing s with
  | nil => exact True.intro
  | cons i is ih => exact ⟨h.1, fun s' hs' => ih (h.2 s' hs')⟩

/-- The rest of a guarded run is guarded. -/
theorem Guarded.append_right {ok : σ → ι → Prop} {s t : σ} {is js : List ι}
    (h : Guarded step ok s (is ++ js)) (hrun : exec step s is = some t) : Guarded step ok t js := by
  induction is generalizing s with
  | nil =>
    cases hrun
    exact h
  | cons i is ih =>
    obtain ⟨s', hs', hrun'⟩ := (exec_cons_eq_some step).mp hrun
    exact ih (h.2 s' hs') hrun'

theorem Guarded.last {ok : σ → ι → Prop} {s t : σ} {is : List ι} {i : ι}
    (h : Guarded step ok s (is ++ [i])) (hrun : exec step s is = some t) : ok t i :=
  (h.append_right hrun).1

/-- A step and a run after it, with the condition of the run. -/
theorem exec_guarded_cons {ok : σ → ι → Prop} {s s' t : σ} {i : ι} {is : List ι} (hstep : step s i = some s')
    (hok : ok s i) (hrest : exec step s' is = some t ∧ Guarded step ok s' is) :
    exec step s (i :: is) = some t ∧ Guarded step ok s (i :: is) := by
  refine ⟨(exec_cons_eq_some step).mpr ⟨s', hstep, hrest.1⟩, hok, fun u hu => ?_⟩
  obtain rfl : s' = u := Option.some.inj (hstep.symm.trans hu)
  exact hrest.2

theorem exec_guarded_append {ok : σ → ι → Prop} {s t u : σ} {is js : List ι}
    (h : exec step s is = some t ∧ Guarded step ok s is) (hrest : exec step t js = some u ∧ Guarded step ok t js) :
    exec step s (is ++ js) = some u ∧ Guarded step ok s (is ++ js) := by
  refine ⟨exec_trans h.1 hrest.1, ?_⟩
  obtain ⟨hrun, hok⟩ := h
  induction is generalizing s with
  | nil =>
    cases hrun
    exact hrest.2
  | cons i is ih =>
    refine ⟨hok.1, fun s' hs' => ih ?_ (hok.2 s' hs')⟩
    rwa [exec_cons, hs', Option.bind_some] at hrun

/-- An invariant that every guarded step keeps holds at the end of every guarded run. -/
theorem exec_invariant {ok : σ → ι → Prop} {Inv : σ → Prop}
    (hstep : ∀ s i s', Inv s → ok s i → step s i = some s' → Inv s')
    {s t : σ} {is : List ι} (hs : Inv s) (hok : Guarded step ok s is)
    (hrun : exec step s is = some t) : Inv t := by
  induction is generalizing s with
  | nil =>
    rw [exec_nil, Option.some.injEq] at hrun
    exact hrun ▸ hs
  | cons i is ih =>
    obtain ⟨s', hs', hrun'⟩ := (exec_cons_eq_some step).mp hrun
    exact ih (hstep s i s' hs hok.1 hs') (hok.2 s' hs') hrun'

/-- A condition that follows from another one and an invariant of its runs. -/
theorem Guarded.imp_of_invariant {ok ok' : σ → ι → Prop} {Inv : σ → Prop}
    (hstep : ∀ s i s', Inv s → ok s i → step s i = some s' → Inv s')
    (himp : ∀ s i, Inv s → ok s i → ok' s i) {s : σ} {is : List ι} (hs : Inv s)
    (h : Guarded step ok s is) : Guarded step ok' s is := by
  induction is generalizing s with
  | nil => exact True.intro
  | cons i is ih =>
    exact ⟨himp s i hs h.1, fun s' hs' => ih (hstep s i s' hs h.1 hs') (h.2 s' hs')⟩

/-- The unguarded form: an invariant of every step holds in every reachable state. -/
theorem exec_invariant_all {Inv : σ → Prop} (hstep : ∀ s i s', Inv s → step s i = some s' → Inv s')
    {s t : σ} {is : List ι} (hs : Inv s) (hrun : exec step s is = some t) : Inv t :=
  exec_invariant (fun s i s' h _ => hstep s i s' h) hs (Guarded.trivial step s is) hrun

/-- The sum of a quantity over the steps of a run. -/
def tally (step : σ → ι → Option σ) (count : σ → ι → ℕ) (s : σ) : List ι → ℕ
  | [] => 0
  | i :: is => count s i + match step s i with
    | some s' => tally step count s' is
    | none => 0

/-- An invariant about what was counted so far. -/
theorem exec_tally {ok : σ → ι → Prop} {count : σ → ι → ℕ} {Inv : ℕ → σ → Prop}
    (hstep : ∀ n s i s', Inv n s → ok s i → step s i = some s' → Inv (n + count s i) s')
    {n : ℕ} {s t : σ} {is : List ι} (hs : Inv n s) (hok : Guarded step ok s is)
    (hrun : exec step s is = some t) : Inv (n + tally step count s is) t := by
  induction is generalizing n s with
  | nil =>
    rw [exec_nil, Option.some.injEq] at hrun
    exact hrun ▸ hs
  | cons i is ih =>
    obtain ⟨s', hs', hrun'⟩ := (exec_cons_eq_some step).mp hrun
    unfold tally
    rw [hs', ← Nat.add_assoc]
    exact ih (hstep n s i s' hs hok.1 hs') (hok.2 s' hs') hrun'

/-- What the steps of a run are recorded as. -/
def trace {ε : Type*} (step : σ → ι → Option σ) (record : σ → ι → Option ε) (s : σ) : List ι → List ε
  | [] => []
  | i :: is => (record s i).toList ++ match step s i with
    | some s' => trace step record s' is
    | none => []

/-- An invariant about what was recorded so far. -/
theorem exec_trace {ε : Type*} {ok : σ → ι → Prop} {record : σ → ι → Option ε} {Inv : List ε → σ → Prop}
    (hstep : ∀ es s i s', Inv es s → ok s i → step s i = some s' → Inv (es ++ (record s i).toList) s')
    {es : List ε} {s t : σ} {is : List ι} (hs : Inv es s) (hok : Guarded step ok s is)
    (hrun : exec step s is = some t) : Inv (es ++ trace step record s is) t := by
  induction is generalizing es s with
  | nil =>
    rw [exec_nil, Option.some.injEq] at hrun
    unfold trace
    rw [List.append_nil]
    exact hrun ▸ hs
  | cons i is ih =>
    obtain ⟨s', hs', hrun'⟩ := (exec_cons_eq_some step).mp hrun
    unfold trace
    rw [hs', ← List.append_assoc]
    exact ih (hstep es s i s' hs hok.1 hs') (hok.2 s' hs') hrun'

/-- A condition on labels alone. -/
theorem guarded_of_forall {ok : ι → Prop} {is : List ι} (h : ∀ i ∈ is, ok i) (s : σ) :
    Guarded step (fun _ i => ok i) s is := by
  induction is generalizing s with
  | nil => exact True.intro
  | cons i is ih =>
    exact ⟨h i List.mem_cons_self, fun s' _ => ih (fun j hj => h j (List.mem_cons_of_mem _ hj)) s'⟩

/-- When every other step is enabled and breaks the property, it holds throughout exactly the guarded
runs. `Inv` is what every step keeps and the argument rests on. -/
theorem always_iff_guarded {ok : σ → ι → Prop} {Inv P : σ → Prop}
    (hinv : ∀ s i s', Inv s → step s i = some s' → Inv s')
    (hstep : ∀ s i s', Inv s → P s → ok s i → step s i = some s' → P s')
    (hbad : ∀ s i, Inv s → P s → ¬ ok s i → ∃ s', step s i = some s' ∧ ¬ P s') {s : σ} (hs : Inv s)
    (hp : P s) (is : List ι) :
    (∀ js ks t, is = js ++ ks → exec step s js = some t → P t) ↔ Guarded step ok s is := by
  constructor
  · intro h
    induction is generalizing s with
    | nil => exact True.intro
    | cons i is ih =>
      refine ⟨?_, ?_⟩
      · by_contra hi
        obtain ⟨s', hs', hbroken⟩ := hbad s i hs hp hi
        have hrun : exec step s [i] = some s' := (exec_cons_eq_some step).mpr ⟨s', hs', rfl⟩
        exact hbroken (h [i] is s' rfl hrun)
      · intro s' hs'
        have hfirst := h [i] is s' rfl ((exec_cons_eq_some step).mpr ⟨s', hs', rfl⟩)
        refine ih (hinv s i s' hs hs') hfirst fun js ks t his hrun => ?_
        exact h (i :: js) ks t (by rw [his, List.cons_append])
          ((exec_cons_eq_some step).mpr ⟨s', hs', hrun⟩)
  · intro h js ks t his hrun
    rw [his] at h
    have hboth : Inv t ∧ P t := by
      have hkeep : ∀ s i s', Inv s ∧ P s → ok s i → step s i = some s' → Inv s' ∧ P s' :=
        fun s i s' hs hok hi => ⟨hinv s i s' hs.1 hi, hstep s i s' hs.1 hs.2 hok hi⟩
      exact exec_invariant hkeep ⟨hs, hp⟩ h.of_append hrun
    exact hboth.2

/-- A law of single steps holds of every step of a run exactly when the run is guarded, where the guard says
when a step obeys the law. `Inv` is what the steps that obey it keep. -/
theorem every_step_iff_guarded {ok : σ → ι → Prop} {Inv : σ → Prop} {Good : σ → ι → σ → Prop}
    (hinv : ∀ s i s', Inv s → Good s i s' → step s i = some s' → Inv s')
    (hgood : ∀ s i, Inv s → ((∀ s', step s i = some s' → Good s i s') ↔ ok s i)) {s : σ} (hs : Inv s)
    (is : List ι) :
    (∀ js i ks t t', is = js ++ i :: ks → exec step s js = some t → step t i = some t' → Good t i t') ↔
      Guarded step ok s is := by
  constructor
  · intro h
    induction is generalizing s with
    | nil => exact True.intro
    | cons i is ih =>
      have hfirst : ∀ s', step s i = some s' → Good s i s' := fun s' hs' => h [] i is s s' rfl rfl hs'
      refine ⟨(hgood s i hs).mp hfirst, fun s' hs' => ?_⟩
      refine ih (hinv s i s' hs (hfirst s' hs') hs') fun js j ks t t' his hrun ht => ?_
      exact h (i :: js) j ks t t' (by rw [his, List.cons_append]) ((exec_cons_eq_some step).mpr ⟨s', hs', hrun⟩) ht
  · intro h js i ks t t' his hrun ht
    rw [his, List.append_cons] at h
    have hkeep : ∀ s i s', Inv s → ok s i → step s i = some s' → Inv s' :=
      fun s i s' hs hok hs' => hinv s i s' hs ((hgood s i hs).mpr hok s' hs') hs'
    have ht' : Inv t := exec_invariant hkeep hs h.of_append.of_append hrun
    exact (hgood t i ht').mpr (h.of_append.last hrun) t' ht

end Execution
end KernelRuntime
