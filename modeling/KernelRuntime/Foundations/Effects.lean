import Mathlib.Tactic.Common

/-! # Computations with a state and exceptions

Rules for `EStateM`, whose state survives an exception. `finalState` is the state a computation
leaves, whether it returns or raises. `Preserves R` says that it relates to the state before by
`R`; for a reflexive and transitive `R` it passes through sequencing, `try`, and loops. `Ends` is
the finer judgement with one postcondition for returning and one for raising. -/

namespace KernelRuntime
set_option autoImplicit false

section Effects
variable {ε σ α β : Type}

/-- The state that a computation leaves. -/
def finalState (m : EStateM ε σ α) (s : σ) : σ :=
  match m s with
  | .ok _ s' => s'
  | .error _ s' => s'

/-- What a computation returns, without its state. -/
def outcome (m : EStateM ε σ α) (s : σ) : Except ε α :=
  match m s with
  | .ok a _ => .ok a
  | .error e _ => .error e

theorem run_eq_ok {m : EStateM ε σ α} {s s' : σ} {a : α} (h : m s = .ok a s') :
    finalState m s = s' ∧ outcome m s = .ok a := by
  simp [finalState, outcome, h]

theorem bind_run (m : EStateM ε σ α) (f : α → EStateM ε σ β) (s : σ) :
    (m >>= f) s = match m s with
      | .ok a s' => f a s'
      | .error e s' => .error e s' := rfl

theorem get_run (s : σ) : (get : EStateM ε σ σ) s = .ok s s := rfl

theorem finalState_bind (m : EStateM ε σ α) (f : α → EStateM ε σ β) (s : σ) :
    finalState (m >>= f) s = match m s with
      | .ok a s' => finalState (f a) s'
      | .error _ s' => s' := by
  unfold finalState
  rw [bind_run]
  cases m s <;> rfl

theorem tryCatch_run (m : EStateM ε σ α) (handle : ε → EStateM ε σ α) (s : σ) :
    (tryCatch m handle) s = match m s with
      | .ok a s' => .ok a s'
      | .error e s' => handle e s' := by
  change EStateM.tryCatch m handle s = _
  unfold EStateM.tryCatch
  cases m s <;> rfl

variable (R : σ → σ → Prop)

/-- The computation takes every state to one that it relates to by `R`. -/
def Preserves (m : EStateM ε σ α) : Prop := ∀ s, R s (finalState m s)

variable {R}

theorem Preserves.pure (hrefl : ∀ s, R s s) (a : α) : Preserves R (Pure.pure a : EStateM ε σ α) :=
  hrefl

theorem Preserves.throw (hrefl : ∀ s, R s s) (e : ε) :
    Preserves R (MonadExcept.throw e : EStateM ε σ α) := hrefl

/-- Sequencing composes the relations of its parts; an exception of the first ends both. -/
theorem Preserves.comp {S T : σ → σ → Prop} (hcomp : ∀ a b c, R a b → S b c → T a c)
    (hleft : ∀ a b, R a b → T a b) {m : EStateM ε σ α} {f : α → EStateM ε σ β}
    (hm : Preserves R m) (hf : ∀ a, Preserves S (f a)) : Preserves T (m >>= f) := by
  intro s
  have h := hm s
  rw [finalState_bind]
  unfold finalState at h
  cases hrun : m s with
  | ok a s' =>
    rw [hrun] at h
    exact hcomp _ _ _ h (hf a s')
  | error e s' =>
    rw [hrun] at h
    exact hleft _ _ h

theorem Preserves.bind (htrans : ∀ a b c, R a b → R b c → R a c) {m : EStateM ε σ α}
    {f : α → EStateM ε σ β} (hm : Preserves R m) (hf : ∀ a, Preserves R (f a)) :
    Preserves R (m >>= f) := hm.comp htrans (fun _ _ h => h) hf

theorem Preserves.tryCatchComp {S T : σ → σ → Prop} (hcomp : ∀ a b c, R a b → S b c → T a c)
    (hleft : ∀ a b, R a b → T a b) {m : EStateM ε σ α} {handle : ε → EStateM ε σ α}
    (hm : Preserves R m) (hh : ∀ e, Preserves S (handle e)) :
    Preserves T (MonadExcept.tryCatch m handle) := by
  intro s
  have h := hm s
  unfold finalState at h ⊢
  rw [tryCatch_run]
  cases hrun : m s with
  | ok a s' =>
    rw [hrun] at h
    exact hleft _ _ h
  | error e s' =>
    rw [hrun] at h
    exact hcomp _ _ _ h (hh e s')

theorem Preserves.tryCatch (htrans : ∀ a b c, R a b → R b c → R a c) {m : EStateM ε σ α}
    {handle : ε → EStateM ε σ α} (hm : Preserves R m) (hh : ∀ e, Preserves R (handle e)) :
    Preserves R (MonadExcept.tryCatch m handle) :=
  hm.tryCatchComp htrans (fun _ _ h => h) hh

theorem Preserves.mapM (hrefl : ∀ s, R s s) (htrans : ∀ a b c, R a b → R b c → R a c)
    {f : α → EStateM ε σ β} (hf : ∀ a, Preserves R (f a)) (as : List α) :
    Preserves R (as.mapM f) := by
  induction as with
  | nil => exact Preserves.pure hrefl []
  | cons a as ih =>
    rw [List.mapM_cons]
    exact (hf a).bind htrans fun _ => ih.bind htrans fun _ => Preserves.pure hrefl _

/-! ## Postconditions -/

/-- From the state `s` the computation returns or raises as the postconditions say. -/
def Ends (m : EStateM ε σ α) (s : σ) (returns : α → σ → Prop) (raises : ε → σ → Prop) : Prop :=
  match m s with
  | .ok a s' => returns a s'
  | .error e s' => raises e s'

theorem Ends.of_ok {m : EStateM ε σ α} {s s' : σ} {a : α} {returns : α → σ → Prop}
    {raises : ε → σ → Prop} (hrun : m s = .ok a s') (h : returns a s') : Ends m s returns raises := by
  unfold Ends
  rw [hrun]
  exact h

theorem Ends.of_error {m : EStateM ε σ α} {s s' : σ} {e : ε} {returns : α → σ → Prop}
    {raises : ε → σ → Prop} (hrun : m s = .error e s') (h : raises e s') : Ends m s returns raises := by
  unfold Ends
  rw [hrun]
  exact h

theorem Ends.cases {m : EStateM ε σ α} {s : σ} {returns : α → σ → Prop} {raises : ε → σ → Prop}
    (h : Ends m s returns raises) : (∃ a s', m s = .ok a s' ∧ returns a s') ∨
      ∃ e s', m s = .error e s' ∧ raises e s' := by
  unfold Ends at h
  cases hrun : m s with
  | ok a s' =>
    rw [hrun] at h
    exact Or.inl ⟨a, s', rfl, h⟩
  | error e s' =>
    rw [hrun] at h
    exact Or.inr ⟨e, s', rfl, h⟩

theorem Ends.bind_ok {m : EStateM ε σ α} {f : α → EStateM ε σ β} {s s' : σ} {a : α}
    {returns : β → σ → Prop} {raises : ε → σ → Prop} (hrun : m s = .ok a s')
    (h : Ends (f a) s' returns raises) : Ends (m >>= f) s returns raises := by
  unfold Ends at h ⊢
  rw [bind_run, hrun]
  exact h

theorem Ends.bind {m : EStateM ε σ α} {f : α → EStateM ε σ β} {s : σ} {mid : α → σ → Prop}
    {returns : β → σ → Prop} {raises : ε → σ → Prop} (hm : Ends m s mid raises)
    (hf : ∀ a s', mid a s' → Ends (f a) s' returns raises) : Ends (m >>= f) s returns raises := by
  rcases hm.cases with ⟨a, s', hrun, h⟩ | ⟨e, s', hrun, h⟩
  · exact .bind_ok hrun (hf a s' h)
  · exact .of_error (by rw [bind_run, hrun]) h

theorem Ends.mono {m : EStateM ε σ α} {s : σ} {returns returns' : α → σ → Prop}
    {raises raises' : ε → σ → Prop} (hm : Ends m s returns raises)
    (hreturns : ∀ a s', returns a s' → returns' a s') (hraises : ∀ e s', raises e s' → raises' e s') :
    Ends m s returns' raises' := by
  rcases hm.cases with ⟨a, s', hrun, h⟩ | ⟨e, s', hrun, h⟩
  · exact .of_ok hrun (hreturns a s' h)
  · exact .of_error hrun (hraises e s' h)

theorem Ends.tryCatch {m : EStateM ε σ α} {handle : ε → EStateM ε σ α} {s : σ}
    {returns : α → σ → Prop} {caught raises : ε → σ → Prop} (hm : Ends m s returns caught)
    (hh : ∀ e s', caught e s' → Ends (handle e) s' returns raises) :
    Ends (MonadExcept.tryCatch m handle) s returns raises := by
  rcases hm.cases with ⟨a, s', hrun, h⟩ | ⟨e, s', hrun, h⟩
  · exact .of_ok (by rw [tryCatch_run, hrun]) h
  · have h' := hh e s' h
    unfold Ends at h' ⊢
    rw [tryCatch_run, hrun]
    exact h'

end Effects
end KernelRuntime
