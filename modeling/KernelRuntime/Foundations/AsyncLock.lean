import KernelRuntime.Foundations.OrderedDict

/-! # The lock of `asyncio`

A fair lock of cooperative tasks. A task that cannot have the lock at once waits for a future of its own, in the
order of arrival. A release, or a waiter that leaves a free lock, resolves the first future, and the lock stays free
until that task runs. -/

namespace KernelRuntime
set_option autoImplicit false

inductive Future where
  | pending
  | resolved
  | cancelled
deriving DecidableEq

structure AsyncLock (τ : Type) where
  locked : Bool
  waiters : List (τ × Future)

namespace AsyncLock
variable {τ : Type}

def new : AsyncLock τ := ⟨false, []⟩

def wakeUpFirst (l : AsyncLock τ) : AsyncLock τ :=
  match l.waiters with
  | (t, .pending) :: rest => { l with waiters := (t, .resolved) :: rest }
  | _ => l

/-- `acquire` up to its `await`, and whether the lock was to be had at once. -/
def acquire (l : AsyncLock τ) (t : τ) : AsyncLock τ × Bool :=
  if !l.locked && l.waiters.all fun w => w.2 = .cancelled then ({ l with locked := true }, true)
  else ({ l with waiters := l.waiters ++ [(t, .pending)] }, false)

def release (l : AsyncLock τ) : AsyncLock τ := wakeUpFirst { l with locked := false }

/-! ## At most one task is about to have the lock -/

/-- Only the first waiter's future is resolved, and only while the lock is free. -/
structure OneAwake (l : AsyncLock τ) : Prop where
  first : ∀ w ∈ l.waiters.tail, w.2 ≠ .resolved
  free : l.locked = true → ∀ w ∈ l.waiters, w.2 ≠ .resolved

theorem OneAwake.new : OneAwake (new : AsyncLock τ) := ⟨nofun, nofun⟩

@[simp] theorem locked_wakeUpFirst (l : AsyncLock τ) : l.wakeUpFirst.locked = l.locked := by
  unfold wakeUpFirst
  split <;> rfl

theorem OneAwake.wakeUpFirst {l : AsyncLock τ} (hfirst : ∀ w ∈ l.waiters.tail, w.2 ≠ .resolved)
    (hfree : l.locked = false) : OneAwake l.wakeUpFirst := by
  refine ⟨?_, fun hlocked => ?_⟩
  · unfold AsyncLock.wakeUpFirst
    split
    next t rest hwaiters =>
      rw [hwaiters] at hfirst
      exact hfirst
    next => exact hfirst
  · rw [locked_wakeUpFirst, hfree] at hlocked
    cases hlocked

theorem OneAwake.acquire {l : AsyncLock τ} (h : OneAwake l) (t : τ) : OneAwake (l.acquire t).1 := by
  unfold AsyncLock.acquire
  split_ifs with hfree
  · rw [Bool.and_eq_true, List.all_eq_true] at hfree
    have hcancelled : ∀ w ∈ l.waiters, w.2 ≠ .resolved := by
      intro w hw hresolved
      have hw' := of_decide_eq_true (hfree.2 w hw)
      rw [hresolved] at hw'
      cases hw'
    exact ⟨fun w hw => hcancelled w (List.mem_of_mem_tail hw), fun _ => hcancelled⟩
  · refine ⟨fun w hw => ?_, fun hlocked w hw => ?_⟩
    · cases hwaiters : l.waiters with
      | nil => simp [hwaiters] at hw
      | cons v rest =>
        have hfirst := h.first
        rw [hwaiters, List.tail_cons] at hfirst
        simp only [hwaiters, List.cons_append, List.tail_cons, List.mem_append, List.mem_singleton] at hw
        rcases hw with hold | rfl
        · exact hfirst w hold
        · nofun
    · rcases List.mem_append.mp hw with hold | hnew
      · exact h.free hlocked w hold
      · rw [List.mem_singleton] at hnew
        rw [hnew]
        nofun

theorem OneAwake.release {l : AsyncLock τ} (h : OneAwake l) : OneAwake l.release :=
  OneAwake.wakeUpFirst h.first rfl

/-- A task whose future is resolved finds the lock free. -/
theorem OneAwake.not_locked {l : AsyncLock τ} (h : OneAwake l) {t : τ} (ht : (t, Future.resolved) ∈ l.waiters) :
    l.locked = false := by
  by_contra hlocked
  exact h.free (by simpa using hlocked) _ ht rfl

theorem acquire_cases (l : AsyncLock τ) (t : τ) :
    ((l.acquire t).2 = true ∧ l.locked = false ∧ (l.acquire t).1.locked = true) ∨
      ((l.acquire t).2 = false ∧ (l.acquire t).1.locked = l.locked) := by
  unfold acquire
  split_ifs with hfree
  · rw [Bool.and_eq_true, Bool.not_eq_true'] at hfree
    exact Or.inl ⟨rfl, hfree.1, rfl⟩
  · exact Or.inr ⟨rfl, rfl⟩

@[simp] theorem locked_release (l : AsyncLock τ) : l.release.locked = false := locked_wakeUpFirst _

/-! ## Waiters that go -/

variable [DecidableEq τ]

/-- The rest of `acquire` for a task whose future is resolved. -/
def awaken (l : AsyncLock τ) (t : τ) : AsyncLock τ := ⟨true, assocErase t l.waiters⟩

/-- The rest of `acquire` for a task that is cancelled. -/
def leave (l : AsyncLock τ) (t : τ) : AsyncLock τ :=
  let l' : AsyncLock τ := { l with waiters := assocErase t l.waiters }
  if l.locked then l' else wakeUpFirst l'

/-- `Task.cancel` of a waiting task. A future that is resolved stays so. -/
def cancel (l : AsyncLock τ) (t : τ) : AsyncLock τ :=
  { l with waiters := l.waiters.map fun w => if w.1 = t ∧ w.2 = .pending then (t, .cancelled) else w }

/-- What is left of the waiters has no resolved future behind the first. -/
theorem OneAwake.first_erase {l : AsyncLock τ} (h : OneAwake l) (t : τ) :
    ∀ w ∈ (assocErase t l.waiters).tail, w.2 ≠ .resolved := by
  intro w hw
  cases hwaiters : l.waiters with
  | nil => simp [hwaiters, assocErase] at hw
  | cons v rest =>
    have hfirst := h.first
    rw [hwaiters, List.tail_cons] at hfirst
    rw [hwaiters] at hw
    unfold assocErase at hw
    rw [List.filter_cons] at hw
    split_ifs at hw
    · exact hfirst w (List.mem_of_mem_filter hw)
    · exact hfirst w (List.mem_of_mem_filter (List.mem_of_mem_tail hw))

theorem OneAwake.leave {l : AsyncLock τ} (h : OneAwake l) (t : τ) : OneAwake (l.leave t) := by
  unfold AsyncLock.leave
  simp only
  split_ifs with hlocked
  · exact ⟨h.first_erase t, fun _ w hw => h.free hlocked w (mem_assocErase.mp hw).1⟩
  · exact OneAwake.wakeUpFirst (h.first_erase t) (Bool.not_eq_true _ ▸ hlocked)

@[simp] theorem locked_leave (l : AsyncLock τ) (t : τ) : (l.leave t).locked = l.locked := by
  unfold AsyncLock.leave
  simp only
  split_ifs
  · rfl
  · exact locked_wakeUpFirst _

theorem OneAwake.cancel {l : AsyncLock τ} (h : OneAwake l) (t : τ) : OneAwake (l.cancel t) := by
  have hmap : ∀ w : τ × Future, w.2 ≠ .resolved →
      (if w.1 = t ∧ w.2 = .pending then (t, Future.cancelled) else w).2 ≠ .resolved := by
    intro w hw
    split_ifs
    · nofun
    · exact hw
  refine ⟨fun w hw => ?_, fun hlocked w hw => ?_⟩
  · unfold AsyncLock.cancel at hw
    rw [← List.map_tail] at hw
    obtain ⟨v, hv, rfl⟩ := List.mem_map.mp hw
    exact hmap v (h.first v hv)
  · obtain ⟨v, hv, rfl⟩ := List.mem_map.mp hw
    exact hmap v (h.free hlocked v hv)

/-- When it has the lock, no other future is resolved. -/
theorem OneAwake.awaken {l : AsyncLock τ} (h : OneAwake l) {t : τ} (ht : (t, Future.resolved) ∈ l.waiters) :
    OneAwake (l.awaken t) := by
  have hnone : ∀ w ∈ assocErase t l.waiters, w.2 ≠ .resolved := by
    intro w hw
    obtain ⟨hmem, hne⟩ := mem_assocErase.mp hw
    cases hwaiters : l.waiters with
    | nil => simp [hwaiters] at hmem
    | cons v rest =>
      have hfirst := h.first
      rw [hwaiters, List.tail_cons] at hfirst
      rw [hwaiters] at ht hmem
      rcases List.mem_cons.mp ht with rfl | htail
      · rcases List.mem_cons.mp hmem with rfl | hrest
        · exact absurd rfl hne
        · exact hfirst w hrest
      · exact absurd rfl (hfirst _ htail)
  exact ⟨fun w hw => hnone w (List.mem_of_mem_tail hw), fun _ => hnone⟩

end AsyncLock

/-! ## Locks and their holders -/

section Guards
variable {τ ρ : Type} [DecidableEq ρ]

/-- A lock is locked exactly while one task holds it. -/
structure Guards (locked : ρ → Bool) (holds : τ → ρ → Prop) : Prop where
  held : ∀ t r, holds t r → locked r = true
  single : ∀ t t' r, holds t r → holds t' r → t = t'
  holder : ∀ r, locked r = true → ∃ t, holds t r

variable {locked locked' : ρ → Bool} {holds holds' : τ → ρ → Prop} {t : τ} {r : ρ}

omit [DecidableEq ρ] in
theorem Guards.congr (h : Guards locked holds) (hlocked : ∀ r, locked' r = locked r)
    (hholds : ∀ t r, holds' t r ↔ holds t r) : Guards locked' holds' := by
  obtain rfl : locked' = locked := funext hlocked
  obtain rfl : holds' = holds := funext fun t => funext fun r => propext (hholds t r)
  exact h

theorem Guards.grant (h : Guards locked holds) (hfree : locked r = false)
    (hlocked : ∀ r', locked' r' = if r' = r then true else locked r')
    (hholds : ∀ t' r', holds' t' r' ↔ holds t' r' ∨ t' = t ∧ r' = r) : Guards locked' holds' := by
  have hnobody : ∀ t', ¬ holds t' r := by
    intro t' ht'
    rw [h.held t' r ht'] at hfree
    cases hfree
  refine ⟨fun t' r' ht' => ?_, fun t₁ t₂ r' h₁ h₂ => ?_, fun r' hr' => ?_⟩
  · rw [hlocked]
    split_ifs with hr
    · rfl
    · exact h.held t' r' (((hholds t' r').mp ht').resolve_right fun hnew => hr hnew.2)
  · rcases (hholds t₁ r').mp h₁ with hold₁ | ⟨rfl, rfl⟩
    · rcases (hholds t₂ r').mp h₂ with hold₂ | ⟨rfl, rfl⟩
      · exact h.single t₁ t₂ r' hold₁ hold₂
      · exact absurd hold₁ (hnobody t₁)
    · rcases (hholds t₂ r').mp h₂ with hold₂ | ⟨rfl, _⟩
      · exact absurd hold₂ (hnobody t₂)
      · rfl
  · rw [hlocked] at hr'
    split_ifs at hr' with hr
    · exact ⟨t, (hholds t r').mpr (Or.inr ⟨rfl, hr⟩)⟩
    · obtain ⟨t', ht'⟩ := h.holder r' hr'
      exact ⟨t', (hholds t' r').mpr (Or.inl ht')⟩

/-- The holder gives its only lock back. -/
theorem Guards.release (h : Guards locked holds) (hheld : holds t r) (honly : ∀ r', holds t r' → r' = r)
    (hlocked : ∀ r', locked' r' = if r' = r then false else locked r')
    (hholds : ∀ t' r', holds' t' r' ↔ holds t' r' ∧ t' ≠ t) : Guards locked' holds' := by
  refine ⟨fun t' r' ht' => ?_, fun t₁ t₂ r' h₁ h₂ => ?_, fun r' hr' => ?_⟩
  · obtain ⟨hold, hne⟩ := (hholds t' r').mp ht'
    rw [hlocked]
    split_ifs with hr
    · subst hr
      exact absurd (h.single t' t r' hold hheld) hne
    · exact h.held t' r' hold
  · exact h.single t₁ t₂ r' ((hholds t₁ r').mp h₁).1 ((hholds t₂ r').mp h₂).1
  · rw [hlocked] at hr'
    split_ifs at hr' with hr
    obtain ⟨t', ht'⟩ := h.holder r' hr'
    refine ⟨t', (hholds t' r').mpr ⟨ht', ?_⟩⟩
    rintro rfl
    exact hr (honly r' ht')

end Guards
end KernelRuntime
