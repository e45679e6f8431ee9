import Mathlib.Logic.Function.Basic
import KernelRuntime.Foundations.Execution

/-! # Threads of many parties, and what they learn of each other

A thread does one thing to the shared state at a time, and others go on in between. The threads of a party are
confined when they read only what the party may see of the state, and change nothing that the others see. Then what
the party sees of a run is what it would see of the same run without the others. -/

namespace KernelRuntime
set_option autoImplicit false

/-- A turn does something to the state, and the thread goes on with what was there before. -/
inductive Thread (σ α : Type) where
  | done (a : α)
  | turn (effect : σ → σ) (next : σ → Thread σ α)

namespace Thread
variable {σ ε α β : Type}

def bind : Thread σ α → (α → Thread σ β) → Thread σ β
  | .done a, f => f a
  | .turn effect next, f => .turn effect fun s => (next s).bind f

instance (σ : Type) : Monad (Thread σ) where
  pure := .done
  bind := bind

/-- What the state answers to a question. -/
def query (f : σ → α) : ExceptT ε (Thread σ) α := .mk (.turn (fun s => s) fun s => .done (.ok (f s)))

/-- A change of the state that may be refused. -/
def attempt (f : σ → Except ε σ) : ExceptT ε (Thread σ) Unit :=
  .mk (.turn (fun s => (f s).toOption.getD s) fun s => .done ((f s).map fun _ => ()))

end Thread

/-! ## Confined threads -/

/-- What each party sees of the state, and which states there are. -/
structure Views (σ δ ν : Type) where
  view : δ → σ → ν
  good : σ → Prop

namespace Views
variable {σ δ ν α β ε : Type} (V : Views σ δ ν) (d : δ)

/-- The two states are the same to the party. -/
structure Alike (s t : σ) : Prop where
  left : V.good s
  right : V.good t
  same : V.view d s = V.view d t

/-- A question whose answer the party may know. -/
def Reads (f : σ → β) : Prop := ∀ s t, V.Alike d s t → f s = f t

/-- A change of what the party sees and nobody else. -/
structure Writes (effect : σ → σ) : Prop where
  good : ∀ s, V.good s → V.good (effect s)
  own : ∀ s t, V.Alike d s t → V.view d (effect s) = V.view d (effect t)
  others : ∀ s e, V.good s → e ≠ d → V.view e (effect s) = V.view e s

/-- Such a change, which is refused or not by what the party sees. -/
structure Attempts (f : σ → Except ε σ) : Prop where
  good : ∀ s s', V.good s → f s = .ok s' → V.good s'
  own : ∀ s t, V.Alike d s t → (f s).map (V.view d) = (f t).map (V.view d)
  others : ∀ s s' e, V.good s → f s = .ok s' → e ≠ d → V.view e s' = V.view e s

/-- The thread does nothing else, and ends with what meets the condition. -/
inductive Confined (Q : α → Prop) : Thread σ α → Prop
  | done {a : α} (h : Q a) : Confined Q (.done a)
  | turn {effect : σ → σ} {next : σ → Thread σ α} (hwrites : V.Writes d effect) (hreads : V.Reads d next)
      (hnext : ∀ s, V.good s → Confined Q (next s)) : Confined Q (.turn effect next)

/-- The same of a thread that may raise. -/
def Safe (Q : α → Prop) (m : ExceptT ε (Thread σ) α) : Prop := V.Confined d (fun r => ∀ a, r = .ok a → Q a) m.run

variable {V d}

theorem Confined.mono {Q R : α → Prop} {m : Thread σ α} (h : V.Confined d Q m) (hQR : ∀ a, Q a → R a) :
    V.Confined d R m := by
  induction h with
  | done ha => exact .done (hQR _ ha)
  | turn hwrites hreads _ ih => exact .turn hwrites hreads ih

theorem Confined.bind {Q : α → Prop} {R : β → Prop} {m : Thread σ α} {f : α → Thread σ β} (hm : V.Confined d Q m)
    (hf : ∀ a, Q a → V.Confined d R (f a)) : V.Confined d R (m.bind f) := by
  induction hm with
  | done ha => exact hf _ ha
  | turn hwrites hreads _ ih =>
    refine .turn hwrites ?_ ih
    intro s t h
    exact congrArg (Thread.bind · f) (hreads s t h)

theorem Safe.pure {Q : α → Prop} {a : α} (h : Q a) : V.Safe d Q (Pure.pure a : ExceptT ε (Thread σ) α) := by
  refine .done ?_
  intro b hb
  cases hb
  exact h

theorem Safe.throw {Q : α → Prop} (e : ε) : V.Safe d Q (MonadExcept.throw e : ExceptT ε (Thread σ) α) := by
  refine .done ?_
  rintro a ⟨⟩

theorem Safe.bind {Q : α → Prop} {R : β → Prop} {m : ExceptT ε (Thread σ) α} {f : α → ExceptT ε (Thread σ) β}
    (hm : V.Safe d Q m) (hf : ∀ a, Q a → V.Safe d R (f a)) : V.Safe d R (m >>= f) := by
  refine Confined.bind hm ?_
  intro r hr
  cases r with
  | ok a => exact hf a (hr a rfl)
  | error e => exact Safe.throw e

/-- Whatever an answer is made of, it may be given. -/
theorem Safe.returns {Q : α → Prop} {m : ExceptT ε (Thread σ) α} (hm : V.Safe d Q m) (f : α → β) :
    V.Safe d (fun _ => True) (m >>= fun a => Pure.pure (f a)) := by
  refine Safe.bind hm ?_
  intro a _
  exact Safe.pure trivial

theorem Safe.throw_bind {Q : β → Prop} (e : ε) (f : α → ExceptT ε (Thread σ) β) :
    V.Safe d Q (MonadExcept.throw e >>= f) := by
  refine Safe.bind (Safe.throw (Q := fun _ => False) e) ?_
  intro a ha
  exact ha.elim

theorem Safe.query {Q : α → Prop} {f : σ → α} (hreads : V.Reads d f) (hQ : ∀ s, V.good s → Q (f s)) :
    V.Safe d Q (Thread.query f : ExceptT ε (Thread σ) α) := by
  refine .turn ⟨fun s hs => hs, fun s t h => h.same, fun s e _ _ => rfl⟩ ?_ ?_
  · intro s t h
    exact congrArg (fun a => Thread.done (Except.ok a)) (hreads s t h)
  · intro s hs
    exact Safe.pure (hQ s hs)

theorem Safe.attempt {f : σ → Except ε σ} (h : V.Attempts d f) : V.Safe d (fun _ => True) (Thread.attempt f) := by
  refine .turn ⟨?_, ?_, ?_⟩ ?_ ?_
  · intro s hs
    cases hf : f s with
    | ok s' => exact h.good s s' hs hf
    | error e => exact hs
  · intro s t hst
    have hown := h.own s t hst
    cases hs : f s with
    | ok s' =>
      cases ht : f t with
      | ok t' =>
        rw [hs, ht] at hown
        exact Except.ok.inj hown
      | error e =>
        rw [hs, ht] at hown
        cases hown
    | error e =>
      cases ht : f t with
      | ok t' =>
        rw [hs, ht] at hown
        cases hown
      | error e' => exact hst.same
  · intro s e hs he
    cases hf : f s with
    | ok s' => exact h.others s s' e hs hf he
    | error e' => rfl
  · intro s t hst
    have hown := congrArg (fun r => r.map fun _ => ()) (h.own s t hst)
    simp only [Except.map] at hown ⊢
    cases hs : f s <;> cases ht : f t <;> rw [hs, ht] at hown <;> simp_all
  · intro s _
    exact .done fun _ _ => trivial

end Views

/-! ## Runs -/

/-- The state that the threads share, the threads that run, and how others ended. -/
structure Concurrent (σ κ α : Type) where
  shared : σ
  running : κ → Option (Thread σ α)
  ended : List (κ × α)

namespace Concurrent
variable {σ δ ν κ ρ α : Type}

inductive Label (κ ρ : Type) where
  | starts (key : κ) (request : ρ)
  | resumes (key : κ)

def Label.key : Label κ ρ → κ
  | .starts key _ => key
  | .resumes key => key

def init (s : σ) : Concurrent σ κ α := ⟨s, fun _ => none, []⟩

variable (program : κ → ρ → Thread σ α) (party : κ → δ)

section System
variable [DecidableEq κ]

/-- A thread starts under a free key, or takes its next turn. -/
def step (w : Concurrent σ κ α) : Label κ ρ → Option (Concurrent σ κ α)
  | .starts key request =>
    match w.running key with
    | none => some { w with running := Function.update w.running key (some (program key request)) }
    | some _ => none
  | .resumes key =>
    match w.running key with
    | none => none
    | some (.done a) =>
      some { w with running := Function.update w.running key none, ended := w.ended ++ [(key, a)] }
    | some (.turn effect next) =>
      some { w with
        shared := effect w.shared, running := Function.update w.running key (some (next w.shared)) }

end System

section Parties
variable [DecidableEq δ] (d : δ)

/-- What the party does in a run. -/
def only (ls : List (Label κ ρ)) : List (Label κ ρ) := ls.filter fun l => decide (party l.key = d)

/-- How the threads of the party ended. -/
def answers (w : Concurrent σ κ α) : List (κ × α) := w.ended.filter fun e => decide (party e.1 = d)

variable (V : Views σ δ ν)

structure Kept (w : Concurrent σ κ α) : Prop where
  good : V.good w.shared
  confined : ∀ key m, w.running key = some m → V.Confined (party key) (fun _ => True) m

/-- The two are the same to the party. -/
structure Agree (w v : Concurrent σ κ α) : Prop where
  shared : V.view d w.shared = V.view d v.shared
  running : ∀ key, party key = d → w.running key = v.running key
  ended : answers party d w = answers party d v

end Parties

section Start
variable {party : κ → δ} {V : Views σ δ ν}

theorem Kept.init {s : σ} (h : V.good s) : Kept party V (init s : Concurrent σ κ α) := by
  refine ⟨h, ?_⟩
  rintro key m ⟨⟩

theorem Agree.refl [DecidableEq δ] (d : δ) (w : Concurrent σ κ α) : Agree party d V w w := ⟨rfl, fun _ _ => rfl, rfl⟩

end Start

section Runs
variable [DecidableEq κ] {program : κ → ρ → Thread σ α} {party : κ → δ} {V : Views σ δ ν}
  {w v w' : Concurrent σ κ α} {l : Label κ ρ}

/-- What a step does. -/
inductive Step (program : κ → ρ → Thread σ α) (w : Concurrent σ κ α) : Label κ ρ → Concurrent σ κ α → Prop
  | starts {key : κ} {request : ρ} (hfree : w.running key = none) :
    Step program w (.starts key request)
      { w with running := Function.update w.running key (some (program key request)) }
  | ends {key : κ} {a : α} (hrunning : w.running key = some (.done a)) :
    Step program w (.resumes key)
      { w with running := Function.update w.running key none, ended := w.ended ++ [(key, a)] }
  | turns {key : κ} {effect : σ → σ} {next : σ → Thread σ α} (hrunning : w.running key = some (.turn effect next)) :
    Step program w (.resumes key)
      { w with shared := effect w.shared, running := Function.update w.running key (some (next w.shared)) }

theorem step_eq_some_iff : step program w l = some w' ↔ Step program w l w' := by
  constructor
  · intro h
    cases l with
    | starts key request =>
      simp only [step] at h
      split at h
      · cases h
        exact .starts ‹_›
      · cases h
    | resumes key =>
      simp only [step] at h
      split at h
      · cases h
      · cases h
        exact .ends ‹_›
      · cases h
        exact .turns ‹_›
  · rintro (hfree | hrunning | hrunning)
    · simp only [step, hfree]
    · simp only [step, hrunning]
    · simp only [step, hrunning]

theorem Kept.update {key : κ} {m : Option (Thread σ α)} (h : Kept party V w)
    (hm : ∀ t, m = some t → V.Confined (party key) (fun _ => True) t) (other : κ) (t : Thread σ α)
    (ht : Function.update w.running key m other = some t) : V.Confined (party other) (fun _ => True) t := by
  by_cases hother : other = key
  · subst hother
    rw [Function.update_self] at ht
    exact hm t ht
  · rw [Function.update_of_ne hother] at ht
    exact h.confined other t ht

theorem Kept.step (h : Kept party V w)
    (hprogram : ∀ key request, l = .starts key request → V.Confined (party key) (fun _ => True) (program key request))
    (hstep : step program w l = some w') : Kept party V w' := by
  cases step_eq_some_iff.mp hstep with
  | starts hfree => exact ⟨h.good, h.update fun t ht => Option.some.inj ht ▸ hprogram _ _ rfl⟩
  | ends hrunning =>
    refine ⟨h.good, h.update ?_⟩
    rintro t ⟨⟩
  | turns hrunning =>
    cases h.confined _ _ hrunning with
    | turn hwrites _ hnext =>
      exact ⟨hwrites.good _ h.good, h.update fun t ht => Option.some.inj ht ▸ hnext _ h.good⟩

/-- Programs that keep to their parties keep what is good, in every run. -/
theorem Kept.exec {ls : List (Label κ ρ)} (h : Kept party V w)
    (hprogram : ∀ key request, .starts key request ∈ ls → V.Confined (party key) (fun _ => True) (program key request))
    (hrun : KernelRuntime.exec (Concurrent.step program) w ls = some w') : Kept party V w' := by
  induction ls generalizing w with
  | nil =>
    cases hrun
    exact h
  | cons l ls ih =>
    obtain ⟨u, hfirst, hrest⟩ := (exec_cons_eq_some _).mp hrun
    have hu : Kept party V u := h.step (fun key request heq => hprogram key request (heq ▸ List.mem_cons_self)) hfirst
    exact ih hu (fun key request hmem => hprogram key request (List.mem_cons_of_mem _ hmem)) hrest

variable [DecidableEq δ] {d : δ}

/-- What another party does is not seen. -/
theorem Agree.other (hw : Kept party V w) (h : Agree party d V w v) (hother : party l.key ≠ d)
    (hstep : step program w l = some w') : Agree party d V w' v := by
  have hrunning : ∀ m key, party key = d → Function.update w.running l.key m key = v.running key := by
    intro m key hkey
    have hne : key ≠ l.key := fun heq => hother ((congrArg party heq).symm.trans hkey)
    rw [Function.update_of_ne hne]
    exact h.running key hkey
  cases step_eq_some_iff.mp hstep with
  | starts hfree => exact ⟨h.shared, hrunning _, h.ended⟩
  | @ends key a hdone =>
    refine ⟨h.shared, hrunning _, ?_⟩
    have hkey : party key ≠ d := hother
    rw [← h.ended]
    unfold answers
    rw [List.filter_append, List.filter_cons_of_neg (by simpa using hkey)]
    exact List.append_nil _
  | turns hturn =>
    cases hw.confined _ _ hturn with
    | turn hwrites _ _ =>
      exact ⟨(hwrites.others _ d hw.good (Ne.symm hother)).trans h.shared, hrunning _, h.ended⟩

/-- What the party does goes the same way for both. -/
theorem Agree.step (hw : Kept party V w) (hv : Kept party V v) (h : Agree party d V w v) (hown : party l.key = d)
    (hstep : step program w l = some w') : ∃ v', Concurrent.step program v l = some v' ∧ Agree party d V w' v' := by
  have hrunning : ∀ m key, party key = d →
      Function.update w.running l.key m key = Function.update v.running l.key m key := by
    intro m key hkey
    by_cases heq : key = l.key
    · rw [heq, Function.update_self, Function.update_self]
    · rw [Function.update_of_ne heq, Function.update_of_ne heq]
      exact h.running key hkey
  have hsame : w.running l.key = v.running l.key := h.running l.key hown
  cases step_eq_some_iff.mp hstep with
  | starts hfree =>
    exact ⟨_, step_eq_some_iff.mpr (.starts (hsame.symm.trans hfree)), h.shared, hrunning _, h.ended⟩
  | ends hdone =>
    refine ⟨_, step_eq_some_iff.mpr (.ends (hsame.symm.trans hdone)), h.shared, hrunning _, ?_⟩
    have hended := h.ended
    unfold answers at hended ⊢
    rw [List.filter_append, List.filter_append, hended]
  | @turns key effect next hturn =>
    obtain rfl : party key = d := hown
    have halike : V.Alike (party key) w.shared v.shared := ⟨hw.good, hv.good, h.shared⟩
    cases hw.confined _ _ hturn with
    | turn hwrites hreads _ =>
      refine ⟨_, step_eq_some_iff.mpr (.turns (hsame.symm.trans hturn)), hwrites.own _ _ halike, ?_, h.ended⟩
      rw [hreads _ _ halike]
      exact hrunning _

/-- **A run shows a party what the same run shows it without the others.** -/
theorem exec_only {ls : List (Label κ ρ)} (hw : Kept party V w) (hv : Kept party V v) (h : Agree party d V w v)
    (hprogram : ∀ key request, .starts key request ∈ ls → V.Confined (party key) (fun _ => True) (program key request))
    (hrun : exec (step program) w ls = some w') :
    ∃ v', exec (step program) v (only party d ls) = some v' ∧ Agree party d V w' v' := by
  induction ls generalizing w v with
  | nil =>
    cases hrun
    exact ⟨v, rfl, h⟩
  | cons l ls ih =>
    obtain ⟨u, hfirst, hrest⟩ := (exec_cons_eq_some _).mp hrun
    have hl : ∀ key request, l = .starts key request → V.Confined (party key) (fun _ => True) (program key request) :=
      fun key request heq => hprogram key request (heq ▸ List.mem_cons_self)
    have hls : ∀ key request, .starts key request ∈ ls → V.Confined (party key) (fun _ => True) (program key request) :=
      fun key request hmem => hprogram key request (List.mem_cons_of_mem _ hmem)
    have hu : Kept party V u := hw.step hl hfirst
    unfold only
    by_cases hown : party l.key = d
    · obtain ⟨v', hv', hagree⟩ := h.step hw hv hown hfirst
      obtain ⟨end', hend, hsame⟩ := ih hu (hv.step hl hv') hagree hls hrest
      rw [List.filter_cons_of_pos (by simpa using hown)]
      exact ⟨end', (exec_cons_eq_some _).mpr ⟨v', hv', hend⟩, hsame⟩
    · rw [List.filter_cons_of_neg (by simpa using hown)]
      exact ih hu hv (h.other hw hown hfirst) hls hrest

end Runs

end Concurrent
end KernelRuntime
