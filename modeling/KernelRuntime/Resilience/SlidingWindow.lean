import KernelRuntime.Foundations.Execution
import KernelRuntime.Resilience.RateLimiter
import Mathlib.Data.List.Induction
import Mathlib.Tactic.Linarith

/-! # The sliding window of the local limiter

Calls come one after the other, with readings that do not decrease. Of the calls that a key was allowed the window
keeps those that are younger than sixty seconds. -/

namespace KernelRuntime.SlidingWindow
open RateLimiter RateLimiter.LocalRateLimiter
set_option autoImplicit false

structure Check where
  key : String
  config : RateLimitConfig
  now : ℚ

structure State where
  limiter : LocalRateLimiter
  clock : ℚ
  answers : List (Check × RateLimitStatus)

def State.init (t0 : ℚ) : State := ⟨.empty, t0, []⟩

def answer (s : State) (c : Check) : RateLimitStatus := (checkRateLimit s.limiter c.key c.config c.now).1

def step (s : State) (c : Check) : Option State :=
  if s.clock ≤ c.now then
    some ⟨(checkRateLimit s.limiter c.key c.config c.now).2, c.now, s.answers ++ [(c, answer s c)]⟩
  else none

/-- The readings of the calls that `k` was allowed. -/
def granted (answers : List (Check × RateLimitStatus)) (k : String) : List ℚ :=
  (answers.filter fun a => decide (a.1.key = k) && a.2.allowed).map fun a => a.1.now

def inWindow (t : ℚ) (l : List ℚ) : ℕ := l.countP fun x => decide (t - 60 < x) && decide (x ≤ t)

/-! ## Windows -/

theorem trim_trim {now now' : ℚ} (h : now ≤ now') (l : List ℚ) : trim now' (trim now l) = trim now' l := by
  unfold trim
  rw [List.filter_filter]
  apply List.filter_congr
  intro x _
  by_cases hx : now' - 60 < x
  · have hx' : now - 60 < x := by linarith
    simp [hx, hx']
  · simp [hx]

/-- The window at `t` counts at most what is left of the readings at an earlier `now`. -/
theorem inWindow_le_trim {now t : ℚ} (h : now ≤ t) (l : List ℚ) : inWindow t l ≤ (trim now l).length := by
  unfold inWindow trim
  rw [List.countP_eq_length_filter]
  refine (List.monotone_filter_right l fun x hx => ?_).length_le
  have hx' := of_decide_eq_true (Bool.and_eq_true_iff.mp hx).1
  exact decide_eq_true (by linarith)

theorem length_trim_eq_inWindow {now : ℚ} {l : List ℚ} (h : ∀ x ∈ l, x ≤ now) :
    (trim now l).length = inWindow now l := by
  unfold inWindow trim
  rw [List.countP_eq_length_filter]
  refine congrArg List.length (List.filter_congr fun x hx => ?_)
  simp [h x hx]

/-- Something leaves a sorted window exactly when its head does. -/
theorem length_trim_lt_iff {now x : ℚ} {l : List ℚ} (h : (x :: l).Pairwise (· ≤ ·)) :
    (trim now (x :: l)).length < (x :: l).length ↔ x ≤ now - 60 := by
  unfold trim
  rw [List.length_filter_lt_length_iff_exists]
  constructor
  · rintro ⟨y, hy, hleft⟩
    have hyold : y ≤ now - 60 := not_lt.mp (of_decide_eq_false (Bool.not_eq_true _ ▸ hleft))
    rcases List.mem_cons.mp hy with rfl | hrest
    · exact hyold
    · exact (List.rel_of_pairwise_cons h hrest).trans hyold
  · intro hx
    exact ⟨x, List.mem_cons_self, by simpa using hx⟩

theorem window_set (limiter : LocalRateLimiter) (key k : String) (w : List ℚ) :
    window (limiter.set key w) k = if k = key then w else limiter.window k := by
  unfold window
  rw [OrderedDict.get?_set]
  split_ifs
  · rfl
  · rfl

/-! ## One call -/

section Calls
variable {s s' : State} {c : Check} {k : String}

theorem step_eq_some (h : step s c = some s') :
    s.clock ≤ c.now ∧ s'.limiter = (checkRateLimit s.limiter c.key c.config c.now).2 ∧ s'.clock = c.now ∧
      s'.answers = s.answers ++ [(c, answer s c)] := by
  unfold step at h
  split_ifs at h with hclock
  obtain rfl := Option.some.inj h
  exact ⟨hclock, rfl, rfl, rfl⟩

theorem allowed_iff (s : State) (c : Check) :
    (answer s c).allowed = true ↔ ((trim c.now (s.limiter.window c.key)).length : ℤ) < c.config.limit :=
  decide_eq_true_iff

theorem window_other (h : step s c = some s') (hk : c.key ≠ k) : s'.limiter.window k = s.limiter.window k := by
  rw [(step_eq_some h).2.1]
  exact (window_set _ _ _ _).trans (if_neg (Ne.symm hk))

theorem window_own (h : step s c = some s') :
    s'.limiter.window c.key = trim c.now (s.limiter.window c.key) ++ if (answer s c).allowed then [c.now] else [] := by
  have hset : s'.limiter.window c.key = if ((trim c.now (s.limiter.window c.key)).length : ℤ) < c.config.limit then
      trim c.now (s.limiter.window c.key) ++ [c.now] else trim c.now (s.limiter.window c.key) := by
    rw [(step_eq_some h).2.1]
    exact (window_set _ _ _ _).trans (if_pos rfl)
  rw [hset]
  by_cases hroom : ((trim c.now (s.limiter.window c.key)).length : ℤ) < c.config.limit
  · rw [if_pos hroom, if_pos ((allowed_iff s c).mpr hroom)]
  · rw [if_neg hroom, if_neg fun h => hroom ((allowed_iff s c).mp h), List.append_nil]

theorem granted_step (h : step s c = some s') :
    granted s'.answers k =
      granted s.answers k ++ if c.key = k ∧ (answer s c).allowed = true then [c.now] else [] := by
  rw [(step_eq_some h).2.2.2]
  unfold granted
  rw [List.filter_append, List.map_append]
  split_ifs with hk
  · simp [hk]
  · rw [not_and_or] at hk
    rcases hk with hk | hk <;> simp [hk]

/-! ## The invariant -/

/-- What the list of a key has to do with the calls that were allowed on it. -/
structure Inv (k : String) (limit : ℤ) (s : State) : Prop where
  past : ∀ x ∈ granted s.answers k, x ≤ s.clock
  sorted : (granted s.answers k).Pairwise (· ≤ ·)
  kept : ∀ now, s.clock ≤ now → trim now (s.limiter.window k) = trim now (granted s.answers k)
  bound : ∀ t, inWindow t (granted s.answers k) ≤ limit.toNat

theorem Inv.init (k : String) (limit : ℤ) (t0 : ℚ) : Inv k limit (State.init t0) :=
  ⟨nofun, List.Pairwise.nil, fun _ _ => rfl, fun _ => Nat.zero_le _⟩

theorem Inv.step {limit : ℤ} (h : Inv k limit s) (hfixed : c.key = k → c.config.limit = limit)
    (hstep : SlidingWindow.step s c = some s') : Inv k limit s' := by
  obtain ⟨hclock, _, hnow, _⟩ := step_eq_some hstep
  have hgranted := granted_step (k := k) hstep
  have hpast : ∀ x ∈ granted s.answers k, x ≤ c.now := fun x hx => (h.past x hx).trans hclock
  by_cases hk : c.key = k
  · subst hk
    have hwindow := window_own hstep
    rw [h.kept c.now hclock] at hwindow
    simp only [true_and] at hgranted
    split_ifs at hgranted hwindow with hallowed
    · have hroom := (allowed_iff s c).mp hallowed
      rw [h.kept c.now hclock, hfixed rfl] at hroom
      refine ⟨?_, ?_, ?_, ?_⟩
      · intro x hx
        rw [hgranted] at hx
        rw [hnow]
        rcases List.mem_append.mp hx with hx | hx
        · exact hpast x hx
        · exact (List.mem_singleton.mp hx).le
      · rw [hgranted]
        exact List.pairwise_append.mpr ⟨h.sorted, List.pairwise_singleton _ _,
          fun x hx y hy => (hpast x hx).trans (List.mem_singleton.mp hy).ge⟩
      · intro now hlater
        rw [hnow] at hlater
        rw [hwindow, hgranted]
        unfold trim at *
        rw [List.filter_append, List.filter_append]
        exact congrArg (· ++ _) (trim_trim hlater _)
      · intro t
        rw [hgranted, inWindow, List.countP_append, List.countP_singleton]
        split_ifs with hin
        · -- the window at `t` holds this call, and of the earlier ones only such as were counted
          have hle := inWindow_le_trim (of_decide_eq_true (Bool.and_eq_true_iff.mp hin).2) (granted s.answers c.key)
          unfold inWindow at hle
          omega
        · exact h.bound t
    · rw [List.append_nil] at hgranted hwindow
      refine ⟨by rwa [hgranted, hnow], by rw [hgranted]; exact h.sorted, fun now hlater => ?_, by
        rw [hgranted]; exact h.bound⟩
      rw [hnow] at hlater
      rw [hwindow, hgranted, trim_trim hlater]
  · rw [if_neg fun hboth => hk hboth.1, List.append_nil] at hgranted
    refine ⟨by rwa [hgranted, hnow], by rw [hgranted]; exact h.sorted, fun now hlater => ?_, by
      rw [hgranted]; exact h.bound⟩
    rw [hnow] at hlater
    rw [window_other hstep hk, hgranted, h.kept now (hclock.trans hlater)]

theorem Inv.run {limit : ℤ} {t0 : ℚ} {is : List Check} (hfixed : ∀ c ∈ is, c.key = k → c.config.limit = limit)
    (hrun : exec SlidingWindow.step (State.init t0) is = some s) : Inv k limit s := by
  induction is using List.reverseRecOn generalizing s with
  | nil =>
    obtain rfl := Option.some.inj hrun
    exact Inv.init k limit t0
  | append_singleton is c ih =>
    obtain ⟨s', hrun', hstep⟩ := (exec_concat_eq_some _).mp hrun
    have hs' := ih (fun d hd => hfixed d (List.mem_append_left _ hd)) hrun'
    exact hs'.step (hfixed c (by simp)) hstep

/-! ## Other keys -/

def answersOn (answers : List (Check × RateLimitStatus)) (k : String) : List (Check × RateLimitStatus) :=
  answers.filter fun a => decide (a.1.key = k)

/-- The calls on one key run alone, too, and nothing about the key is different. -/
theorem exec_on_key {t0 : ℚ} {is : List Check} (hrun : exec SlidingWindow.step (State.init t0) is = some s)
    (k : String) : ∃ s', exec SlidingWindow.step (State.init t0) (is.filter fun c => decide (c.key = k)) = some s' ∧
      s'.clock ≤ s.clock ∧ s'.limiter.window k = s.limiter.window k ∧ s'.answers = answersOn s.answers k := by
  induction is using List.reverseRecOn generalizing s with
  | nil =>
    obtain rfl := Option.some.inj hrun
    exact ⟨_, rfl, le_rfl, rfl, rfl⟩
  | append_singleton is c ih =>
    obtain ⟨s₁, hrun₁, hstep⟩ := (exec_concat_eq_some _).mp hrun
    obtain ⟨s₁', hrun₁', hclock, hwindow, hanswers⟩ := ih hrun₁
    obtain ⟨hnow, _, hclock', hanswers'⟩ := step_eq_some hstep
    rw [List.filter_append]
    by_cases hk : c.key = k
    · have hsame : answer s₁' c = answer s₁ c := by
        unfold answer checkRateLimit
        rw [hk, hwindow]
      have hstep' : ∃ s', SlidingWindow.step s₁' c = some s' := by
        unfold SlidingWindow.step
        rw [if_pos (hclock.trans hnow)]
        exact ⟨_, rfl⟩
      obtain ⟨s', hs'⟩ := hstep'
      refine ⟨s', ?_, ?_, ?_, ?_⟩
      · rw [List.filter_singleton, decide_eq_true hk]
        exact (exec_concat_eq_some _).mpr ⟨s₁', hrun₁', hs'⟩
      · rw [(step_eq_some hs').2.2.1, hclock']
      · subst hk
        rw [window_own hs', window_own hstep, hwindow, hsame]
      · rw [(step_eq_some hs').2.2.2, hanswers', hanswers, hsame]
        unfold answersOn
        rw [List.filter_append, List.filter_singleton, decide_eq_true hk]
        rfl
    · refine ⟨s₁', ?_, hclock.trans (hnow.trans hclock'.ge), ?_, ?_⟩
      · rw [List.filter_singleton, decide_eq_false hk]
        exact (congrArg _ (List.append_nil _)).trans hrun₁'
      · rw [hwindow, window_other hstep hk]
      · rw [hanswers', hanswers]
        unfold answersOn
        rw [List.filter_append, List.filter_singleton, decide_eq_false hk]
        exact (List.append_nil _).symm

/-! ## The advertised wait -/

theorem window_others {is : List Check} (hk : ∀ c ∈ is, c.key ≠ k) (hrun : exec SlidingWindow.step s is = some s') :
    s'.limiter.window k = s.limiter.window k := by
  induction is generalizing s with
  | nil =>
    obtain rfl := Option.some.inj hrun
    rfl
  | cons c is ih =>
    obtain ⟨s₁, hstep, hrun'⟩ := (exec_cons_eq_some _).mp hrun
    rw [ih (fun d hd => hk d (List.mem_cons_of_mem _ hd)) hrun', window_other hstep (hk c List.mem_cons_self)]

theorem resetAfter_eq (h : (answer s c).allowed = false) :
    (answer s c).resetAfter = max 0 (60 - (c.now - (trim c.now (s.limiter.window c.key)).head?.getD c.now)) := by
  have hfull : ¬ ((trim c.now (s.limiter.window c.key)).length : ℤ) < c.config.limit := of_decide_eq_false h
  unfold answer checkRateLimit statusOf
  simp only [if_neg hfull]

/-- After a denial the window is full, and stays so until its oldest entry has left. -/
theorem retry_iff {limit : ℤ} {c' : Check} {ks : List Check} {s₂ : State} (hinv : Inv k limit s)
    (hlimit : 0 < limit) (hc : c.key = k) (hc' : c'.key = k) (hconfig : c.config.limit = limit)
    (hconfig' : c'.config.limit = limit) (hks : ∀ d ∈ ks, d.key ≠ k) (hdenied : (answer s c).allowed = false)
    (hstep : SlidingWindow.step s c = some s') (hrun : exec SlidingWindow.step s' ks = some s₂) :
    (answer s₂ c').allowed = true ↔ (answer s c).resetAfter ≤ c'.now - c.now := by
  subst hc
  have hclock := (step_eq_some hstep).1
  have hwindow : s₂.limiter.window c.key = trim c.now (s.limiter.window c.key) := by
    rw [window_others hks hrun, window_own hstep, hdenied]
    exact List.append_nil _
  rw [allowed_iff, hc', hwindow, hconfig', resetAfter_eq hdenied]
  have hkept : trim c.now (s.limiter.window c.key) = trim c.now (granted s.answers c.key) := hinv.kept c.now hclock
  have hsorted : (trim c.now (s.limiter.window c.key)).Pairwise (· ≤ ·) := by
    rw [hkept]
    exact hinv.sorted.filter _
  have hbelow : (trim c.now (s.limiter.window c.key)).length ≤ limit.toNat := by
    rw [hkept, length_trim_eq_inWindow fun x hx => (hinv.past x hx).trans hclock]
    exact hinv.bound c.now
  have hfull : limit ≤ (trim c.now (s.limiter.window c.key)).length := by
    rw [← hconfig]
    exact not_lt.mp (of_decide_eq_false hdenied)
  cases hlist : trim c.now (s.limiter.window c.key) with
  | nil =>
    rw [hlist, List.length_nil] at hfull
    omega
  | cons x rest =>
    rw [hlist] at hsorted hbelow hfull
    have hx : c.now - 60 < x := by
      have hmem : x ∈ trim c.now (s.limiter.window c.key) := by rw [hlist]; exact List.mem_cons_self
      exact of_decide_eq_true (List.mem_filter.mp hmem).2
    have hlength : ((x :: rest).length : ℤ) = limit := by omega
    rw [← hlength, Int.ofNat_lt, length_trim_lt_iff hsorted, List.head?_cons, Option.getD_some, max_eq_right (by linarith)]
    constructor
    · intro h
      linarith
    · intro h
      linarith

end Calls

/-- **The local limiter is an exact sliding window.** -/
theorem sliding_window (k : String) (rpm t0 : ℚ) (is : List Check) (s : State)
    (hrun : exec step (State.init t0) is = some s)
    (hfixed : ∀ c ∈ is, c.key = k → c.config.requestsPerMinute = rpm) :
    (∀ t, inWindow t (granted s.answers k) ≤ (int rpm).toNat) ∧
      (∃ s', exec step (State.init t0) (is.filter fun c => decide (c.key = k)) = some s' ∧
        s'.answers = answersOn s.answers k) ∧
      ∀ js c ks c' s₁ s₂, is = js ++ c :: ks ++ [c'] → exec step (State.init t0) js = some s₁ →
        exec step s₁ (c :: ks) = some s₂ → c.key = k → c'.key = k → (∀ d ∈ ks, d.key ≠ k) →
          (answer s₁ c).allowed = false → 0 < int rpm →
            ((answer s₂ c').allowed = true ↔ (answer s₁ c).resetAfter ≤ c'.now - c.now) := by
  have hlimit : ∀ c ∈ is, c.key = k → c.config.limit = int rpm := fun c hc hk => congrArg int (hfixed c hc hk)
  refine ⟨(Inv.run hlimit hrun).bound, ?_, ?_⟩
  · obtain ⟨s', hrun', _, _, hanswers⟩ := exec_on_key hrun k
    exact ⟨s', hrun', hanswers⟩
  · intro js c ks c' s₁ s₂ his hjs hks hc hc' hothers hdenied hpos
    subst his
    obtain ⟨s₁', hstep, hks'⟩ := (exec_cons_eq_some _).mp hks
    have hinv : Inv k (int rpm) s₁ := Inv.run (fun d hd => hlimit d (by simp [hd])) hjs
    exact retry_iff hinv hpos hc hc' (hlimit c (by simp) hc) (hlimit c' (by simp) hc') hothers hdenied hstep hks'

/-- Of two calls in a minute the second is denied; a minute after the first there is room again. -/
def oncePerMinute : List Check := [⟨"a", ⟨1⟩, 1⟩, ⟨"a", ⟨1⟩, 2⟩, ⟨"b", ⟨5⟩, 2⟩, ⟨"a", ⟨1⟩, 61⟩]

theorem isSome_oncePerMinute : (exec step (State.init 0) oncePerMinute).isSome = true := by decide +kernel

theorem sliding_window_oncePerMinute :
    inWindow 90 (granted ((exec step (State.init 0) oncePerMinute).get isSome_oncePerMinute).answers "a") ≤ 1 :=
  (sliding_window "a" 1 0 oncePerMinute _ (Option.some_get _).symm (by simp [oncePerMinute])).1 90

end KernelRuntime.SlidingWindow
