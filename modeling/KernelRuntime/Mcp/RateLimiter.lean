import KernelRuntime.Foundations.Execution
import KernelRuntime.Resilience.RateLimiter
import Mathlib.Data.List.Induction
import Mathlib.Tactic.Linarith

/-! # The rate limiter of the MCP tools

A fixed window for each key: it starts again when it has expired, and a call too many blocks the key for the length of
a window. Each call reads the clock once; readings are exact and not negative. -/

namespace KernelRuntime.McpRateLimiter
open KernelRuntime.RateLimiter (int)
set_option autoImplicit false

structure RateLimitEntry where
  count : ℕ
  firstRequest : ℚ
  blockedUntil : ℚ

def RateLimitEntry.new (now : ℚ) : RateLimitEntry := ⟨0, now, 0⟩

def RateLimitEntry.isBlocked (e : RateLimitEntry) (now : ℚ) : Bool := decide (now < e.blockedUntil)

structure RateLimiter where
  maxRequests : ℤ := 100
  windowSeconds : ℚ := 60

abbrev Entries := OrderedDict String RateLimitEntry

section Methods
variable (l : RateLimiter)

/-- What the call answers, and the entry it leaves. -/
def RateLimitEntry.check (e : RateLimitEntry) (now : ℚ) : (Bool × ℤ) × RateLimitEntry :=
  if e.isBlocked now then ((false, int (e.blockedUntil - now)), e)
  else
    let e := if now - e.firstRequest > l.windowSeconds then { e with count := 0, firstRequest := now } else e
    if (e.count : ℤ) ≥ l.maxRequests then
      ((false, int l.windowSeconds), { e with blockedUntil := now + l.windowSeconds, count := 0 })
    else ((true, 0), { e with count := e.count + 1 })

/-- `self._entries[key]` of the defaultdict. -/
def entryOf (entries : Entries) (key : String) (now : ℚ) : RateLimitEntry := (entries.get? key).getD (.new now)

def checkRateLimit (entries : Entries) (key : String) (now : ℚ) : (Bool × ℤ) × Entries :=
  let (answer, e) := (entryOf entries key now).check l now
  (answer, entries.set key e)

def cleanupOldEntries (entries : Entries) (maxAgeSeconds now : ℚ) : Entries :=
  entries.filter fun e => !decide (now - e.firstRequest > maxAgeSeconds)

/-! ## Runs -/

/-- `allowed` has the calls that were allowed, with their readings. -/
structure State where
  entries : Entries
  clock : ℚ
  allowed : List (String × ℚ)

def State.init : State := ⟨.empty, 0, []⟩

inductive Label where
  | check (key : String) (now : ℚ)
  | cleanup (maxAgeSeconds now : ℚ)

def Label.now : Label → ℚ
  | .check _ now | .cleanup _ now => now

def allows (s : State) (key : String) (now : ℚ) : Bool := (checkRateLimit l s.entries key now).1.1

def stepAt (s : State) : Label → State
  | .check key now =>
    ⟨(checkRateLimit l s.entries key now).2, now, s.allowed ++ if allows l s key now then [(key, now)] else []⟩
  | .cleanup maxAge now => ⟨cleanupOldEntries s.entries maxAge now, now, s.allowed⟩

def step (s : State) (i : Label) : Option State := if s.clock ≤ i.now then some (stepAt l s i) else none

/-- A clean-up keeps what is younger than two windows. -/
def Label.Ages : Label → Prop
  | .check _ _ => True
  | .cleanup maxAge _ => 2 * l.windowSeconds ≤ maxAge

def granted (s : State) (k : String) : List ℚ := (s.allowed.filter fun a => decide (a.1 = k)).map Prod.snd

def after (since : ℚ) (g : List ℚ) : ℕ := g.countP fun x => decide (since < x)

/-- The call is denied, and blocks the key from now on. -/
def SetsBlock (s : State) (key : String) (now : ℚ) : Prop :=
  (entryOf s.entries key now).isBlocked now = false ∧ allows l s key now = false

variable {l}

/-- A call is blocked, starts the window again, counts, or blocks the key. -/
theorem check_cases (hmax : 1 ≤ l.maxRequests) (e : RateLimitEntry) (now : ℚ) :
    (now < e.blockedUntil ∧ (e.check l now).1.1 = false ∧ (e.check l now).2 = e) ∨
      (e.blockedUntil ≤ now ∧ l.windowSeconds < now - e.firstRequest ∧ (e.check l now).1.1 = true ∧
        (e.check l now).2 = { e with count := 1, firstRequest := now }) ∨
      (e.blockedUntil ≤ now ∧ now - e.firstRequest ≤ l.windowSeconds ∧ (e.count : ℤ) < l.maxRequests ∧
        (e.check l now).1.1 = true ∧ (e.check l now).2 = { e with count := e.count + 1 }) ∨
      (e.blockedUntil ≤ now ∧ now - e.firstRequest ≤ l.windowSeconds ∧ l.maxRequests ≤ e.count ∧
        (e.check l now).1.1 = false ∧
        (e.check l now).2 = { e with count := 0, blockedUntil := now + l.windowSeconds }) := by
  have hpos : ¬ l.maxRequests ≤ 0 := by omega
  unfold RateLimitEntry.check RateLimitEntry.isBlocked
  by_cases hblocked : now < e.blockedUntil
  · simp [hblocked]
  · by_cases hexpired : l.windowSeconds < now - e.firstRequest
    · simp [hblocked, hexpired, hpos, not_lt.mp hblocked]
    · by_cases hfull : l.maxRequests ≤ e.count
      · simp [hblocked, hexpired, hfull, not_lt.mp hblocked, not_lt.mp hexpired]
      · simp [hblocked, hexpired, hfull, not_lt.mp hblocked, not_lt.mp hexpired, not_le.mp hfull]

/-! ## What an entry says about the calls that were allowed -/

theorem after_eq_zero {since : ℚ} {g : List ℚ} (h : ∀ x ∈ g, x ≤ since) : after since g = 0 :=
  List.countP_eq_zero.mpr fun x hx hlater => absurd (of_decide_eq_true hlater) (not_lt.mpr (h x hx))

theorem after_append (since : ℚ) (g : List ℚ) (x : ℚ) :
    after since (g ++ [x]) = after since g + if since < x then 1 else 0 := by
  unfold after
  rw [List.countP_append, List.countP_singleton]
  simp only [decide_eq_true_eq]

theorem after_append_le (since : ℚ) (g : List ℚ) (x : ℚ) : after since (g ++ [x]) ≤ after since g + 1 := by
  rw [after_append]
  split_ifs <;> omega

variable (l) in
/-- Beside the calls of its own window a key may have been allowed as many before. Once a window has expired only its
own calls are left, once a block has passed none. -/
structure EntryInv (clock : ℚ) (g : List ℚ) (e : RateLimitEntry) : Prop where
  count_le : (e.count : ℤ) ≤ l.maxRequests
  first_nonneg : 0 ≤ e.firstRequest
  until_le : e.blockedUntil ≤ e.firstRequest + 2 * l.windowSeconds
  running : ∀ now, clock ≤ now → e.blockedUntil ≤ now → (after (now - l.windowSeconds) g : ℤ) ≤ l.maxRequests + e.count
  expired : ∀ now, clock ≤ now → e.blockedUntil ≤ now → l.windowSeconds < now - e.firstRequest →
    after (now - l.windowSeconds) g ≤ e.count

section Entry
variable {clock now : ℚ} {g : List ℚ} {e : RateLimitEntry}

theorem EntryInv.mono (h : EntryInv l clock g e) (hle : clock ≤ now) : EntryInv l now g e :=
  ⟨h.count_le, h.first_nonneg, h.until_le, fun n hn => h.running n (hle.trans hn), fun n hn => h.expired n (hle.trans hn)⟩

theorem EntryInv.new (hmax : 1 ≤ l.maxRequests) (hwindow : 0 < l.windowSeconds) (hnow : 0 ≤ now) (hpast : ∀ x ∈ g, x ≤ now)
    (hfew : ∀ n, now ≤ n → (after (n - l.windowSeconds) g : ℤ) ≤ l.maxRequests) : EntryInv l now g (.new now) := by
  refine ⟨?_, hnow, ?_, ?_, ?_⟩
  · exact zero_le_one.trans hmax
  · simp only [RateLimitEntry.new]
    linarith
  · intro n hn _
    simpa [RateLimitEntry.new] using hfew n hn
  · intro n hn _ hexpired
    exact (after_eq_zero fun x hx => (hpast x hx).trans (by simp only [RateLimitEntry.new] at hexpired; linarith)).le

/-- The calls that share a window with one that is allowed now. -/
theorem EntryInv.room (hmax : 1 ≤ l.maxRequests) (h : EntryInv l now g e) (hallowed : (e.check l now).1.1 = true) :
    (after (now - l.windowSeconds) g : ℤ) + 1 ≤ 2 * l.maxRequests := by
  rcases check_cases hmax e now with ⟨_, hdenied, _⟩ | ⟨hopen, hexpired, _⟩ | ⟨hopen, _, hroom, _⟩ |
    ⟨_, _, _, hdenied, _⟩
  · rw [hdenied] at hallowed
    cases hallowed
  · have hown := h.expired now le_rfl hopen hexpired
    have hcount := h.count_le
    omega
  · have hboth := h.running now le_rfl hopen
    omega
  · rw [hdenied] at hallowed
    cases hallowed

theorem EntryInv.check (hmax : 1 ≤ l.maxRequests) (hwindow : 0 < l.windowSeconds) (hnow : 0 ≤ now)
    (h : EntryInv l now g e) (hpast : ∀ x ∈ g, x ≤ now) :
    EntryInv l now (g ++ if (e.check l now).1.1 then [now] else []) (e.check l now).2 := by
  rcases check_cases hmax e now with ⟨_, hdenied, hsame⟩ | ⟨hopen, hexpired, hallowed, hsame⟩ |
    ⟨hopen, hrunning, hroom, hallowed, hsame⟩ | ⟨hopen, hrunning, _, hdenied, hsame⟩
  · rw [hdenied, hsame, if_neg Bool.false_ne_true, List.append_nil]
    exact h
  · rw [hallowed, hsame, if_pos rfl]
    refine ⟨?_, hnow, ?_, ?_, ?_⟩
    · simpa using hmax
    · simp only
      linarith
    · intro n hn _
      have hown := h.expired n hn (hopen.trans hn) (by linarith)
      have hcount := h.count_le
      have happend := after_append_le (n - l.windowSeconds) g now
      push_cast
      omega
    · intro n hn _ hlater
      simp only at hlater
      refine (after_eq_zero fun x hx => ?_).trans_le (Nat.zero_le _)
      rcases List.mem_append.mp hx with hx | hx
      · linarith [hpast x hx]
      · linarith [List.mem_singleton.mp hx]
  · rw [hallowed, hsame, if_pos rfl]
    refine ⟨?_, h.first_nonneg, h.until_le, ?_, ?_⟩
    · push_cast
      omega
    · intro n hn hn'
      have hboth := h.running n hn hn'
      have happend := after_append_le (n - l.windowSeconds) g now
      push_cast
      omega
    · intro n hn hn' hlater
      have hown := h.expired n hn hn' hlater
      have happend := after_append_le (n - l.windowSeconds) g now
      simp only
      omega
  · rw [hdenied, hsame, if_neg Bool.false_ne_true, List.append_nil]
    -- what was allowed before the block is a window away when it ends
    have hnone : ∀ n, now + l.windowSeconds ≤ n → after (n - l.windowSeconds) g = 0 :=
      fun n hn => after_eq_zero fun x hx => (hpast x hx).trans (by linarith)
    refine ⟨?_, h.first_nonneg, ?_, ?_, ?_⟩
    · exact zero_le_one.trans hmax
    · simp only
      linarith
    · intro n _ hn
      rw [hnone n hn]
      push_cast
      omega
    · intro n _ hn _
      exact (hnone n hn).le

end Entry

/-! ## Runs keep it -/

variable {s s' : State}

theorem step_eq_some {i : Label} (h : step l s i = some s') : s.clock ≤ i.now ∧ s' = stepAt l s i := by
  unfold step at h
  split_ifs at h with hclock
  exact ⟨hclock, (Option.some.inj h).symm⟩

theorem granted_check (s : State) (key : String) (now : ℚ) (k : String) :
    granted (stepAt l s (.check key now)) k = granted s k ++ if key = k ∧ allows l s key now = true then [now] else [] := by
  unfold granted stepAt
  simp only
  rw [List.filter_append, List.map_append]
  split_ifs with hall hboth hboth
  · simp [hboth.1]
  · have hk : key ≠ k := fun hk => hboth ⟨hk, hall⟩
    simp [hk]
  · exact absurd hboth.2 hall
  · rfl

theorem get?_check (s : State) (key : String) (now : ℚ) (k : String) :
    (stepAt l s (.check key now)).entries.get? k =
      if k = key then some ((entryOf s.entries key now).check l now).2 else s.entries.get? k :=
  OrderedDict.get?_set _ _ _ _

theorem get?_cleanup (s : State) (maxAge now : ℚ) (k : String) :
    (stepAt l s (.cleanup maxAge now)).entries.get? k =
      (s.entries.get? k).filter fun e => !decide (now - e.firstRequest > maxAge) :=
  OrderedDict.get?_filter _ _ _

variable (l) in
structure Inv (s : State) : Prop where
  clock_nonneg : 0 ≤ s.clock
  past : ∀ k, ∀ x ∈ granted s k, x ≤ s.clock
  entry : ∀ k e, s.entries.get? k = some e → EntryInv l s.clock (granted s k) e
  few : ∀ k, s.entries.get? k = none → ∀ n, s.clock ≤ n → (after (n - l.windowSeconds) (granted s k) : ℤ) ≤ l.maxRequests

theorem Inv.init (hmax : 1 ≤ l.maxRequests) : Inv l State.init :=
  ⟨le_rfl, fun _ => nofun, nofun, fun _ _ _ _ => zero_le_one.trans hmax⟩

theorem Inv.entryOf (hmax : 1 ≤ l.maxRequests) (hwindow : 0 < l.windowSeconds) (h : Inv l s) {now : ℚ}
    (hnow : s.clock ≤ now) (k : String) :
    EntryInv l now (granted s k) (McpRateLimiter.entryOf s.entries k now) := by
  unfold McpRateLimiter.entryOf
  cases hk : s.entries.get? k with
  | some e => exact (h.entry k e hk).mono hnow
  | none =>
    exact .new hmax hwindow (h.clock_nonneg.trans hnow) (fun x hx => (h.past k x hx).trans hnow)
      fun n hn => h.few k hk n (hnow.trans hn)

theorem Inv.step (hmax : 1 ≤ l.maxRequests) (hwindow : 0 < l.windowSeconds) {i : Label} (h : Inv l s) (hages : i.Ages l)
    (hstep : McpRateLimiter.step l s i = some s') : Inv l s' := by
  obtain ⟨hclock, rfl⟩ := step_eq_some hstep
  have hpast : ∀ k, ∀ x ∈ granted s k, x ≤ i.now := fun k x hx => (h.past k x hx).trans hclock
  cases i with
  | check key now =>
    refine ⟨h.clock_nonneg.trans hclock, fun k x hx => ?_, fun k e he => ?_, fun k hk n hn => ?_⟩
    · rw [granted_check] at hx
      rcases List.mem_append.mp hx with hx | hx
      · exact hpast k x hx
      · split_ifs at hx
        · exact (List.mem_singleton.mp hx).le
        · cases hx
    · rw [get?_check] at he
      rw [granted_check]
      split_ifs at he with hk
      · subst hk
        obtain rfl := Option.some.inj he
        have hkept := (h.entryOf hmax hwindow hclock k).check hmax hwindow (h.clock_nonneg.trans hclock) (hpast k)
        simp only [true_and]
        exact hkept
      · rw [if_neg fun hboth => hk hboth.1.symm, List.append_nil]
        exact (h.entry k e he).mono hclock
    · rw [get?_check] at hk
      split_ifs at hk with hkey
      rw [granted_check, if_neg fun hboth => hkey hboth.1.symm, List.append_nil]
      exact h.few k hk n (hclock.trans hn)
  | cleanup maxAge now =>
    have hsame : ∀ k, granted (stepAt l s (.cleanup maxAge now)) k = granted s k := fun _ => rfl
    refine ⟨h.clock_nonneg.trans hclock, fun k x hx => hpast k x hx, fun k e he => ?_, fun k hk n hn => ?_⟩
    · rw [get?_cleanup, Option.filter_eq_some_iff] at he
      exact (h.entry k e he.1).mono hclock
    · rw [get?_cleanup] at hk
      rw [hsame]
      cases he : s.entries.get? k with
      | none => exact h.few k he n (hclock.trans hn)
      | some e =>
        -- the entry is older than two windows, so that its window and its block have both passed
        rw [he, Option.filter_some] at hk
        split_ifs at hk with hold
        have hold' : maxAge + e.firstRequest < now := by simpa using hold
        have hn' : now ≤ n := hn
        have hages' : 2 * l.windowSeconds ≤ maxAge := hages
        have hentry := h.entry k e he
        have hpassed : e.blockedUntil ≤ n := by linarith [hentry.until_le]
        have hown := hentry.expired n (hclock.trans hn') hpassed (by linarith)
        have hcount := hentry.count_le
        omega

theorem Inv.run (hmax : 1 ≤ l.maxRequests) (hwindow : 0 < l.windowSeconds) {is : List Label}
    (hages : ∀ i ∈ is, i.Ages l) (hrun : exec (McpRateLimiter.step l) State.init is = some s) : Inv l s := by
  induction is using List.reverseRecOn generalizing s with
  | nil =>
    obtain rfl := Option.some.inj hrun
    exact Inv.init hmax
  | append_singleton is i ih =>
    obtain ⟨s', hrun', hstep⟩ := (exec_concat_eq_some _).mp hrun
    exact (ih (fun j hj => hages j (List.mem_append_left _ hj)) hrun').step hmax hwindow (hages i (by simp)) hstep

/-! ## Two windows -/

/-- An interval of the length of a window that ends with `t`, or begins with it. -/
def upTo (l : RateLimiter) (t : ℚ) (g : List ℚ) : ℕ :=
  g.countP fun x => decide (t - l.windowSeconds < x) && decide (x ≤ t)

def startingAt (l : RateLimiter) (t : ℚ) (g : List ℚ) : ℕ :=
  g.countP fun x => decide (t ≤ x) && decide (x < t + l.windowSeconds)

/-- An interval that holds `now` has of the earlier calls only those less than a window ago. -/
theorem countP_append_le {now : ℚ} {g : List ℚ} {n : ℤ} (p : ℚ → Bool) (hg : (g.countP p : ℤ) ≤ n)
    (hnear : p now = true → ∀ x, p x = true → now - l.windowSeconds < x)
    (hroom : (after (now - l.windowSeconds) g : ℤ) + 1 ≤ n) : ((g ++ [now]).countP p : ℤ) ≤ n := by
  rw [List.countP_append, List.countP_singleton]
  split_ifs with hp
  · have hle : g.countP p ≤ after (now - l.windowSeconds) g :=
      List.countP_mono_left fun x _ hx => decide_eq_true (hnear hp x hx)
    push_cast
    omega
  · simpa using hg

theorem upTo_and_startingAt_le (hmax : 1 ≤ l.maxRequests) (hwindow : 0 < l.windowSeconds) {is : List Label}
    (hages : ∀ i ∈ is, i.Ages l) (hrun : exec (McpRateLimiter.step l) State.init is = some s) (k : String) (t : ℚ) :
    (upTo l t (granted s k) : ℤ) ≤ 2 * l.maxRequests ∧ (startingAt l t (granted s k) : ℤ) ≤ 2 * l.maxRequests := by
  induction is using List.reverseRecOn generalizing s with
  | nil =>
    obtain rfl := Option.some.inj hrun
    have hzero : (0 : ℤ) ≤ 2 * l.maxRequests := by omega
    exact ⟨hzero, hzero⟩
  | append_singleton is i ih =>
    obtain ⟨s', hrun', hstep⟩ := (exec_concat_eq_some _).mp hrun
    have hages' : ∀ j ∈ is, j.Ages l := fun j hj => hages j (List.mem_append_left _ hj)
    obtain ⟨hbefore, hafter⟩ := ih hages' hrun'
    obtain ⟨hclock, rfl⟩ := step_eq_some hstep
    cases i with
    | cleanup maxAge now => exact ⟨hbefore, hafter⟩
    | check key now =>
      rw [granted_check]
      split_ifs with hboth
      · obtain ⟨rfl, hallowed⟩ := hboth
        have hroom := ((Inv.run hmax hwindow hages' hrun').entryOf hmax hwindow hclock key).room hmax hallowed
        refine ⟨countP_append_le _ hbefore (fun hin x hx => ?_) hroom, countP_append_le _ hafter (fun hin x hx => ?_) hroom⟩
        · simp only [Bool.and_eq_true, decide_eq_true_eq] at hin hx
          linarith [hin.2, hx.1]
        · simp only [Bool.and_eq_true, decide_eq_true_eq] at hin hx
          linarith [hin.2, hx.1]
      · rw [List.append_nil]
        exact ⟨hbefore, hafter⟩

/-! ## Blocks -/

/-- The key is blocked until `t`, unless that time has come. -/
def Held (k : String) (t : ℚ) (s : State) : Prop :=
  t ≤ s.clock ∨ ∃ e, s.entries.get? k = some e ∧ e.blockedUntil = t

theorem check_blocked {e : RateLimitEntry} {now : ℚ} (h : now < e.blockedUntil) :
    (e.check l now).1.1 = false ∧ (e.check l now).2 = e := by
  unfold RateLimitEntry.check RateLimitEntry.isBlocked
  simp [h]

theorem entryOf_eq {k : String} {e : RateLimitEntry} (h : s.entries.get? k = some e) (now : ℚ) :
    entryOf s.entries k now = e := by
  rw [entryOf, h, Option.getD_some]

/-- **No clean-up lifts a block.** -/
theorem cleanup_keeps_block (h : Inv l s) {maxAge now : ℚ} (hages : 2 * l.windowSeconds ≤ maxAge) {k : String}
    {e : RateLimitEntry} (he : s.entries.get? k = some e) (hblocked : now < e.blockedUntil) :
    (stepAt l s (.cleanup maxAge now)).entries.get? k = some e := by
  rw [get?_cleanup, he, Option.filter_some, if_pos]
  have hyoung : now - e.firstRequest ≤ maxAge := by linarith [(h.entry k e he).until_le]
  simpa using hyoung

theorem Held.step {k : String} {t : ℚ} {i : Label} (hinv : Inv l s) (hages : i.Ages l) (h : Held k t s)
    (hstep : McpRateLimiter.step l s i = some s') : Held k t s' := by
  obtain ⟨hclock, rfl⟩ := step_eq_some hstep
  have hnow : (stepAt l s i).clock = i.now := by cases i <;> rfl
  rcases h with hpassed | ⟨e, he, hblocked⟩
  · exact Or.inl (hnow ▸ hpassed.trans hclock)
  · by_cases hcome : t ≤ i.now
    · exact Or.inl (hnow ▸ hcome)
    · have hlast : i.now < e.blockedUntil := hblocked ▸ not_le.mp hcome
      refine Or.inr ⟨e, ?_, hblocked⟩
      cases i with
      | cleanup maxAge now => exact cleanup_keeps_block hinv hages he hlast
      | check key now =>
        rw [get?_check]
        split_ifs with hk
        · subst hk
          rw [entryOf_eq he]
          exact congrArg some (check_blocked hlast).2
        · exact he

theorem SetsBlock.held (hmax : 1 ≤ l.maxRequests) {k : String} {now : ℚ} (h : SetsBlock l s k now) :
    Held k (now + l.windowSeconds) (stepAt l s (.check k now)) := by
  obtain ⟨hopen, hdenied⟩ := h
  have hfree := not_lt.mpr (not_lt.mp (of_decide_eq_false hopen))
  refine Or.inr ⟨_, (get?_check s k now k).trans (if_pos rfl), ?_⟩
  rcases check_cases hmax (entryOf s.entries k now) now with ⟨hblocked, _⟩ | ⟨_, _, hallowed, _⟩ | ⟨_, _, _, hallowed, _⟩ |
    ⟨_, _, _, _, hsame⟩
  · exact absurd hblocked hfree
  · exact absurd (hallowed.symm.trans hdenied) (by decide)
  · exact absurd (hallowed.symm.trans hdenied) (by decide)
  · rw [hsame]

theorem Held.run (hmax : 1 ≤ l.maxRequests) (hwindow : 0 < l.windowSeconds) {k : String} {t : ℚ} {is : List Label}
    (hinv : Inv l s) (hages : ∀ i ∈ is, i.Ages l) (h : Held k t s)
    (hrun : exec (McpRateLimiter.step l) s is = some s') : Held k t s' := by
  induction is generalizing s with
  | nil =>
    obtain rfl := Option.some.inj hrun
    exact h
  | cons i is ih =>
    obtain ⟨s₁, hstep, hrun'⟩ := (exec_cons_eq_some _).mp hrun
    have hi := hages i List.mem_cons_self
    exact ih (hinv.step hmax hwindow hi hstep) (fun j hj => hages j (List.mem_cons_of_mem _ hj)) (h.step hinv hi hstep) hrun'

/-- A key that is held lets nothing pass before its time. -/
theorem Held.not_allows {k : String} {t now : ℚ} (h : Held k t s) (hclock : s.clock ≤ now)
    (hallowed : allows l s k now = true) : t ≤ now := by
  rcases h with hpassed | ⟨e, he, rfl⟩
  · exact hpassed.trans hclock
  · by_contra hearly
    have hdenied : allows l s k now = false := by
      unfold allows checkRateLimit
      rw [entryOf_eq he]
      exact (check_blocked (not_le.mp hearly)).1
    exact absurd (hallowed.symm.trans hdenied) (by decide)

end Methods

/-- **Two windows' worth of calls in any window, none while a block lasts, and no block lifted by a clean-up.** -/
theorem rate_limiter_laws (l : RateLimiter) (hmax : 1 ≤ l.maxRequests) (hwindow : 0 < l.windowSeconds) (is : List Label)
    (hages : ∀ i ∈ is, i.Ages l) (s : State) (hrun : exec (step l) State.init is = some s) :
    (∀ k t, (upTo l t (granted s k) : ℤ) ≤ 2 * l.maxRequests ∧ (startingAt l t (granted s k) : ℤ) ≤ 2 * l.maxRequests) ∧
      (∀ js k blockedAt ks now s₁ s₂, is = js ++ .check k blockedAt :: ks ++ [.check k now] →
        exec (step l) State.init js = some s₁ → exec (step l) s₁ (.check k blockedAt :: ks) = some s₂ →
          SetsBlock l s₁ k blockedAt → allows l s₂ k now = true → blockedAt + l.windowSeconds ≤ now) ∧
      ∀ js maxAge now ks s₁ s₂, is = js ++ .cleanup maxAge now :: ks → exec (step l) State.init js = some s₁ →
        step l s₁ (.cleanup maxAge now) = some s₂ → ∀ k e, s₁.entries.get? k = some e → now < e.blockedUntil →
          s₂.entries.get? k = some e := by
  refine ⟨upTo_and_startingAt_le hmax hwindow hages hrun, ?_, ?_⟩
  · intro js k blockedAt ks now s₁ s₂ his hjs hks hsets hallowed
    subst his
    have hinv : Inv l s₁ := Inv.run hmax hwindow (fun i hi => hages i (by simp [hi])) hjs
    obtain ⟨s₁', hstep, hks'⟩ := (exec_cons_eq_some _).mp hks
    have hinv' : Inv l s₁' := hinv.step hmax hwindow (hages _ (by simp)) hstep
    have hheld : Held k (blockedAt + l.windowSeconds) s₁' := (step_eq_some hstep).2 ▸ hsets.held hmax
    have hlast := hheld.run hmax hwindow hinv' (fun i hi => hages i (by simp [hi])) hks'
    obtain ⟨s₂', hrun', hstep'⟩ := (exec_concat_eq_some _).mp hrun
    rw [exec_trans hjs hks] at hrun'
    obtain rfl := Option.some.inj hrun'
    exact hlast.not_allows (step_eq_some hstep').1 hallowed
  · intro js maxAge now ks s₁ s₂ his hjs hstep k e he hblocked
    subst his
    have hinv : Inv l s₁ := Inv.run hmax hwindow (fun i hi => hages i (by simp [hi])) hjs
    obtain ⟨_, rfl⟩ := step_eq_some hstep
    exact cleanup_keeps_block hinv (hages (.cleanup maxAge now) (by simp)) he hblocked

/-- One call a second: the second one blocks the key, and the third is too early. -/
def onePerSecond : RateLimiter := ⟨1, 1⟩

def eager : List Label := [.check "a" 1, .check "a" 1, .check "a" (3/2), .cleanup 2 (3/2), .check "a" 2]

theorem isSome_eager : (exec (step onePerSecond) State.init eager).isSome = true := by decide +kernel

theorem upTo_eager :
    (upTo onePerSecond 1 (granted ((exec (step onePerSecond) State.init eager).get isSome_eager) "a") : ℤ) ≤ 2 :=
  ((rate_limiter_laws onePerSecond (by decide) (by decide) eager (by simp [eager, Label.Ages, onePerSecond]) _
    (Option.some_get _).symm).1 "a" 1).1

end KernelRuntime.McpRateLimiter
