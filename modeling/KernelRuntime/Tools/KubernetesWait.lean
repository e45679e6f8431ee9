import KernelRuntime.Tools.SandboxLifetime
import Mathlib.Data.Nat.Find

/-! # Waiting for a Job

`wait_for_pod` and `wait_for_completion` look at the cluster once a second. The first wants to see a pod that is
pending or running, the second a Job that has succeeded or failed. Here the answers that the polls would get are
given beforehand; times are in milliseconds. -/

namespace KernelRuntime.SandboxLifetime
set_option autoImplicit false

/-- One turn of a loop: what its requests are answered, and how long that takes. -/
structure Poll (α : Type) where
  answer : α
  took : ℕ

/-- How long the loop has run when its `n`-th turn begins; it sleeps for a second behind each one. -/
def elapsed {α : Type} (polls : ℕ → Poll α) : ℕ → ℕ
  | 0 => 0
  | n + 1 => elapsed polls n + (polls n).took + 1000

/-- A loop from its `n`-th turn: what the first turn finds that finds something, and when the loop ends with it.
`turns` bounds the turns. -/
def pollFrom {α β : Type} (limit : ℤ) (find : α → Option β) (polls : ℕ → Poll α) : ℕ → ℕ → Option β × ℕ
  | 0, n => (none, elapsed polls n)
  | turns + 1, n =>
    if (elapsed polls n : ℤ) < limit then
      match find (polls n).answer with
      | some b => (some b, elapsed polls n + (polls n).took)
      | none => pollFrom limit find polls turns (n + 1)
    else (none, elapsed polls n)

/-- The loop; a turn takes a second at least, and so the bound is never reached. -/
def pollLoop {α β : Type} (limit : ℤ) (find : α → Option β) (polls : ℕ → Poll α) : Option β × ℕ :=
  pollFrom limit find polls (limit.toNat + 1) 0

section Loops
variable {α β : Type} {limit : ℤ} {find : α → Option β} {polls : ℕ → Poll α}

theorem elapsed_ge (polls : ℕ → Poll α) (n : ℕ) : n ≤ elapsed polls n := by
  induction n with
  | zero => exact Nat.zero_le _
  | succ n ih => rw [elapsed]; omega

theorem elapsed_mono (polls : ℕ → Poll α) {m n : ℕ} (h : m ≤ n) : elapsed polls m ≤ elapsed polls n := by
  induction n with
  | zero =>
    obtain rfl := Nat.le_zero.mp h
    exact Nat.le_refl _
  | succ n ih =>
    rcases Nat.le_succ_iff.mp h with h | rfl
    · have := ih h
      rw [elapsed]
      omega
    · exact Nat.le_refl _

/-- The turn at which a loop ends with what it found. -/
structure FoundAt (limit : ℤ) (find : α → Option β) (polls : ℕ → Poll α) (n : ℕ) (b : β) : Prop where
  intime : (elapsed polls n : ℤ) < limit
  finds : find (polls n).answer = some b
  first : ∀ m < n, find (polls m).answer = none

theorem pollFrom_eq_some_iff {turns n : ℕ} {b : β} (hturns : limit.toNat < turns + n)
    (hbefore : ∀ m < n, find (polls m).answer = none) :
    (pollFrom limit find polls turns n).1 = some b ↔ ∃ m, FoundAt limit find polls m b := by
  induction turns generalizing n with
  | zero =>
    refine iff_of_false nofun ?_
    rintro ⟨m, hm⟩
    have hlate : n ≤ m := by
      by_contra hlt
      have hnone := hbefore m (Nat.not_le.mp hlt)
      rw [hm.finds] at hnone
      cases hnone
    have hge := elapsed_ge polls m
    have hintime := hm.intime
    omega
  | succ turns ih =>
    rw [pollFrom]
    split_ifs with hintime
    · cases hfind : find (polls n).answer with
      | some b' =>
        constructor
        · intro h
          obtain rfl := Option.some.inj h
          exact ⟨n, hintime, hfind, hbefore⟩
        · rintro ⟨m, hm⟩
          rcases Nat.lt_trichotomy m n with hlt | rfl | hgt
          · have hnone := hbefore m hlt
            rw [hm.finds] at hnone
            cases hnone
          · exact hfind.symm.trans hm.finds
          · have hnone := hm.first n hgt
            rw [hfind] at hnone
            cases hnone
      | none =>
        refine ih (by omega) fun m hm => ?_
        rcases Nat.lt_succ_iff_lt_or_eq.mp hm with hm | rfl
        · exact hbefore m hm
        · exact hfind
    · refine iff_of_false nofun ?_
      rintro ⟨m, hm⟩
      rcases Nat.lt_or_ge m n with hlt | hge
      · have hnone := hbefore m hlt
        rw [hm.finds] at hnone
        cases hnone
      · have hmono := elapsed_mono polls hge
        have hm := hm.intime
        omega

/-- **A loop ends with what the first turn finds, if that turn begins in time.** -/
theorem pollLoop_eq_some_iff {b : β} :
    (pollLoop limit find polls).1 = some b ↔ ∃ n, FoundAt limit find polls n b :=
  pollFrom_eq_some_iff (by omega) nofun

end Loops

/-! ## The executor -/

/-- What a call observes, from the request for its Job on. In each turn of `wait_for_completion` the Job is read,
and the pod if the Job has failed; a pod without an exit code is an error as well. -/
structure Observed where
  created : Except ApiError Unit
  createTook : ℕ
  pods : ℕ → Poll (Except String (List PodInfo))
  completion : ℕ → Poll (Except String JobStatus × Except String ℤ)
  logs : Poll (Except String String)
  cleanupTook : ℕ

/-- `pod.status.phase in ["Pending", "Running"]`. -/
def isActive (pod : PodInfo) : Bool := pod.phase == "Pending" || pod.phase == "Running"

/-- The name of the first pod that is pending or running. -/
def activePod (answer : Except String (List PodInfo)) : Option String :=
  ((answer.toOption.getD []).find? isActive).map (·.name)

/-- The exit code that a turn of `wait_for_completion` comes by. -/
def completionRead (answer : Except String JobStatus × Except String ℤ) : Option ℤ :=
  match answer.1 with
  | .error _ => none
  | .ok status =>
    if JobCall.positive status.succeeded then some 0
    else if JobCall.positive status.failed then answer.2.toOption
    else none

namespace Observed
variable (k : JobCall) (obs : Observed)

def waitForPod : Option String × ℕ := pollLoop 60000 activePod obs.pods

def waitForCompletion : Option ℤ × ℕ := pollLoop (k.timeout * 1000) completionRead obs.completion

/-- `get_logs`. -/
def getLogs : String × String :=
  match obs.logs.answer with
  | .ok logs => (logs, "")
  | .error e => ("", e)

/-- `KubernetesSandboxExecutor.execute`, from the request for the Job on. -/
def execute : Except PyError SandboxResult :=
  match obs.created with
  | .error .timeout => .error k.executionTimedOut
  | .error (.other message) => .error (JobCall.executionFailed message)
  | .ok () =>
    match obs.waitForPod.1 with
    | none => .error k.noPod
    | some podName =>
      if podName = "" then .error k.noPod
      else
        match (obs.waitForCompletion k).1 with
        | none => .error k.executionTimedOut
        | some exitCode => .ok {
            exitCode := exitCode
            stdout := truncated MAX_OUTPUT_SIZE obs.getLogs.1
            stderr := truncated MAX_OUTPUT_SIZE obs.getLogs.2
            durationMs := obs.createTook + obs.waitForPod.2 + (obs.waitForCompletion k).2 + obs.logs.took +
              obs.cleanupTook
            jobName := k.jobName
            podName := podName }

end Observed

/-! ## What became of the Job -/

inductive Outcome where
  | succeeded
  | failed (exitCode : ℤ)
deriving DecidableEq

def Outcome.exitCode : Outcome → ℤ
  | .succeeded => 0
  | .failed exitCode => exitCode

/-- The Job was created and has finished within its timeout, `finishedAt` milliseconds after its creation. The
polls do not say anything else about it, and those that begin later and are answered say so. What they say about
pods is left open. -/
structure Finishes (k : JobCall) (obs : Observed) (outcome : Outcome) (finishedAt : ℕ) : Prop where
  created : obs.created = .ok ()
  intime : (finishedAt : ℤ) ≤ k.timeout * 1000
  succeeded : ∀ n status, (obs.completion n).answer.1 = .ok status → JobCall.positive status.succeeded = true →
    outcome = .succeeded
  failed : ∀ n status, (obs.completion n).answer.1 = .ok status → JobCall.positive status.failed = true →
    ∃ exitCode, outcome = .failed exitCode
  shown : ∀ n status, (obs.completion n).answer.1 = .ok status →
    finishedAt ≤ obs.waitForPod.2 + elapsed obs.completion n →
      JobCall.positive status.succeeded = true ∨ JobCall.positive status.failed = true

/-- A listing that is asked for within a minute is answered, and shows a pod that is pending or running. -/
def PodSeen (obs : Observed) : Prop := ∃ n podName, FoundAt 60000 activePod obs.pods n podName ∧ podName ≠ ""

/-- The exit code that a turn reads from the pod of a Job that has failed. -/
def failureRead (answer : Except String JobStatus × Except String ℤ) : Option ℤ :=
  match answer.1 with
  | .error _ => none
  | .ok status => if JobCall.positive status.failed then answer.2.toOption else none

/-- The end of the Job is read before the timeout: a success by some turn, a failure by the first turn that gets
an exit code of the pod, which has to be the one of the Job. -/
def FinishSeen (k : JobCall) (obs : Observed) : Outcome → Prop
  | .succeeded => ∃ n status, (elapsed obs.completion n : ℤ) < k.timeout * 1000 ∧
      (obs.completion n).answer.1 = .ok status ∧ JobCall.positive status.succeeded = true
  | .failed exitCode => ∃ n, FoundAt (k.timeout * 1000) failureRead obs.completion n exitCode

section Finished
variable {k : JobCall} {obs : Observed} {outcome : Outcome} {finishedAt : ℕ}

theorem execute_ok_iff (hcreated : obs.created = .ok ()) {exitCode : ℤ} :
    (∃ result, obs.execute k = .ok result ∧ result.exitCode = exitCode) ↔
      (∃ podName, obs.waitForPod.1 = some podName ∧ podName ≠ "") ∧ (obs.waitForCompletion k).1 = some exitCode := by
  unfold Observed.execute
  rw [hcreated]
  cases hpod : obs.waitForPod.1 with
  | none =>
    refine iff_of_false ?_ ?_
    · rintro ⟨result, hresult, _⟩
      cases hresult
    · rintro ⟨⟨podName, hname, _⟩, _⟩
      cases hname
  | some podName =>
    by_cases hempty : podName = ""
    · simp only [hempty, if_true]
      refine iff_of_false ?_ ?_
      · rintro ⟨result, hresult, _⟩
        cases hresult
      · rintro ⟨⟨podName', hname, hne⟩, _⟩
        exact hne (Option.some.inj hname).symm
    · simp only [hempty, if_false]
      cases hcompletion : (obs.waitForCompletion k).1 with
      | none =>
        refine iff_of_false ?_ fun h => nomatch h.2
        rintro ⟨result, hresult, _⟩
        cases hresult
      | some exitCode' =>
        constructor
        · rintro ⟨result, hresult, rfl⟩
          obtain rfl := Except.ok.inj hresult
          exact ⟨⟨podName, rfl, hempty⟩, rfl⟩
        · rintro ⟨_, hcode⟩
          exact ⟨_, rfl, Option.some.inj hcode⟩

/-- A Job that has succeeded is never read as failed, so each exit code is the one of the success. -/
theorem completionRead_of_succeeded (h : Finishes k obs .succeeded finishedAt) {n : ℕ} {exitCode : ℤ} :
    completionRead (obs.completion n).answer = some exitCode ↔ exitCode = 0 ∧
      ∃ status, (obs.completion n).answer.1 = .ok status ∧ JobCall.positive status.succeeded = true := by
  unfold completionRead
  constructor
  · intro hn
    split at hn
    next => cases hn
    next status hstatus =>
      split_ifs at hn with hsucceeded hfailed
      · exact ⟨(Option.some.inj hn).symm, status, hstatus, hsucceeded⟩
      · obtain ⟨exitCode, hfail⟩ := h.failed n status hstatus hfailed
        cases hfail
  · rintro ⟨rfl, status, hstatus, hsucceeded⟩
    rw [hstatus]
    exact if_pos hsucceeded

/-- A Job that has failed is never read as succeeded. -/
theorem completionRead_of_failed {jobCode : ℤ} (h : Finishes k obs (.failed jobCode) finishedAt) (n : ℕ) :
    completionRead (obs.completion n).answer = failureRead (obs.completion n).answer := by
  unfold completionRead failureRead
  split
  next => rfl
  next status hstatus =>
    split_ifs with hsucceeded hfailed
    · cases h.succeeded n status hstatus hsucceeded
    · cases h.succeeded n status hstatus hsucceeded
    · rfl
    · rfl

theorem waitForCompletion_eq_some_iff (h : Finishes k obs outcome finishedAt) :
    (obs.waitForCompletion k).1 = some outcome.exitCode ↔ FinishSeen k obs outcome := by
  refine pollLoop_eq_some_iff.trans ?_
  cases outcome with
  | succeeded =>
    constructor
    · rintro ⟨n, hn⟩
      obtain ⟨_, status, hstatus, hsucceeded⟩ := (completionRead_of_succeeded h).mp hn.finds
      exact ⟨n, status, hn.intime, hstatus, hsucceeded⟩
    · rintro ⟨n, status, hintime, hread⟩
      have hn : completionRead (obs.completion n).answer = some 0 :=
        (completionRead_of_succeeded h).mpr ⟨rfl, status, hread⟩
      -- The loop ends with the first turn that reads an exit code, and this one is not before it.
      have hfinds : ∃ m, (completionRead (obs.completion m).answer).isSome = true := ⟨n, by rw [hn]; rfl⟩
      obtain ⟨exitCode, hcode⟩ := Option.isSome_iff_exists.mp (Nat.find_spec hfinds)
      obtain ⟨rfl, _⟩ := (completionRead_of_succeeded h).mp hcode
      have hle : Nat.find hfinds ≤ n := Nat.find_min' hfinds (by rw [hn]; rfl)
      have hmono := elapsed_mono obs.completion hle
      refine ⟨Nat.find hfinds, by omega, hcode, fun m hm => ?_⟩
      exact Option.not_isSome_iff_eq_none.mp (Nat.find_min hfinds hm)
  | failed exitCode =>
    have hread := completionRead_of_failed h
    refine exists_congr fun n => ⟨fun hn => ⟨hn.intime, ?_, ?_⟩, fun hn => ⟨hn.intime, ?_, ?_⟩⟩
    · exact (hread n).symm.trans hn.finds
    · exact fun m hm => (hread m).symm.trans (hn.first m hm)
    · exact (hread n).trans hn.finds
    · exact fun m hm => (hread m).trans (hn.first m hm)

/-- **A Job that finishes in time gives its exit code exactly if a pod and the end of the Job are seen.** -/
theorem finished_job_returned_iff (h : Finishes k obs outcome finishedAt) :
    (∃ result, obs.execute k = .ok result ∧ result.exitCode = outcome.exitCode) ↔
      PodSeen obs ∧ FinishSeen k obs outcome := by
  rw [execute_ok_iff h.created]
  refine and_congr ⟨?_, ?_⟩ (waitForCompletion_eq_some_iff h)
  · rintro ⟨podName, hname, hempty⟩
    obtain ⟨n, hn⟩ := pollLoop_eq_some_iff.mp hname
    exact ⟨n, podName, hn, hempty⟩
  · rintro ⟨n, podName, hn, hempty⟩
    exact ⟨podName, pollLoop_eq_some_iff.mpr ⟨n, hn⟩, hempty⟩

end Finished

def steady {α : Type} (answer : α) (_n : ℕ) : Poll α := ⟨answer, 5⟩

/-- A Job of which every poll sees the same. -/
def steadyObserved (phase : String) (status : JobStatus) : Observed :=
  ⟨.ok (), 20, steady (.ok [⟨"sandbox-1-x", phase⟩]), steady (.ok status, .error "terminated is None"),
    ⟨.ok "done", 5⟩, 5⟩

def sampleJob : JobCall := ⟨"sandbox-1", 300⟩

theorem steady_finishes (phase : String) :
    Finishes sampleJob (steadyObserved phase ⟨some 1, none⟩) .succeeded 500 where
  created := rfl
  intime := by decide
  succeeded _ _ _ _ := rfl
  failed _ status hstatus hfailed := by
    obtain rfl : JobStatus.mk (some 1) none = status := Except.ok.inj hstatus
    cases hfailed
  shown _ status hstatus _ := by
    obtain rfl : JobStatus.mk (some 1) none = status := Except.ok.inj hstatus
    exact Or.inl rfl

theorem finished_job_returned_running :
    ∃ result, (steadyObserved "Running" ⟨some 1, none⟩).execute sampleJob = .ok result ∧ result.exitCode = 0 :=
  (finished_job_returned_iff (steady_finishes "Running")).mpr
    ⟨⟨0, "sandbox-1-x", ⟨by decide, rfl, nofun⟩, by decide⟩, ⟨0, ⟨some 1, none⟩, by decide, rfl, rfl⟩⟩

/-- A Job that is done before the first listing: its pod is never pending or running. -/
theorem fast_job_raises : ¬ ∀ (k : JobCall) (obs : Observed) (outcome : Outcome) (finishedAt : ℕ),
    Finishes k obs outcome finishedAt →
      ∃ result, obs.execute k = .ok result ∧ result.exitCode = outcome.exitCode := by
  intro h
  have hresult := h sampleJob _ _ _ (steady_finishes "Succeeded")
  obtain ⟨⟨podName, hname, _⟩, _⟩ := (execute_ok_iff rfl).mp hresult
  obtain ⟨n, hn⟩ := pollLoop_eq_some_iff.mp hname
  cases hn.finds

/-! ## The loops and the steps of a call -/

section Steps
variable (k : JobCall) (clock : Clock)

/-- The state at the head of a turn of `wait_for_pod`. -/
def podTurn (s : JobState) (start passed : ℕ) : JobState := k.waitForPod { s with now := start + passed } start

/-- The state at the head of a turn of `wait_for_completion`. -/
def completionTurn (s : JobState) (podName : String) (start passed : ℕ) : JobState :=
  k.waitForCompletion { s with now := start + passed } start podName

/-- How a loop over the pods ends. -/
def podsEnd (s : JobState) (start : ℕ) (found : Option String × ℕ) : JobState :=
  match found.1 with
  | none => JobCall.cleanupJob { s with now := start + found.2 } (.error k.noPod)
  | some podName =>
    if podName = "" then JobCall.cleanupJob { s with now := start + found.2 } (.error k.noPod)
    else completionTurn k s podName (start + found.2) 0

theorem pods_run (polls : ℕ → Poll (Except String (List PodInfo))) (s : JobState) (start turns n : ℕ)
    (hturns : 60000 < turns + n) :
    ∃ labels, exec (k.step clock) (podTurn k s start (elapsed polls n)) labels =
      some (podsEnd k s start (pollFrom 60000 activePod polls turns n)) := by
  have hlate (n : ℕ) (h : ¬ (elapsed polls n : ℤ) < 60000) :
      podTurn k s start (elapsed polls n) = podsEnd k s start (none, elapsed polls n) := by
    unfold podTurn JobCall.waitForPod podsEnd
    simp only [Nat.add_sub_cancel_left]
    exact if_neg (by omega)
  induction turns generalizing n with
  | zero =>
    have hge := elapsed_ge polls n
    exact ⟨[], congrArg some (hlate n (by omega))⟩
  | succ turns ih =>
    rw [pollFrom]
    split_ifs with hintime
    · have hturn : podTurn k s start (elapsed polls n) =
          { s with now := start + elapsed polls n, pc := .listing start } := by
        unfold podTurn JobCall.waitForPod
        simp only [Nat.add_sub_cancel_left]
        exact if_pos (by omega)
      rw [hturn]
      cases hfind : activePod (polls n).answer with
      | some podName =>
        obtain ⟨pod, hpod, rfl⟩ := Option.map_eq_some_iff.mp hfind
        refine ⟨[.tick (polls n).took, .podsListed (polls n).answer], ?_⟩
        unfold isActive at hpod
        simp only [exec_cons, exec_nil, JobCall.step, Option.bind_some, hpod, podsEnd, completionTurn, Nat.add_zero,
          Nat.add_assoc]
        split_ifs <;> rfl
      | none =>
        obtain ⟨labels, hlabels⟩ := ih (n + 1) (by omega)
        refine ⟨[.tick (polls n).took, .podsListed (polls n).answer, .tick 1000, .slept] ++ labels, ?_⟩
        have hpod : ((polls n).answer.toOption.getD []).find?
            (fun pod => pod.phase == "Pending" || pod.phase == "Running") = none :=
          Option.map_eq_none_iff.mp hfind
        rw [exec_append]
        simp only [exec_cons, exec_nil, JobCall.step, Option.bind_some, hpod, Nat.le_refl, if_true]
        rw [← hlabels, podTurn, elapsed]
        simp only [Nat.add_assoc]
        rfl
    · exact ⟨[], congrArg some (hlate n hintime)⟩

/-- How a loop over the Job ends. -/
def completionEnd (s : JobState) (podName : String) (start : ℕ) (found : Option ℤ × ℕ) : JobState :=
  match found.1 with
  | none => JobCall.cleanupJob { s with now := start + found.2 } (.error k.executionTimedOut)
  | some exitCode => { s with now := start + found.2, pc := .readingLogs podName exitCode }

/-- The labels of a turn of `wait_for_completion` behind its first request. -/
def readLabels (answer : Except String JobStatus × Except String ℤ) : List JobLabel :=
  match answer.1 with
  | .error _ => []
  | .ok status =>
    if JobCall.positive status.succeeded = false ∧ JobCall.positive status.failed = true then [.podRead answer.2]
    else []

theorem exec_read (s : JobState) (start : ℕ) (podName : String) (answer : Except String JobStatus × Except String ℤ) :
    exec (k.step clock) { s with pc := .readingJob start podName } (.jobRead answer.1 :: readLabels answer) =
      some { s with pc := match completionRead answer with
        | some exitCode => .readingLogs podName exitCode
        | none => .beforeReading start (s.now + 1000) podName } := by
  obtain ⟨job, pod⟩ := answer
  unfold readLabels completionRead
  cases job with
  | error e => rfl
  | ok status =>
    simp only
    cases hsucceeded : JobCall.positive status.succeeded <;> cases hfailed : JobCall.positive status.failed <;>
      cases pod <;> simp [exec, JobCall.step, hsucceeded, hfailed, Except.toOption]

theorem completion_run (polls : ℕ → Poll (Except String JobStatus × Except String ℤ)) (s : JobState)
    (podName : String) (start turns n : ℕ) (hturns : (k.timeout * 1000).toNat < turns + n) :
    ∃ labels, exec (k.step clock) (completionTurn k s podName start (elapsed polls n)) labels =
      some (completionEnd k s podName start (pollFrom (k.timeout * 1000) completionRead polls turns n)) := by
  have hlate (n : ℕ) (h : ¬ (elapsed polls n : ℤ) < k.timeout * 1000) :
      completionTurn k s podName start (elapsed polls n) =
        completionEnd k s podName start (none, elapsed polls n) := by
    unfold completionTurn JobCall.waitForCompletion completionEnd
    simp only
    exact if_neg (by omega)
  induction turns generalizing n with
  | zero =>
    have hge := elapsed_ge polls n
    exact ⟨[], congrArg some (hlate n (by omega))⟩
  | succ turns ih =>
    rw [pollFrom]
    split_ifs with hintime
    · have hturn : completionTurn k s podName start (elapsed polls n) =
          { s with now := start + elapsed polls n, pc := .readingJob start podName } := by
        unfold completionTurn JobCall.waitForCompletion
        simp only
        exact if_pos (by omega)
      have hread := exec_read k clock { s with now := start + elapsed polls n + (polls n).took } start podName
        (polls n).answer
      rw [hturn]
      cases hfind : completionRead (polls n).answer with
      | some exitCode =>
        rw [hfind] at hread
        refine ⟨.tick (polls n).took :: .jobRead (polls n).answer.1 :: readLabels (polls n).answer, ?_⟩
        rw [exec_cons]
        simp only [JobCall.step, Option.bind_some, completionEnd, ← Nat.add_assoc]
        exact hread
      | none =>
        rw [hfind] at hread
        obtain ⟨labels, hlabels⟩ := ih (n + 1) (by omega)
        refine ⟨.tick (polls n).took :: (.jobRead (polls n).answer.1 :: readLabels (polls n).answer) ++
          (.tick 1000 :: .slept :: labels), ?_⟩
        rw [List.cons_append, exec_cons]
        simp only [JobCall.step, Option.bind_some]
        rw [exec_append, hread]
        simp only [Option.bind_some, exec_cons, JobCall.step, Nat.le_refl, if_true]
        rw [← hlabels, completionTurn, elapsed]
        simp only [Nat.add_assoc]
        rfl
    · exact ⟨[], congrArg some (hlate n hintime)⟩

/-- The labels of `get_logs` and `cleanup_job` lead to the result. -/
theorem logs_run (obs : Observed) (s : JobState) (podName : String) (exitCode : ℤ) :
    ∃ labels s', exec (k.step clock) { s with pc := .readingLogs podName exitCode } labels = some s' ∧
      s'.pc = .settled (.returned ⟨exitCode, truncated MAX_OUTPUT_SIZE obs.getLogs.1,
        truncated MAX_OUTPUT_SIZE obs.getLogs.2, s.now + obs.logs.took + obs.cleanupTook - s.startTime, k.jobName,
          podName⟩) := by
  refine ⟨[.tick obs.logs.took, .logsRead obs.logs.answer, .tick obs.cleanupTook, .deleted], ?_⟩
  unfold Observed.getLogs
  cases hlogs : obs.logs.answer <;> exact ⟨_, rfl, rfl⟩

theorem cleanup_run (s : JobState) (e : PyError) :
    ∃ labels s', exec (k.step clock) (JobCall.cleanupJob s (.error e)) labels = some s' ∧
      s'.pc = .settled (.raised e) :=
  ⟨[.deleted], _, rfl, rfl⟩

theorem exec_extends {s t : JobState} {labels : List JobLabel} {e : Ending SandboxResult}
    (h : exec (k.step clock) s labels = some t)
    (hrest : ∃ labels s', exec (k.step clock) t labels = some s' ∧ s'.pc = .settled e) :
    ∃ labels s', exec (k.step clock) s labels = some s' ∧ s'.pc = .settled e := by
  obtain ⟨more, s', hmore, hpc⟩ := hrest
  exact ⟨labels ++ more, s', exec_trans h hmore, hpc⟩

/-- How a call ends. -/
def endingOf : Except PyError SandboxResult → Ending SandboxResult
  | .ok result => .returned result
  | .error e => .raised e

/-- **What the loops make of the answers is what the call does step by step.** -/
theorem execute_run (obs : Observed) :
    ∃ labels s, exec (k.step clock) (JobCall.init clock) labels = some s ∧
      s.pc = .settled (endingOf (obs.execute k)) := by
  have hclient : exec (k.step clock) (JobCall.init clock) [.clientReady, .tick obs.createTook] =
      some ⟨clock.began + obs.createTook, clock.began, .creating, .absent⟩ := rfl
  refine exec_extends k clock hclient ?_
  unfold Observed.execute
  cases obs.created with
  | error e =>
    have hfails : exec (k.step clock) ⟨clock.began + obs.createTook, clock.began, .creating, .absent⟩ [.createFails e] =
        k.step clock ⟨clock.began + obs.createTook, clock.began, .creating, .absent⟩ (.createFails e) := rfl
    cases e with
    | timeout => exact exec_extends k clock (hfails.trans rfl) (cleanup_run k clock _ _)
    | other message => exact exec_extends k clock (hfails.trans rfl) (cleanup_run k clock _ _)
  | ok u =>
    have hcreated : exec (k.step clock) ⟨clock.began + obs.createTook, clock.began, .creating, .absent⟩
        [.jobCreated, .created] =
        some (podTurn k ⟨0, clock.began, .creating, .running⟩ (clock.began + obs.createTook) 0) := rfl
    obtain ⟨labels, hpods⟩ := pods_run k clock obs.pods ⟨0, clock.began, .creating, .running⟩
      (clock.began + obs.createTook) 60001 0 (by omega)
    refine exec_extends k clock hcreated (exec_extends k clock hpods ?_)
    have hloop : pollFrom 60000 activePod obs.pods 60001 0 = obs.waitForPod := rfl
    rw [hloop]
    unfold podsEnd
    cases hpod : obs.waitForPod.1 with
    | none => exact cleanup_run k clock _ _
    | some podName =>
      simp only
      split_ifs with hempty
      · exact cleanup_run k clock _ _
      · obtain ⟨labels, hcompletion⟩ := completion_run k clock obs.completion ⟨0, clock.began, .creating, .running⟩
          podName (clock.began + obs.createTook + obs.waitForPod.2) ((k.timeout * 1000).toNat + 1) 0 (by omega)
        refine exec_extends k clock hcompletion ?_
        have hloop' : pollFrom (k.timeout * 1000) completionRead obs.completion ((k.timeout * 1000).toNat + 1) 0 =
            obs.waitForCompletion k := rfl
        rw [hloop']
        unfold completionEnd
        cases hcode : (obs.waitForCompletion k).1 with
        | none => exact cleanup_run k clock _ _
        | some exitCode =>
          obtain ⟨labels, s, hlogs, hpc⟩ := logs_run k clock obs
            ⟨clock.began + obs.createTook + obs.waitForPod.2 + (obs.waitForCompletion k).2, clock.began, .creating,
              .running⟩ podName exitCode
          refine ⟨labels, s, hlogs, ?_⟩
          have hduration : clock.began + obs.createTook + obs.waitForPod.2 + (obs.waitForCompletion k).2 +
              obs.logs.took + obs.cleanupTook - clock.began =
              obs.createTook + obs.waitForPod.2 + (obs.waitForCompletion k).2 + obs.logs.took + obs.cleanupTook := by
            omega
          rw [hpc, hduration]
          rfl

end Steps

end KernelRuntime.SandboxLifetime
