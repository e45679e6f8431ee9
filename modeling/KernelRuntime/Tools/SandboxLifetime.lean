import KernelRuntime.Foundations.Execution
import KernelRuntime.Tools.Router

/-! # What a sandboxed command leaves running

A call of a sandbox starts one workload: a process, a container or a Job. It ends with its result, at its own
timeout, with an error, or by the limit of 120 seconds that the tool worker sets for it. Each backend is
followed from one `await` to the next, beside its workload. Times are in milliseconds. The API server handles
a request before the call that made it goes on, or not at all, and a request to kill or to delete succeeds. -/

namespace KernelRuntime.SandboxLifetime
open ToolExecution (sandboxExecutionError)
set_option autoImplicit false

inductive Workload where
  | absent
  | running
  | ended
deriving DecidableEq

/-- How a call ends. A cancellation is no `Exception`: it passes every `except` clause of the backends. -/
inductive Ending (α : Type) where
  | returned (result : α)
  | raised (e : PyError)
  | cancelled
deriving DecidableEq

/-- When the adapter and the call began, and when the tool worker cancels the call. -/
structure Clock where
  t0 : ℕ
  began : ℕ
  limit : ℕ

/-! ## Calls and their workloads -/

/-- A call of a backend. The labels in `abandons` end it and leave the workload alone; `Inv` is what the
other endings rest on. -/
structure BackendCall where
  State : Type
  Label : Type
  init : State
  step : State → Label → Option State
  settled : State → Prop
  running : State → Prop
  abandons : Label → Prop
  Inv : State → Prop
  inv_init : Inv init
  not_settled_init : ¬ settled init
  inv_step : ∀ s i s', Inv s → step s i = some s' → Inv s'
  releases : ∀ s i s', Inv s → (settled s → ¬ running s) → ¬ abandons i → step s i = some s' → settled s' →
    ¬ running s'
  leaves : ∀ s i s', abandons i → step s i = some s' → settled s' ∧ (running s' ↔ running s)

namespace BackendCall
variable (c : BackendCall)

/-- A call that has ended has left nothing running. -/
def Released (s : c.State) : Prop := c.settled s → ¬ c.running s

/-- The call is not abandoned while its workload runs. -/
def StepOk (s : c.State) (i : c.Label) : Prop := c.abandons i → c.running s → c.step s i = none

theorem released_step {s : c.State} {i : c.Label} {s' : c.State} (hinv : c.Inv s) (h : c.Released s)
    (hok : c.StepOk s i) (hstep : c.step s i = some s') : c.Released s' := by
  by_cases habandons : c.abandons i
  · intro _ hrunning
    have hdisabled := hok habandons ((c.leaves s i s' habandons hstep).2.mp hrunning)
    rw [hstep] at hdisabled
    cases hdisabled
  · exact c.releases s i s' hinv h habandons hstep

theorem not_released_step {s : c.State} {i : c.Label} (h : ¬ c.StepOk s i) :
    ∃ s', c.step s i = some s' ∧ ¬ c.Released s' := by
  simp only [StepOk, Classical.not_imp] at h
  obtain ⟨habandons, hrunning, henabled⟩ := h
  obtain ⟨s', hs'⟩ := Option.ne_none_iff_exists'.mp henabled
  obtain ⟨hsettled, hsame⟩ := c.leaves s i s' habandons hs'
  exact ⟨s', hs', fun h => h hsettled (hsame.mpr hrunning)⟩

theorem always_released_iff_guarded (is : List c.Label) :
    (∀ js ks t, is = js ++ ks → exec c.step c.init js = some t → c.Released t) ↔
      Guarded c.step c.StepOk c.init is :=
  always_iff_guarded c.inv_step (fun _ _ _ hinv h hok hstep => c.released_step hinv h hok hstep)
    (fun _ _ _ _ hbad => c.not_released_step hbad) c.inv_init (fun hsettled => absurd hsettled c.not_settled_init) is

theorem guarded_of_not_abandoned {s : c.State} {is : List c.Label} (h : ∀ i ∈ is, ¬ c.abandons i) :
    Guarded c.step c.StepOk s is := by
  induction is generalizing s with
  | nil => exact True.intro
  | cons i is ih =>
    refine ⟨fun habandons => absurd habandons (h i List.mem_cons_self), fun s' _ => ih fun j hj => ?_⟩
    exact h j (List.mem_cons_of_mem i hj)

end BackendCall

/-! ## The runners of the adapter -/

/-- What tells the two runners apart. -/
structure Runner where
  argv : List String
  cwd : Option String
  env : Option (List (String × String))
  sandbox : String
  title : String
  timeout : ℤ

structure DockerHost where
  enableDood : Bool
  dockerSocket : String
  abspath : String → String

/-- `run_in_docker`. `docker run` in the foreground ends with its container: the two are one workload. -/
def runInDocker (host : DockerHost) (image command workspace containerWorkdir : String) (memoryMb : ℤ)
    (network : String) (timeout : ℤ) : Runner where
  argv :=
    ["docker", "run", "--rm", "--memory=" ++ toString memoryMb ++ "m",
      "--network=" ++ (if host.enableDood then "bridge" else network), "--pids-limit", "256"] ++
    (if host.enableDood then ["-v", host.dockerSocket ++ ":" ++ host.dockerSocket]
      else ["--read-only", "--tmpfs", "/tmp:rw,noexec,nosuid,size=64m"]) ++
    ["-v", host.abspath workspace ++ ":/workspace:rw", "-w", containerWorkdir, image, "/bin/sh", "-c", command]
  cwd := none
  env := none
  sandbox := "docker"
  title := "Docker"
  timeout := timeout

structure LocalHost where
  windows : Bool
  environ : List (String × String)
  pathExists : String → Bool
  getcwd : String

def hiddenVariables : List String := ["AWS_SECRET_ACCESS_KEY", "DATABASE_URL", "JWT_SECRET", "APP_SECRET_KEY"]

def safeEnv (environ : List (String × String)) : List (String × String) :=
  assocSet "SANDBOX_MODE" "local_dev" (environ.filter fun entry => decide (entry.1 ∉ hiddenVariables))

def runLocalDev (host : LocalHost) (command cwd : String) (timeout : ℤ) : Runner where
  argv := if host.windows then ["cmd", "/c", command] else ["/bin/sh", "-c", command]
  cwd := some (if host.pathExists cwd then cwd else host.getcwd)
  env := some (safeEnv host.environ)
  sandbox := "local_dev"
  title := "Local"
  timeout := timeout

/-- A command of the host sees no secret of the runtime. -/
theorem lookup_safeEnv_eq_none (environ : List (String × String)) {name : String} (h : name ∈ hiddenVariables) :
    (safeEnv environ).lookup name = none := by
  have hmode : name ≠ "SANDBOX_MODE" := by
    rintro rfl
    revert h
    decide
  unfold safeEnv
  rw [lookup_assocSet, if_neg hmode, List.lookup_eq_none_iff]
  intro entry hentry
  have hshown := of_decide_eq_true (List.mem_filter.mp hentry).2
  exact bne_iff_ne.mpr fun hsame => hshown (hsame ▸ h)

inductive RunResult where
  | finished (success : Bool) (exitCode : ℤ) (stdout stderr : String) (durationMs : ℕ) (sandbox : String)
  | failed (error sandbox : String)
deriving DecidableEq

inductive RunnerPc where
  /-- It waits for `create_subprocess_exec`. -/
  | starting
  /-- It waits for `communicate`, and no longer than to the deadline. -/
  | communicating (deadline : ℤ)
  | settled (e : Ending RunResult)
deriving DecidableEq

structure RunnerState where
  now : ℕ
  pc : RunnerPc
  process : Workload
  returncode : Option ℤ
  pipesOpen : Bool
deriving DecidableEq

inductive RunnerLabel where
  | tick (ms : ℕ)
  | started
  | startFails (message : String)
  /-- The workload ends by itself. -/
  | exits (code : ℤ)
  | pipesClose
  /-- The two outputs as they are decoded. -/
  | communicated (stdout stderr : String)
  | timedOut
  | fails (message : String)
  | cancelled

/-- `text[:n]`. -/
def truncated (n : ℕ) (text : String) : String := String.ofList (text.toList.take n)

namespace Runner
variable (r : Runner) (clock : Clock)

def executionFailed (message : String) : PyError :=
  sandboxExecutionError (r.title ++ " execution failed: " ++ message)

/-- The dictionary that is returned for a workload that has ended. -/
def finished (s : RunnerState) (code : ℤ) (stdout stderr : String) : RunResult :=
  .finished (code == 0) code (truncated 50000 stdout) (truncated 10000 stderr) (s.now - clock.t0) r.sandbox

def timeoutResult : RunResult := .failed (r.title ++ " timeout after " ++ toString r.timeout ++ "s") r.sandbox

/-- A start that fails or is cancelled leaves no process: `create_subprocess_exec` kills it. -/
def step (s : RunnerState) : RunnerLabel → Option RunnerState
  | .tick ms => some { s with now := s.now + ms }
  | .started =>
    match s.pc with
    | .starting => some { s with
        pc := .communicating (s.now + r.timeout * 1000), process := .running, pipesOpen := true }
    | _ => none
  | .startFails message =>
    match s.pc with
    | .starting => some { s with pc := .settled (.raised (r.executionFailed message)) }
    | _ => none
  | .exits code => if s.process = .running then some { s with process := .ended, returncode := some code } else none
  | .pipesClose => some { s with pipesOpen := false }
  | .communicated stdout stderr =>
    match s.pc, s.returncode with
    | .communicating _, some code =>
      if s.pipesOpen then none else some { s with pc := .settled (.returned (r.finished clock s code stdout stderr)) }
    | _, _ => none
  | .timedOut =>
    match s.pc with
    | .communicating deadline =>
      if deadline ≤ s.now then some { s with pc := .settled (.returned r.timeoutResult) } else none
    | _ => none
  | .fails message =>
    match s.pc with
    | .communicating _ => some { s with pc := .settled (.raised (r.executionFailed message)) }
    | _ => none
  | .cancelled =>
    match s.pc with
    | .settled _ => none
    | _ => if clock.limit ≤ s.now then some { s with pc := .settled .cancelled } else none

def init : RunnerState := ⟨clock.began, .starting, .absent, none, false⟩

def Settled (s : RunnerState) : Prop := ∃ e, s.pc = .settled e

def abandons : RunnerLabel → Bool
  | .timedOut => true
  | .fails _ => true
  | .cancelled => true
  | _ => false

/-- A process that has a return code has ended, and there is none before the start. -/
structure Inv (s : RunnerState) : Prop where
  returncode : ∀ code, s.returncode = some code → s.process = .ended
  starting : s.pc = .starting → s.process = .absent

theorem Inv.init : Inv (init clock) where
  returncode _ h := nomatch h
  starting _ := rfl

variable {s s' : RunnerState} {i : RunnerLabel}

/-- The call goes on, ends beside a process that has ended or never was, or is abandoned. -/
inductive Moves (r : Runner) (clock : Clock) (s : RunnerState) : RunnerLabel → RunnerState → Prop
  | outside {i : RunnerLabel} {s' : RunnerState} (hlabel : abandons i = false) (hpc : s'.pc = s.pc)
      (hprocess : s'.process = s.process ∧ s'.returncode = s.returncode ∨ s.process = .running ∧ s'.process = .ended) :
      Moves r clock s i s'
  | started (hpc : s.pc = .starting) : Moves r clock s .started
      { s with pc := .communicating (s.now + r.timeout * 1000), process := .running, pipesOpen := true }
  | ends {i : RunnerLabel} (e : Ending RunResult) (hlabel : abandons i = false)
      (hidle : s.pc = .starting ∨ ∃ code, s.returncode = some code) : Moves r clock s i { s with pc := .settled e }
  | abandoned {i : RunnerLabel} (e : Ending RunResult) (hlabel : abandons i = true) :
      Moves r clock s i { s with pc := .settled e }

theorem step_cases (h : r.step clock s i = some s') : Moves r clock s i s' := by
  cases i with
  | tick ms => exact Option.some.inj h ▸ .outside rfl rfl (Or.inl ⟨rfl, rfl⟩)
  | started =>
    simp only [step] at h
    split at h
    next hpc => exact Option.some.inj h ▸ .started hpc
    next => cases h
  | startFails message =>
    simp only [step] at h
    split at h
    next hpc => exact Option.some.inj h ▸ .ends _ rfl (Or.inl hpc)
    next => cases h
  | exits code =>
    simp only [step] at h
    split_ifs at h with hrunning
    exact Option.some.inj h ▸ .outside rfl rfl (Or.inr ⟨hrunning, rfl⟩)
  | pipesClose => exact Option.some.inj h ▸ .outside rfl rfl (Or.inl ⟨rfl, rfl⟩)
  | communicated stdout stderr =>
    simp only [step] at h
    split at h
    next code _ hcode =>
      split_ifs at h
      exact Option.some.inj h ▸ .ends _ rfl (Or.inr ⟨code, hcode⟩)
    next => cases h
  | timedOut =>
    simp only [step] at h
    split at h
    next =>
      split_ifs at h
      exact Option.some.inj h ▸ .abandoned _ rfl
    next => cases h
  | fails message =>
    simp only [step] at h
    split at h
    next => exact Option.some.inj h ▸ .abandoned _ rfl
    next => cases h
  | cancelled =>
    simp only [step] at h
    split at h
    next => cases h
    next =>
      split_ifs at h
      exact Option.some.inj h ▸ .abandoned _ rfl

variable {r clock}

theorem Inv.of_moves (h : Inv s) (hmoves : Moves r clock s i s') : Inv s' := by
  cases hmoves with
  | outside hlabel hpc hprocess =>
    rcases hprocess with ⟨hprocess, hcode⟩ | ⟨hrunning, hended⟩
    · exact ⟨by rw [hcode, hprocess]; exact h.returncode, by rw [hpc, hprocess]; exact h.starting⟩
    · refine ⟨fun _ _ => hended, fun hstarting => ?_⟩
      have habsent := h.starting (hpc ▸ hstarting)
      rw [hrunning] at habsent
      cases habsent
  | started hpc =>
    refine ⟨fun code hcode => ?_, nofun⟩
    have hended := h.returncode code hcode
    rw [h.starting hpc] at hended
    cases hended
  | ends e hlabel hidle => exact ⟨h.returncode, nofun⟩
  | abandoned e hlabel => exact ⟨h.returncode, nofun⟩

theorem releases_of_moves (h : Inv s) (hreleased : Settled s → s.process ≠ .running) (hlabel : abandons i = false)
    (hmoves : Moves r clock s i s') (hsettled : Settled s') : s'.process ≠ .running := by
  cases hmoves with
  | outside _ hpc hprocess =>
    obtain ⟨e, he⟩ := hsettled
    rcases hprocess with ⟨hprocess, _⟩ | ⟨_, hended⟩
    · rw [hprocess]
      exact hreleased ⟨e, hpc ▸ he⟩
    · rw [hended]
      decide
  | started hpc =>
    obtain ⟨e, he⟩ := hsettled
    cases he
  | ends e _ hidle =>
    rcases hidle with hstarting | ⟨code, hcode⟩
    · exact h.starting hstarting ▸ (by decide)
    · exact h.returncode code hcode ▸ (by decide)
  | abandoned e habandons =>
    rw [hlabel] at habandons
    cases habandons

theorem leaves_of_moves (hlabel : abandons i = true) (hmoves : Moves r clock s i s') :
    Settled s' ∧ (s'.process = .running ↔ s.process = .running) := by
  cases hmoves with
  | outside hother => rw [hlabel] at hother; cases hother
  | started hpc => cases hlabel
  | ends e hother => rw [hlabel] at hother; cases hother
  | abandoned e _ => exact ⟨⟨e, rfl⟩, Iff.rfl⟩

variable (r clock)

def call : BackendCall where
  State := RunnerState
  Label := RunnerLabel
  init := init clock
  step := r.step clock
  settled := Settled
  running s := s.process = .running
  abandons i := abandons i = true
  Inv := Inv
  inv_init := Inv.init clock
  not_settled_init := fun ⟨_, h⟩ => nomatch h
  inv_step _ _ _ h hstep := h.of_moves (r.step_cases clock hstep)
  releases _ _ _ h hreleased hlabel hstep :=
    releases_of_moves h hreleased (Bool.eq_false_iff.mpr hlabel) (r.step_cases clock hstep)
  leaves _ _ _ hlabel hstep := leaves_of_moves hlabel (r.step_cases clock hstep)

end Runner

/-! ## The executor of Jobs -/

/-- What `KubernetesSandboxExecutor.execute` uses of its configuration, and the name that it makes up. -/
structure JobCall where
  jobName : String
  timeout : ℤ

structure SandboxResult where
  exitCode : ℤ
  stdout : String
  stderr : String
  durationMs : ℕ
  jobName : String
  podName : String
deriving DecidableEq

/-- What is known when the Job is deleted after its end. -/
structure JobOutput where
  exitCode : ℤ
  stdout : String
  stderr : String
  podName : String
deriving DecidableEq

/-- An error of the cluster's API; a timeout of the client has an `except` clause of its own. -/
inductive ApiError where
  | timeout
  | other (message : String)

structure PodInfo where
  name : String
  phase : String

structure JobStatus where
  succeeded : Option ℤ
  failed : Option ℤ

/-- The `await` at which the call is. -/
inductive JobPc where
  /-- `_ensure_client`. -/
  | ensuring
  | creating
  /-- `wait_for_pod`, in the loop that began at `start`. -/
  | listing (start : ℕ)
  | beforeListing (start wake : ℕ)
  /-- `wait_for_completion`. -/
  | readingJob (start : ℕ) (podName : String)
  | readingPod (start : ℕ) (podName : String)
  | beforeReading (start wake : ℕ) (podName : String)
  | readingLogs (podName : String) (exitCode : ℤ)
  /-- `cleanup_job`, and how the call ends afterwards. -/
  | cleaning (next : Except PyError JobOutput)
  | settled (e : Ending SandboxResult)

structure JobState where
  now : ℕ
  startTime : ℕ
  pc : JobPc
  job : Workload

/-- The answers of the cluster, the clock, and what happens to the Job. -/
inductive JobLabel where
  | tick (ms : ℕ)
  | clientReady
  | clientFails (e : PyError)
  /-- The API server handles the request. -/
  | jobCreated
  | created
  | createFails (e : ApiError)
  | podsListed (answer : Except String (List PodInfo))
  | slept
  | jobRead (answer : Except String JobStatus)
  | podRead (answer : Except String ℤ)
  | logsRead (answer : Except String String)
  | deleted
  /-- The Job completes, fails, or passes its `activeDeadlineSeconds`. -/
  | jobEnds
  | cancelled

def MAX_OUTPUT_SIZE : ℕ := 50000

namespace JobCall
variable (k : JobCall) (clock : Clock)

def executionFailed (message : String) : PyError := sandboxExecutionError ("Execution failed: " ++ message)

def executionTimedOut : PyError := sandboxExecutionError ("Execution timed out after " ++ toString k.timeout ++ "s")

def noPod : PyError := executionFailed ("Failed to create pod for job " ++ k.jobName)

/-- `cleanup_job` asks for the deletion of the Job, with its pods. -/
def cleanupJob (s : JobState) (next : Except PyError JobOutput) : JobState :=
  { s with pc := .cleaning next, job := if s.job = .running then .ended else s.job }

/-- The head of the loop of `wait_for_pod`; without a pod `execute` raises, and cleans up. -/
def waitForPod (s : JobState) (start : ℕ) : JobState :=
  if s.now - start < 60000 then { s with pc := .listing start }
  else cleanupJob s (.error k.noPod)

/-- The head of the loop of `wait_for_completion`. -/
def waitForCompletion (s : JobState) (start : ℕ) (podName : String) : JobState :=
  if (s.now : ℤ) - start < k.timeout * 1000 then { s with pc := .readingJob start podName }
  else cleanupJob s (.error k.executionTimedOut)

/-- `status.succeeded is not None and status.succeeded > 0`. -/
def positive (count : Option ℤ) : Bool := count.any fun n => decide (0 < n)

/-- How the call ends once the Job is deleted. -/
def ending (s : JobState) : Except PyError JobOutput → Ending SandboxResult
  | .error e => .raised e
  | .ok output => .returned ⟨output.exitCode, truncated MAX_OUTPUT_SIZE output.stdout,
      truncated MAX_OUTPUT_SIZE output.stderr, s.now - s.startTime, k.jobName, output.podName⟩

/-- Errors of `list_namespaced_pod`, `read_namespaced_job` and `read_namespaced_pod` are logged, and the loop
goes on after a second; the same for `delete_namespaced_job`, whose errors end nothing. -/
def step (s : JobState) : JobLabel → Option JobState
  | .tick ms => some { s with now := s.now + ms }
  | .clientReady =>
    match s.pc with
    | .ensuring => some { s with pc := .creating, startTime := s.now }
    | _ => none
  | .clientFails e =>
    match s.pc with
    | .ensuring => some { s with pc := .settled (.raised e) }
    | _ => none
  | .jobCreated =>
    match s.pc with
    | .creating => if s.job = .absent then some { s with job := .running } else none
    | _ => none
  | .created =>
    match s.pc with
    | .creating => if s.job = .absent then none else some (k.waitForPod s s.now)
    | _ => none
  | .createFails e =>
    match s.pc with
    | .creating => some (cleanupJob s (.error (match e with
        | .timeout => k.executionTimedOut
        | .other message => executionFailed message)))
    | _ => none
  | .podsListed answer =>
    match s.pc with
    | .listing start =>
      match (answer.toOption.getD []).find? fun pod => pod.phase == "Pending" || pod.phase == "Running" with
      | some pod =>
        some (if pod.name = "" then cleanupJob s (.error k.noPod) else k.waitForCompletion s s.now pod.name)
      | none => some { s with pc := .beforeListing start (s.now + 1000) }
    | _ => none
  | .slept =>
    match s.pc with
    | .beforeListing start wake => if wake ≤ s.now then some (k.waitForPod s start) else none
    | .beforeReading start wake podName =>
      if wake ≤ s.now then some (k.waitForCompletion s start podName) else none
    | _ => none
  | .jobRead answer =>
    match s.pc with
    | .readingJob start podName =>
      match answer with
      | .error _ => some { s with pc := .beforeReading start (s.now + 1000) podName }
      | .ok status =>
        if positive status.succeeded then some { s with pc := .readingLogs podName 0 }
        else if positive status.failed then some { s with pc := .readingPod start podName }
        else some { s with pc := .beforeReading start (s.now + 1000) podName }
    | _ => none
  | .podRead answer =>
    match s.pc with
    | .readingPod start podName =>
      match answer with
      | .error _ => some { s with pc := .beforeReading start (s.now + 1000) podName }
      | .ok exitCode => some { s with pc := .readingLogs podName exitCode }
    | _ => none
  | .logsRead answer =>
    match s.pc with
    | .readingLogs podName exitCode =>
      some (cleanupJob s (.ok (match answer with
        | .ok logs => ⟨exitCode, logs, "", podName⟩
        | .error e => ⟨exitCode, "", e, podName⟩)))
    | _ => none
  | .deleted =>
    match s.pc with
    | .cleaning next => some { s with pc := .settled (k.ending s next) }
    | _ => none
  | .jobEnds => if s.job = .running then some { s with job := .ended } else none
  | .cancelled =>
    match s.pc with
    | .settled _ => none
    | _ => if clock.limit ≤ s.now then some { s with pc := .settled .cancelled } else none

def init : JobState := ⟨clock.began, clock.began, .ensuring, .absent⟩

def Settled (s : JobState) : Prop := ∃ e, s.pc = .settled e

def abandons : JobLabel → Bool
  | .cancelled => true
  | _ => false

/-- No Job before the client is there, and none that runs once its deletion was asked for. -/
structure Inv (s : JobState) : Prop where
  ensuring : s.pc = .ensuring → s.job = .absent
  cleaning : ∀ next, s.pc = .cleaning next → s.job ≠ .running

theorem Inv.init : Inv (init clock) where
  ensuring _ := rfl
  cleaning _ h := nomatch h

/-- The call waits for something between its request for a Job and the deletion. -/
def Waits (pc : JobPc) : Prop := pc ≠ .ensuring ∧ (∀ next, pc ≠ .cleaning next) ∧ ∀ e, pc ≠ .settled e

variable {s s' : JobState} {i : JobLabel}

/-- The call waits on, has the Job deleted, ends without a Job or after its deletion, or is cancelled. -/
inductive Moves (s : JobState) : JobLabel → JobState → Prop
  | outside {i : JobLabel} {s' : JobState} (hlabel : abandons i = false) (hpc : s'.pc = s.pc)
      (hjob : s'.job = s.job ∨ s.job = .running ∧ s'.job = .ended) : Moves s i s'
  | waits {i : JobLabel} {s' : JobState} (hlabel : abandons i = false) (hpc : Waits s'.pc) : Moves s i s'
  | cleans {i : JobLabel} (next : Except PyError JobOutput) (hlabel : abandons i = false) :
      Moves s i (cleanupJob s next)
  | ends {i : JobLabel} (e : Ending SandboxResult) (hlabel : abandons i = false)
      (hpc : s.pc = .ensuring ∨ ∃ next, s.pc = .cleaning next) : Moves s i { s with pc := .settled e }
  | abandoned : Moves s .cancelled { s with pc := .settled .cancelled }

theorem moves_waitForPod (s : JobState) (start : ℕ) (hlabel : abandons i = false) :
    Moves s i (k.waitForPod s start) := by
  unfold waitForPod
  split_ifs
  · exact .waits hlabel ⟨nofun, nofun, nofun⟩
  · exact .cleans _ hlabel

theorem moves_waitForCompletion (s : JobState) (start : ℕ) (podName : String) (hlabel : abandons i = false) :
    Moves s i (k.waitForCompletion s start podName) := by
  unfold waitForCompletion
  split_ifs
  · exact .waits hlabel ⟨nofun, nofun, nofun⟩
  · exact .cleans _ hlabel

theorem step_cases (h : k.step clock s i = some s') : Moves s i s' := by
  cases i with
  | tick ms => exact Option.some.inj h ▸ .outside rfl rfl (Or.inl rfl)
  | clientReady =>
    simp only [step] at h
    split at h
    next => exact Option.some.inj h ▸ .waits rfl ⟨nofun, nofun, nofun⟩
    next => cases h
  | clientFails e =>
    simp only [step] at h
    split at h
    next hpc => exact Option.some.inj h ▸ .ends _ rfl (Or.inl hpc)
    next => cases h
  | jobCreated =>
    simp only [step] at h
    split at h
    next hpc =>
      split_ifs at h
      obtain rfl := Option.some.inj h
      exact .waits rfl (by rw [hpc]; exact ⟨nofun, nofun, nofun⟩)
    next => cases h
  | created =>
    simp only [step] at h
    split at h
    next =>
      split_ifs at h
      exact Option.some.inj h ▸ k.moves_waitForPod s _ rfl
    next => cases h
  | createFails e =>
    simp only [step] at h
    split at h
    next => exact Option.some.inj h ▸ .cleans _ rfl
    next => cases h
  | podsListed answer =>
    simp only [step] at h
    split at h
    next start _ =>
      split at h
      next pod _ =>
        split_ifs at h
        · exact Option.some.inj h ▸ .cleans _ rfl
        · exact Option.some.inj h ▸ k.moves_waitForCompletion s _ _ rfl
      next => exact Option.some.inj h ▸ .waits rfl ⟨nofun, nofun, nofun⟩
    next => cases h
  | slept =>
    simp only [step] at h
    split at h
    next =>
      split_ifs at h
      exact Option.some.inj h ▸ k.moves_waitForPod s _ rfl
    next =>
      split_ifs at h
      exact Option.some.inj h ▸ k.moves_waitForCompletion s _ _ rfl
    next => cases h
  | jobRead answer =>
    simp only [step] at h
    split at h
    next =>
      split at h
      next => exact Option.some.inj h ▸ .waits rfl ⟨nofun, nofun, nofun⟩
      next =>
        split_ifs at h
        all_goals exact Option.some.inj h ▸ .waits rfl ⟨nofun, nofun, nofun⟩
    next => cases h
  | podRead answer =>
    simp only [step] at h
    split at h
    next =>
      split at h
      all_goals exact Option.some.inj h ▸ .waits rfl ⟨nofun, nofun, nofun⟩
    next => cases h
  | logsRead answer =>
    simp only [step] at h
    split at h
    next => exact Option.some.inj h ▸ .cleans _ rfl
    next => cases h
  | deleted =>
    simp only [step] at h
    split at h
    next next hpc => exact Option.some.inj h ▸ .ends _ rfl (Or.inr ⟨next, hpc⟩)
    next => cases h
  | jobEnds =>
    simp only [step] at h
    split_ifs at h with hrunning
    exact Option.some.inj h ▸ .outside rfl rfl (Or.inr ⟨hrunning, rfl⟩)
  | cancelled =>
    simp only [step] at h
    split at h
    next => cases h
    next =>
      split_ifs at h
      exact Option.some.inj h ▸ .abandoned

theorem cleanupJob_not_running (s : JobState) (next : Except PyError JobOutput) :
    (cleanupJob s next).job ≠ .running := by
  unfold cleanupJob
  simp only
  split_ifs with h
  · decide
  · exact h

theorem Inv.of_moves (h : Inv s) (hmoves : Moves s i s') : Inv s' := by
  cases hmoves with
  | outside _ hpc hjob =>
    refine ⟨fun hensuring => ?_, fun next hcleaning => ?_⟩
    · have habsent := h.ensuring (hpc ▸ hensuring)
      rcases hjob with hsame | ⟨hrunning, _⟩
      · rw [hsame, habsent]
      · rw [habsent] at hrunning
        cases hrunning
    · have hidle := h.cleaning next (hpc ▸ hcleaning)
      rcases hjob with hsame | ⟨hrunning, _⟩
      · rw [hsame]
        exact hidle
      · exact absurd hrunning hidle
  | waits _ hpc =>
    exact ⟨fun hensuring => absurd hensuring hpc.1, fun next hcleaning => absurd hcleaning (hpc.2.1 next)⟩
  | cleans next _ => exact ⟨nofun, fun _ _ => cleanupJob_not_running s next⟩
  | ends e _ _ => exact ⟨nofun, nofun⟩
  | abandoned => exact ⟨nofun, nofun⟩

theorem releases_of_moves (h : Inv s) (hreleased : Settled s → s.job ≠ .running) (hlabel : abandons i = false)
    (hmoves : Moves s i s') (hsettled : Settled s') : s'.job ≠ .running := by
  cases hmoves with
  | outside _ hpc hjob =>
    obtain ⟨e, he⟩ := hsettled
    rcases hjob with hsame | ⟨_, hended⟩
    · rw [hsame]
      exact hreleased ⟨e, hpc ▸ he⟩
    · rw [hended]
      decide
  | waits _ hpc =>
    obtain ⟨e, he⟩ := hsettled
    exact absurd he (hpc.2.2 e)
  | cleans next _ => exact cleanupJob_not_running s next
  | ends e _ hpc =>
    rcases hpc with hensuring | ⟨next, hcleaning⟩
    · exact h.ensuring hensuring ▸ (by decide)
    · exact h.cleaning next hcleaning
  | abandoned => cases hlabel

theorem leaves_of_moves (hlabel : abandons i = true) (hmoves : Moves s i s') :
    Settled s' ∧ (s'.job = .running ↔ s.job = .running) := by
  cases hmoves with
  | outside hother => rw [hlabel] at hother; cases hother
  | waits hother => rw [hlabel] at hother; cases hother
  | cleans _ hother => rw [hlabel] at hother; cases hother
  | ends _ hother => rw [hlabel] at hother; cases hother
  | abandoned => exact ⟨⟨_, rfl⟩, Iff.rfl⟩

/-- `KubernetesSandboxExecutor.execute` and its Job. -/
def call : BackendCall where
  State := JobState
  Label := JobLabel
  init := init clock
  step := k.step clock
  settled := Settled
  running s := s.job = .running
  abandons i := abandons i = true
  Inv := Inv
  inv_init := Inv.init clock
  not_settled_init := fun ⟨_, h⟩ => nomatch h
  inv_step _ _ _ h hstep := h.of_moves (k.step_cases clock hstep)
  releases _ _ _ h hreleased hlabel hstep :=
    releases_of_moves h hreleased (Bool.eq_false_iff.mpr hlabel) (k.step_cases clock hstep)
  leaves _ _ _ hlabel hstep := leaves_of_moves hlabel (k.step_cases clock hstep)

end JobCall

/-! ## Every backend -/

inductive Backend where
  | docker (host : DockerHost) (image command workspace containerWorkdir : String) (memoryMb : ℤ)
      (network : String) (timeout : ℤ)
  | localDev (host : LocalHost) (command cwd : String) (timeout : ℤ)
  | kubernetes (k : JobCall)

def Backend.call (clock : Clock) : Backend → BackendCall
  | .docker host image command workspace containerWorkdir memoryMb network timeout =>
    (runInDocker host image command workspace containerWorkdir memoryMb network timeout).call clock
  | .localDev host command cwd timeout => (runLocalDev host command cwd timeout).call clock
  | .kubernetes k => k.call clock

/-- **A call of a backend leaves nothing running exactly when it does not end, while its workload runs, by its
own timeout or an error of the two runners, or by a cancellation.** -/
theorem nothing_left_iff_guarded (b : Backend) (clock : Clock) (is : List (b.call clock).Label) :
    (∀ js ks t, is = js ++ ks → exec (b.call clock).step (b.call clock).init js = some t →
      (b.call clock).Released t) ↔ Guarded (b.call clock).step (b.call clock).StepOk (b.call clock).init is :=
  (b.call clock).always_released_iff_guarded is

/-- A command of the host that is still running when its 30 seconds are over. -/
theorem process_left_running : ¬ ∀ (b : Backend) (clock : Clock) (is : List (b.call clock).Label)
    (s : (b.call clock).State), exec (b.call clock).step (b.call clock).init is = some s →
      (b.call clock).Released s := by
  intro h
  have hreleased := h (.localDev ⟨false, [], fun _ => true, "/"⟩ "sleep 60" "/workspace" 30) ⟨0, 0, 120000⟩
    [RunnerLabel.started, .tick 30000, .timedOut]
    (⟨30000, .settled (.returned (.failed "Local timeout after 30s" "local_dev")), .running, none, true⟩ : RunnerState)
    rfl
  exact hreleased ⟨_, rfl⟩ rfl

/-- A Job survives no ending of its call but a cancellation. -/
theorem job_released_of_not_cancelled (k : JobCall) (clock : Clock) {is : List JobLabel}
    (hcancelled : JobLabel.cancelled ∉ is) {s : JobState}
    (hrun : exec (k.step clock) (JobCall.init clock) is = some s) (hsettled : JobCall.Settled s) :
    s.job ≠ .running := by
  have hguarded : Guarded (k.call clock).step (k.call clock).StepOk (k.call clock).init is := by
    refine (k.call clock).guarded_of_not_abandoned fun i hi habandons => ?_
    cases i with
    | cancelled => exact hcancelled hi
    | _ => cases habandons
  exact ((k.call clock).always_released_iff_guarded is).mpr hguarded is [] s (List.append_nil is).symm hrun hsettled

end KernelRuntime.SandboxLifetime
