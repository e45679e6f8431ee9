import KernelRuntime.Foundations.Base64Standard
import KernelRuntime.Foundations.ShellWords
import KernelRuntime.Foundations.Utf8

/-! # The manifest of a sandbox Job

The command of a sandbox is handed to its container as base64 text inside a script of three programs. The parts of
the manifest that are the same for every Job are left out, but for the number of retries. -/

namespace KernelRuntime.JobManifest
set_option autoImplicit false

structure SandboxConfig where
  command : String
  workingDir : String
  timeout : ℤ
  cpuLimit : String
  memoryLimit : String
  cpuRequest : String
  memoryRequest : String
  image : String
  environment : List (String × String)
  allowNetwork : Bool
  sessionId : Option String
  userId : Option String

/-- `value or default`. -/
def orDefault (value : Option String) (default : String) : String :=
  match value with
  | none => default
  | some text => if text = "" then default else text

structure Manifest where
  name : String
  labels : List (String × String)
  annotations : List (String × String)
  ttlSecondsAfterFinished : ℤ
  backoffLimit : ℕ
  activeDeadlineSeconds : ℤ
  dnsPolicy : String
  image : String
  command : List String
  workingDir : String
  env : List (String × String)
  requests : String × String
  limits : String × String
  /-- The size limit of the volume at `/tmp`. -/
  tmpSizeLimit : String

def getDefaultEnvironment : List (String × String) :=
  [("PYTHONDONTWRITEBYTECODE", "1"), ("PYTHONUNBUFFERED", "1"), ("HOME", "/tmp")]

def getNetworkPolicy (allowNetwork : Bool) : String := if allowNetwork then "ClusterFirst" else "Default"

/-- `base64.b64encode(config.command.encode()).decode()`. -/
def scriptB64 (command : String) : List Char := Base64.standardEncode (encodeUtf8 command)

def script (command : String) : List Char :=
  "echo \"".toList ++ (scriptB64 command ++ "\" | base64 -d | /bin/sh".toList)

/-- `create_job_manifest`, where `md5` gives the hexadecimal digest of some bytes. -/
def createJobManifest (md5 : List UInt8 → String) (config : SandboxConfig) (jobName : String) : Manifest where
  name := jobName
  labels := [("app", "antigravity-sandbox"), ("component", "code-execution"), ("managed-by", "antigravity-runtime"),
    ("session-id", orDefault config.sessionId "none"), ("user-id", orDefault config.userId "system")]
  annotations := [("created-by", "antigravity-runtime"), ("session-id", orDefault config.sessionId ""),
    ("command-hash", String.ofList ((md5 (encodeUtf8 config.command)).toList.take 16))]
  ttlSecondsAfterFinished := min (config.timeout + 300) 3600
  backoffLimit := 0
  activeDeadlineSeconds := config.timeout
  dnsPolicy := getNetworkPolicy config.allowNetwork
  image := config.image
  command := ["/bin/sh", "-c", String.ofList (script config.command)]
  workingDir := config.workingDir
  env := getDefaultEnvironment ++ config.environment
  requests := (config.cpuRequest, config.memoryRequest)
  limits := (config.cpuLimit, config.memoryLimit)
  tmpSizeLimit := config.memoryLimit

/-! ## What the shell makes of the script -/

/-- The tokens of simple commands with pipes between them. -/
def pipeline (commands : List (List String)) : List Shell.Event :=
  (Shell.operator ['|']).intercalate (commands.map fun words => words.flatMap fun w => Shell.word w.toList)

/-- What `echo` prints for one argument, where that does not depend on the implementation. -/
def echo (argument : List Char) : Option (List Char) :=
  if argument = "-n".toList ∨ '\\' ∈ argument then none else some (argument ++ ['\n'])

variable (command : String)

theorem doubleLiteral_of_all {text : List Char} (h : ∀ c ∈ text, Base64.isStandardChar c = true) :
    Shell.doubleLiteral text = true := by
  induction text with
  | nil => rfl
  | cons c text ih =>
    have hc : Base64.isStandardChar c = true := h c List.mem_cons_self
    have hchars : c ≠ '"' ∧ c ≠ '`' ∧ c ≠ '\\' ∧ c ≠ '$' := by
      refine ⟨?_, ?_, ?_, ?_⟩ <;> (rintro rfl; exact absurd hc (by decide))
    have htext := ih fun c hc => h c (List.mem_cons_of_mem _ hc)
    simp [Shell.doubleLiteral, Shell.doubleChar, hchars, htext]

theorem echo_scriptB64 : echo (scriptB64 command) = some (scriptB64 command ++ ['\n']) := by
  have hfree {c : Char} (hc : Base64.isStandardChar c = false) : c ∉ scriptB64 command := by
    intro hmem
    rw [Base64.isStandardChar_of_mem hmem] at hc
    cases hc
  unfold echo
  refine if_neg ?_
  rintro (htext | hback)
  · exact hfree (c := '-') (by decide) (htext ▸ List.mem_cons_self)
  · exact hfree (by decide) hback

theorem reads_echo : Shell.reads .start "echo \"".toList =
    some (Shell.word "echo".toList ++ [.wordStart], ⟨.double, .nothing, []⟩) := by
  decide +kernel

theorem run_behind_text : Shell.run ⟨.word, .nothing, []⟩ " | base64 -d | /bin/sh".toList =
    some (.wordEnd :: (Shell.operator ['|'] ++ (Shell.word "base64".toList ++ (Shell.word "-d".toList ++
      (Shell.operator ['|'] ++ Shell.word "/bin/sh".toList))))) := by
  decide +kernel

/-- **The script is three programs; the first prints the base64 text of the command, which decodes to its bytes.** -/
theorem script_pipeline (md5 : List UInt8 → String) (config : SandboxConfig) (jobName : String) :
    ∃ script text, (createJobManifest md5 config jobName).command = ["/bin/sh", "-c", script] ∧
      text.toList = Base64.standardEncode (encodeUtf8 config.command) ∧
      Shell.lex script.toList = some (pipeline [["echo", text], ["base64", "-d"], ["/bin/sh"]]) ∧
      (echo text.toList).bind Base64.standardDecode = some (encodeUtf8 config.command) := by
  refine ⟨String.ofList (script config.command), String.ofList (scriptB64 config.command), rfl,
    String.toList_ofList, ?_, ?_⟩
  · have hliteral : Shell.doubleLiteral (scriptB64 config.command) = true :=
      doubleLiteral_of_all fun c hc => Base64.isStandardChar_of_mem hc
    have htail : "\" | base64 -d | /bin/sh".toList = '"' :: " | base64 -d | /bin/sh".toList := rfl
    unfold Shell.lex script
    rw [String.toList_ofList, Shell.run_of_reads reads_echo, htail, Shell.run_doubleLiteral hliteral, run_behind_text]
    simp [pipeline, Shell.word, Shell.operator, List.intercalate, List.intersperse]
  · rw [String.toList_ofList, echo_scriptB64]
    exact Base64.standardDecode_encode_newline _

end KernelRuntime.JobManifest
