import KernelRuntime.Foundations.ShellQuoting
import KernelRuntime.Storage.Mount
import KernelRuntime.Tools.BashExecute
import KernelRuntime.Tools.SandboxLifetime

/-! # The git tools

`GitWriteTool` and `GitCommitTool` put their arguments into a shell command. The content of a file and the message
of a commit have their single quotes replaced. -/

namespace KernelRuntime.GitTools
open SandboxLifetime (SandboxResult)
open ToolExecution (occursIn)
set_option autoImplicit false

/-- `text.replace("'", "'\"'\"'")`. -/
def quoteEscaped (text : String) : String := String.ofList (Shell.escapeSingle text.toList)

theorem quoteEscaped_toList (text : String) : (quoteEscaped text).toList = Shell.escapeSingle text.toList :=
  String.toList_ofList

/-! ## Writing a file -/

/-- The arguments of a call; a default takes the place of one that is missing. -/
structure WriteCall where
  filepath : String
  content : String := ""
  branch : Option String := none

/-- `f"agent/edit-{hash(filepath) % 10000}"`. -/
def defaultBranch (hash : String → ℤ) (filepath : String) : String :=
  "agent/edit-" ++ String.ofList (Nat.toDigits 10 (hash filepath % 10000).toNat)

def WriteCall.branchName (hash : String → ℤ) (call : WriteCall) : String :=
  call.branch.getD (defaultBranch hash call.filepath)

/-- The line breaks of the source are inside the text and continue a line: none is in the command. -/
def writeCommand (hash : String → ℤ) (call : WriteCall) : String :=
  "cd /workspace/repos &&             git checkout -b " ++ call.branchName hash ++
    " 2>/dev/null || git checkout " ++ call.branchName hash ++
    " &&             mkdir -p $(dirname " ++ call.filepath ++
    ") &&             echo '" ++ quoteEscaped call.content ++ "' > " ++ call.filepath ++
    " &&             git add " ++ call.filepath

structure WriteResult where
  success : Bool
  filepath : String
  branch : String
  bytesWritten : ℕ
deriving DecidableEq

/-- `GitWriteTool.execute`, where `run` is the sandbox. -/
def gitWrite (hash : String → ℤ) (run : String → Except PyError SandboxResult) (call : WriteCall) :
    Except PyError WriteResult := do
  let result ← run (writeCommand hash call)
  return ⟨decide (result.exitCode = 0), call.filepath, call.branchName hash, call.content.length⟩

/-! ## Committing -/

structure CommitCall where
  message : String := "Agent update"
  branch : Option String := none
  push : Bool := false

def workspaceOf (sessionId : String) : String := "/workspace/" ++ sessionId ++ "/repos"

def DANGEROUS_PATTERNS : List (String × String) :=
  [("password", "Hardcoded password"), ("api_key", "Hardcoded API key"), ("secret", "Potential secret"),
   ("rm -rf /", "Dangerous rm command"), ("eval(", "Eval usage")]

/-- `_scan_changes`. -/
def scanChanges (lower : String → String) (run : String → Except PyError SandboxResult) (workspace : String) :
    Except PyError (List String) := do
  let result ← run ("cd " ++ workspace ++ " && git diff --cached")
  return (DANGEROUS_PATTERNS.filter fun pattern => occursIn pattern.1 (lower result.stdout)).map (·.2)

/-- An empty branch is no branch. -/
def CommitCall.branchName (call : CommitCall) : Option String := call.branch.filter (· ≠ "")

def commitCommands (sessionId : String) (call : CommitCall) : List String :=
  ["cd " ++ workspaceOf sessionId] ++
    (call.branchName.map fun branch => "git checkout " ++ branch).toList ++
    ["git config user.email 'agent@antigravity.dev'",
     "git config user.name 'Antigravity Agent'",
     "git commit -m '" ++ quoteEscaped call.message ++ "' --allow-empty"] ++
    (if call.push then ["git push origin " ++ call.branchName.getD "HEAD"] else [])

def commitCommand (sessionId : String) (call : CommitCall) : String :=
  " && ".intercalate (commitCommands sessionId call)

/-- `_extract_hash`. -/
def extractHash (lower : String → String) (output : String) : String :=
  if occursIn "commit" (lower output) then
    match (Gvfs.words output.toList).find? fun part =>
        decide (part.length = 40) && (lower (String.ofList part)).toList.all (· ∈ "0123456789abcdef".toList) with
    | some part => String.ofList (part.take 8)
    | none => "unknown"
  else "unknown"

inductive CommitResult where
  | risky (risks : List String)
  | ran (success : Bool) (message : String) (branch : Option String) (pushed : Bool) (stdout : String)
      (commitHash : Option String)
deriving DecidableEq

/-- `GitCommitTool.execute`: what is staged is scanned first. -/
def gitCommit (lower : String → String) (run : String → Except PyError SandboxResult) (sessionId : String)
    (call : CommitCall) : Except PyError CommitResult := do
  let risks ← scanChanges lower run (workspaceOf sessionId)
  if risks ≠ [] then return .risky risks
  else
    let result ← run (commitCommand sessionId call)
    return .ran (decide (result.exitCode = 0)) call.message call.branch call.push result.stdout
      (if result.exitCode = 0 then some (extractHash lower result.stdout) else none)

end KernelRuntime.GitTools
