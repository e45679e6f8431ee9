import KernelRuntime.Storage.Mount
import KernelRuntime.Tools.BashExecute
import KernelRuntime.Tools.SandboxLifetime

/-! # The database tool

`DatabaseQueryTool` looks for words in the text of a query, makes sure that the letters of LIMIT are in it, and
hands it to `psql` in a sandbox. -/

namespace KernelRuntime.DatabaseQuery
open Gvfs (strip)
open SandboxLifetime (SandboxResult)
open ToolExecution (occursIn)
set_option autoImplicit false

/-- The arguments of a call. The limit is the text that it is formatted to; nothing asks for its type. -/
structure Query where
  connectionId : String
  query : String := ""
  limit : String := "100"

def BLOCKED_KEYWORDS : List String :=
  ["INSERT", "UPDATE", "DELETE", "DROP", "ALTER", "CREATE", "TRUNCATE", "GRANT", "REVOKE", "EXECUTE", "MERGE", "UPSERT"]

inductive Result where
  | blocked (keyword : String)
  | notSelect
  | ran (success : Bool) (connectionId query : String) (results error : Option String) (rowCount : ℤ)
deriving DecidableEq

def Result.error : Result → Option String
  | .blocked keyword => some ("Write operations blocked. Use database_migrate tool for " ++ keyword)
  | .notSelect => some "Only SELECT queries allowed"
  | .ran _ _ _ _ error _ => error

variable (upper : String → String)

/-- `kwargs.get("query", "").strip()`. -/
def stripped (q : Query) : String := String.ofList (strip q.query.toList)

def blockedKeyword (query : String) : Option String :=
  BLOCKED_KEYWORDS.find? fun keyword => occursIn keyword (upper query)

/-- The checks of the tool. -/
def refusal (q : Query) : Option Result :=
  match blockedKeyword upper (stripped q) with
  | some keyword => some (.blocked keyword)
  | none => if "SELECT".toList <+: (upper (stripped q)).toList then none else some .notSelect

/-- The text that is handed to `psql`. -/
def sqlText (q : Query) : String :=
  if occursIn "LIMIT" (upper (stripped q)) then stripped q else stripped q ++ " LIMIT " ++ q.limit

def command (q : Query) : String :=
  "psql \"$(cat /secrets/" ++ q.connectionId ++ ")\" -c \"" ++ sqlText upper q ++ "\" --csv 2>&1"

/-- `DatabaseQueryTool.execute`, where `run` is the sandbox. -/
def execute (run : String → Except PyError SandboxResult) (q : Query) : Except PyError Result :=
  match refusal upper q with
  | some refused => .ok refused
  | none => do
    let result ← run (command upper q)
    if result.exitCode = 0 then
      return .ran true q.connectionId (sqlText upper q) (some result.stdout) none
        ((ToolExecution.countLines false result.stdout.toList : ℤ) - 1)
    else return .ran false q.connectionId (sqlText upper q) none (some result.stderr) 0

variable {upper} {q : Query}

theorem refusal_eq_none_iff : refusal upper q = none ↔
    (∀ keyword ∈ BLOCKED_KEYWORDS, occursIn keyword (upper (stripped q)) = false) ∧
      "SELECT".toList <+: (upper (stripped q)).toList := by
  unfold refusal
  cases hblocked : blockedKeyword upper (stripped q) with
  | some keyword =>
    refine iff_of_false nofun fun h => ?_
    have hfound := List.find?_some hblocked
    rw [h.1 keyword (List.mem_of_find?_eq_some hblocked)] at hfound
    cases hfound
  | none =>
    have hfree : ∀ keyword ∈ BLOCKED_KEYWORDS, occursIn keyword (upper (stripped q)) = false :=
      fun keyword hkeyword => Bool.eq_false_iff.mpr (List.find?_eq_none.mp hblocked keyword hkeyword)
    simp only [ite_eq_left_iff, reduceCtorEq, imp_false, not_not]
    exact ⟨fun h => ⟨hfree, h⟩, fun h => h.2⟩

/-- Every query that runs was let through, and its text is the one that is reported. -/
theorem execute_ran {run : String → Except PyError SandboxResult} {success : Bool} {connectionId query : String}
    {results error : Option String} {rowCount : ℤ}
    (h : execute upper run q = .ok (.ran success connectionId query results error rowCount)) :
    refusal upper q = none ∧ query = sqlText upper q ∧ connectionId = q.connectionId := by
  unfold execute at h
  cases hrefusal : refusal upper q with
  | some refused =>
    rw [hrefusal] at h
    obtain rfl := Except.ok.inj h
    unfold refusal at hrefusal
    split at hrefusal
    · cases hrefusal
    · split_ifs at hrefusal
      cases hrefusal
  | none =>
    rw [hrefusal] at h
    obtain ⟨result, _, h⟩ := bind_eq_ok_iff.mp h
    split_ifs at h
    all_goals cases h
    all_goals exact ⟨rfl, rfl, rfl⟩

end KernelRuntime.DatabaseQuery
