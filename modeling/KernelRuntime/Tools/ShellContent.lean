import KernelRuntime.Foundations.ShellWords
import KernelRuntime.Tools.GitTools

/-! # Content in single quotes

`sanitize_shell_content`, and the same replacement where the git tools write it out, read back by the shell. -/

namespace KernelRuntime.GitTools
open Shell
set_option autoImplicit false

/-- `sanitize_shell_content`. -/
def sanitizeShellContent (content : String) : String := quoteEscaped content

/-- `safe_content` of `GitWriteTool`. -/
def WriteCall.safeContent (call : WriteCall) : String := quoteEscaped call.content

/-- `safe_message` of `GitCommitTool`. -/
def CommitCall.safeMessage (call : CommitCall) : String := quoteEscaped call.message

def inSingleQuotes (text : String) : String := "'" ++ text ++ "'"

theorem inSingleQuotes_toList (text : String) : (inSingleQuotes text).toList = '\'' :: (text.toList ++ ['\'']) := by
  unfold inSingleQuotes
  simp only [String.toList_append]
  rfl

/-- Behind the opening quote the shell is inside single quotes until the last one. -/
theorem lex_inSingleQuotes (text : String) :
    lex (inSingleQuotes (quoteEscaped text)).toList = some (word text.toList) := by
  have hopen : ∀ rest, run .start ('\'' :: rest) = (run ⟨.single, .nothing, []⟩ rest).map ([.wordStart] ++ ·) :=
    fun rest => run_cons_of_step _ _ rfl
  have hend : run ⟨.word, .nothing, []⟩ [] = some [.wordEnd] := rfl
  unfold lex
  rw [inSingleQuotes_toList, quoteEscaped_toList, hopen, run_escapeSingle, hend]
  rfl

/-! ## Where the text stands in a command -/

theorem writeCommand_quotes (hash : String → ℤ) (call : WriteCall) :
    ∃ front back, writeCommand hash call = front ++ inSingleQuotes call.safeContent ++ back := by
  have hfront : ") &&             echo '" = ") &&             echo " ++ "'" := by decide +kernel
  have hback : "' > " = "'" ++ " > " := by decide +kernel
  refine ⟨"cd /workspace/repos &&             git checkout -b " ++ call.branchName hash ++
    " 2>/dev/null || git checkout " ++ call.branchName hash ++ " &&             mkdir -p $(dirname " ++ call.filepath ++
    ") &&             echo ", " > " ++ call.filepath ++ " &&             git add " ++ call.filepath, ?_⟩
  unfold writeCommand inSingleQuotes WriteCall.safeContent
  rw [hfront, hback]
  simp only [String.append_assoc]

/-- Every text of a list is in the texts put together. -/
theorem intercalate_part (separator part : String) (parts rest : List String) :
    ∃ front back, separator.intercalate (parts ++ part :: rest) = front ++ part ++ back := by
  induction parts with
  | nil =>
    cases rest with
    | nil => exact ⟨"", "", by simp⟩
    | cons next rest =>
      refine ⟨"", separator ++ separator.intercalate (next :: rest), ?_⟩
      rw [List.nil_append, String.intercalate_cons_cons, String.empty_append, String.append_assoc]
  | cons first parts ih =>
    obtain ⟨front, back, h⟩ := ih
    refine ⟨first ++ separator ++ front, back, ?_⟩
    rw [List.cons_append, String.intercalate_cons_of_ne_nil (by simp), h]
    simp only [String.append_assoc]

theorem commitCommand_quotes (sessionId : String) (call : CommitCall) :
    ∃ front back, commitCommand sessionId call = front ++ inSingleQuotes call.safeMessage ++ back := by
  have hfront : "git commit -m '" = "git commit -m " ++ "'" := by decide +kernel
  have hback : "' --allow-empty" = "'" ++ " --allow-empty" := by decide +kernel
  obtain ⟨front, back, h⟩ := intercalate_part " && " ("git commit -m '" ++ quoteEscaped call.message ++ "' --allow-empty")
    (["cd " ++ workspaceOf sessionId] ++ (call.branchName.map fun branch => "git checkout " ++ branch).toList ++
      ["git config user.email 'agent@antigravity.dev'", "git config user.name 'Antigravity Agent'"])
    (if call.push then ["git push origin " ++ call.branchName.getD "HEAD"] else [])
  refine ⟨front ++ "git commit -m ", " --allow-empty" ++ back, ?_⟩
  unfold commitCommand commitCommands inSingleQuotes CommitCall.safeMessage
  rw [hfront, hback] at *
  simp only [List.append_assoc, List.cons_append, List.nil_append, String.append_assoc] at h ⊢
  exact h

/-- **A text that `sanitize_shell_content` escaped, in single quotes, is one word, and the word is the text; so are the
content that `git_write` echoes and the message of a commit.** -/
theorem sanitized_content_is_word :
    (∀ content, lex (inSingleQuotes (sanitizeShellContent content)).toList = some (word content.toList)) ∧
    (∀ (hash : String → ℤ) (call : WriteCall),
      (∃ front back, writeCommand hash call = front ++ inSingleQuotes call.safeContent ++ back) ∧
      lex (inSingleQuotes call.safeContent).toList = some (word call.content.toList)) ∧
    ∀ (sessionId : String) (call : CommitCall),
      (∃ front back, commitCommand sessionId call = front ++ inSingleQuotes call.safeMessage ++ back) ∧
      lex (inSingleQuotes call.safeMessage).toList = some (word call.message.toList) :=
  ⟨lex_inSingleQuotes, fun hash call => ⟨writeCommand_quotes hash call, lex_inSingleQuotes _⟩,
    fun sessionId call => ⟨commitCommand_quotes sessionId call, lex_inSingleQuotes _⟩⟩

end KernelRuntime.GitTools
