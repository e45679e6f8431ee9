import KernelRuntime.Foundations.ShellShape
import KernelRuntime.Tools.ApiTest
import KernelRuntime.Tools.DatabaseQuery
import KernelRuntime.Tools.GitTools

/-! # What the shell makes of the arguments of a tool

Each command of the tools has a shape. An argument that is put between words without quotes, or into double
quotes, keeps its place in the shape only if it stands for itself there. -/

namespace KernelRuntime.ShellCommands
open Shell
open GitTools (WriteCall CommitCall)
set_option autoImplicit false

/-! ## Writing a file -/

inductive WriteSlot where
  | filepath
  | content
  | branch

def writeShape : List (Slot WriteSlot) :=
  words ["cd", "/workspace/repos"] ++ op "&&" ++ words ["git", "checkout", "-b"] ++ wordOf .branch ++
    fixed [.wordStart, .lit '2', .wordEndRedirect] ++ op ">" ++ words ["/dev/null"] ++ op "||" ++
    words ["git", "checkout"] ++ wordOf .branch ++ op "&&" ++
    words ["mkdir", "-p"] ++ fixed [.wordStart, .substStart] ++ words ["dirname"] ++ wordOf .filepath ++
    fixed [.substEnd, .wordEnd] ++ op "&&" ++
    words ["echo"] ++ wordOf .content ++ op ">" ++ wordOf .filepath ++ op "&&" ++
    words ["git", "add"] ++ wordOf .filepath

def writeValue (hash : String → ℤ) (call : WriteCall) : WriteSlot → List Char
  | .filepath => call.filepath.toList
  | .content => call.content.toList
  | .branch => (call.branchName hash).toList

def between (frames : List Frame) : State := ⟨.gap, .nothing, frames⟩

def inWord (frames : List Frame) : State := ⟨.word, .nothing, frames⟩

def inSingle : State := ⟨.single, .nothing, []⟩

section Write
variable (text more : List Char) (R : List Event)

theorem write_start :
    run .start ("cd /workspace/repos &&             git checkout -b ".toList ++ more) =
        some (simple ["cd", "/workspace/repos"] ++ operator "&&".toList ++ simple ["git", "checkout", "-b"] ++ R) ↔
      run (between []) more = some R :=
  run_of_reads_iff (by decide +kernel) more R

theorem write_branch :
    run (between []) (text ++ (" 2>/dev/null || git checkout ".toList ++ more)) =
        some (word text ++ ([.wordStart, .lit '2', .wordEndRedirect] ++ operator ">".toList ++ simple ["/dev/null"] ++
          operator "||".toList ++ simple ["git", "checkout"] ++ R)) ↔
      bareWord text = true ∧ run (between []) more = some R :=
  run_word_iff rfl (by decide) (gap_of_bare (by decide) (by decide) (by decide)) (by decide +kernel) more

theorem write_branch_again :
    run (between []) (text ++ (" &&             mkdir -p $(dirname ".toList ++ more)) =
        some (word text ++ (operator "&&".toList ++ simple ["mkdir", "-p"] ++ [.wordStart, .substStart] ++
          simple ["dirname"] ++ R)) ↔
      bareWord text = true ∧ run (between [.subst false]) more = some R :=
  run_word_iff rfl (by decide) (gap_of_operator rfl) (by decide +kernel) more

theorem write_directory :
    run (between [.subst false]) (text ++ (") &&             echo '".toList ++ more)) =
        some (word text ++ ([.substEnd, .wordEnd] ++ operator "&&".toList ++ simple ["echo"] ++ [.wordStart] ++ R)) ↔
      bareWord text = true ∧ run inSingle more = some R :=
  run_word_paren_iff rfl (by decide +kernel) more

theorem write_content :
    run inSingle (escapeSingle text ++ ("' > ".toList ++ more)) =
        some (lits text ++ ([.wordEnd] ++ operator ">".toList ++ R)) ↔
      run (between []) more = some R :=
  run_escaped_iff rfl (by decide +kernel) more

theorem write_target :
    run (between []) (text ++ (" &&             git add ".toList ++ more)) =
        some (word text ++ (operator "&&".toList ++ simple ["git", "add"] ++ R)) ↔
      bareWord text = true ∧ run (between []) more = some R :=
  run_word_iff rfl (by decide) (gap_of_operator rfl) (by decide +kernel) more

end Write

/-- **The command that writes a file keeps its shape exactly if the branch and the path are words of their own.** -/
theorem writeCommand_reads_iff (hash : String → ℤ) (call : WriteCall) :
    lex (GitTools.writeCommand hash call).toList = some (fill (writeValue hash call) writeShape) ↔
      bareWord (call.branchName hash).toList = true ∧ bareWord call.filepath.toList = true := by
  have hshape : fill (writeValue hash call) writeShape =
      simple ["cd", "/workspace/repos"] ++ operator "&&".toList ++ simple ["git", "checkout", "-b"] ++
        (word (call.branchName hash).toList ++ ([.wordStart, .lit '2', .wordEndRedirect] ++ operator ">".toList ++
          simple ["/dev/null"] ++ operator "||".toList ++ simple ["git", "checkout"] ++
        (word (call.branchName hash).toList ++ (operator "&&".toList ++ simple ["mkdir", "-p"] ++
          [.wordStart, .substStart] ++ simple ["dirname"] ++
        (word call.filepath.toList ++ ([.substEnd, .wordEnd] ++ operator "&&".toList ++ simple ["echo"] ++ [.wordStart] ++
        (lits call.content.toList ++ ([.wordEnd] ++ operator ">".toList ++
        (word call.filepath.toList ++ (operator "&&".toList ++ simple ["git", "add"] ++
          word call.filepath.toList)))))))))) := by
    unfold writeShape
    simp only [fill_append, fill_words, fill_op, fill_fixed, fill_wordOf, -String.reduceToList]
    simp only [writeValue, word_eq, List.append_assoc, -String.reduceToList]
  have htext : (GitTools.writeCommand hash call).toList =
      "cd /workspace/repos &&             git checkout -b ".toList ++ ((call.branchName hash).toList ++
        (" 2>/dev/null || git checkout ".toList ++ ((call.branchName hash).toList ++
        (" &&             mkdir -p $(dirname ".toList ++ (call.filepath.toList ++
        (") &&             echo '".toList ++ (escapeSingle call.content.toList ++
        ("' > ".toList ++ (call.filepath.toList ++ (" &&             git add ".toList ++ call.filepath.toList)))))))))) := by
    unfold GitTools.writeCommand
    simp only [String.toList_append, GitTools.quoteEscaped_toList, -String.reduceToList, -String.reduceAppend]
    simp only [List.append_assoc, -String.reduceToList]
  rw [hshape, htext, lex, write_start, write_branch, write_branch_again, write_directory, write_content, write_target]
  constructor
  · rintro ⟨hbranch, _, hpath, _⟩
    exact ⟨hbranch, hpath⟩
  · rintro ⟨hbranch, hpath⟩
    exact ⟨hbranch, hbranch, hpath, hpath, run_bareWord_end hpath⟩

/-! ## Committing -/

inductive CommitSlot where
  | sessionId
  | message
  | branch

/-- What is behind the check-out of a branch; without one the head is pushed. -/
def tailShape (branch push : Bool) : List (Slot CommitSlot) :=
  words ["git", "config", "user.email", "agent@antigravity.dev"] ++ op "&&" ++
    words ["git", "config", "user.name", "Antigravity Agent"] ++ op "&&" ++
    words ["git", "commit", "-m"] ++ wordOf .message ++ words ["--allow-empty"] ++
    (if push then op "&&" ++ words ["git", "push", "origin"] ++ (if branch then wordOf .branch else words ["HEAD"])
      else [])

/-- Without a branch nothing is checked out. -/
def commitShape (branch push : Bool) : List (Slot CommitSlot) :=
  words ["cd"] ++ fixed (.wordStart :: lits "/workspace/".toList) ++ [.argument .sessionId] ++
    fixed (lits "/repos".toList ++ [.wordEnd]) ++ op "&&" ++
    (if branch then words ["git", "checkout"] ++ wordOf .branch ++ op "&&" else []) ++ tailShape branch push

def commitValue (sessionId : String) (call : CommitCall) : CommitSlot → List Char
  | .sessionId => sessionId.toList
  | .message => call.message.toList
  | .branch => (call.branchName.getD "").toList

section Commit
variable (text more : List Char) (R : List Event)

theorem commit_start :
    run .start ("cd ".toList ++ ("/workspace/".toList ++ (text ++ ("/repos".toList ++ (" && ".toList ++ more))))) =
        some (simple ["cd"] ++ ([.wordStart] ++ lits "/workspace/".toList ++
          (lits text ++ (lits "/repos".toList ++ [.wordEnd] ++ operator "&&".toList ++ R)))) ↔
      bare text = true ∧ run (between []) more = some R := by
  have hstart : reads .start "cd ".toList = some (simple ["cd"], between []) := by decide +kernel
  have hroot : reads (between []) "/workspace/".toList =
      some ([.wordStart] ++ lits "/workspace/".toList, inWord []) := by decide +kernel
  have hnext : reads (inWord []) ("/repos".toList ++ " && ".toList) =
      some (lits "/repos".toList ++ [.wordEnd] ++ operator "&&".toList, between []) := by decide +kernel
  have hslash : "/repos".toList ++ (" && ".toList ++ more) = '/' :: ("repos".toList ++ (" && ".toList ++ more)) := rfl
  rw [run_of_reads_iff hstart, run_of_reads_iff hroot, hslash, inWord, run_bare_iff (by decide), ← hslash,
    ← List.append_assoc]
  exact and_congr_right fun _ => run_of_reads_iff hnext more R

theorem commit_checkout :
    run (between []) ("git checkout ".toList ++ (text ++ (" && ".toList ++ more))) =
        some (simple ["git", "checkout"] ++ (word text ++ (operator "&&".toList ++ R))) ↔
      bareWord text = true ∧ run (between []) more = some R := by
  have hstart : reads (between []) "git checkout ".toList = some (simple ["git", "checkout"], between []) := by
    decide +kernel
  rw [run_of_reads_iff hstart]
  exact run_word_iff rfl (by decide) (gap_of_operator rfl) (by decide +kernel) more

theorem commit_config :
    run (between []) ("git config user.email 'agent@antigravity.dev'".toList ++ (" && ".toList ++
        ("git config user.name 'Antigravity Agent'".toList ++ (" && ".toList ++ ("git commit -m '".toList ++
          (escapeSingle text ++ ("' --allow-empty".toList ++ more))))))) =
        some (simple ["git", "config", "user.email", "agent@antigravity.dev"] ++ (operator "&&".toList ++
          (simple ["git", "config", "user.name", "Antigravity Agent"] ++ (operator "&&".toList ++
          (simple ["git", "commit", "-m"] ++ ([.wordStart] ++ (lits text ++ ([.wordEnd] ++ [.wordStart] ++
            lits "--allow-empty".toList ++ R)))))))) ↔
      run (inWord []) more = some R := by
  have hemail : reads (between []) ("git config user.email 'agent@antigravity.dev'".toList ++ " && ".toList) =
      some (simple ["git", "config", "user.email", "agent@antigravity.dev"] ++ operator "&&".toList, between []) := by
    decide +kernel
  have hname : reads (between []) ("git config user.name 'Antigravity Agent'".toList ++ " && ".toList) =
      some (simple ["git", "config", "user.name", "Antigravity Agent"] ++ operator "&&".toList, between []) := by
    decide +kernel
  have hmessage : reads (between []) "git commit -m '".toList =
      some (simple ["git", "commit", "-m"] ++ [.wordStart], inSingle) := by decide +kernel
  rw [← List.append_assoc, ← List.append_assoc (simple _), run_of_reads_iff hemail, ← List.append_assoc,
    ← List.append_assoc (simple _), run_of_reads_iff hname, ← List.append_assoc (simple _), run_of_reads_iff hmessage]
  exact run_escaped_iff rfl (by decide +kernel) more

theorem commit_push :
    run (inWord []) (" && ".toList ++ ("git push origin ".toList ++ more)) =
        some ([.wordEnd] ++ (operator "&&".toList ++ (simple ["git", "push", "origin"] ++ R))) ↔
      run (between []) more = some R := by
  have hreads : reads (inWord []) (" && ".toList ++ "git push origin ".toList) =
      some ([.wordEnd] ++ operator "&&".toList ++ simple ["git", "push", "origin"], between []) := by decide +kernel
  rw [← List.append_assoc, ← List.append_assoc, ← List.append_assoc]
  exact run_of_reads_iff hreads more R

end Commit

/-- What is behind the check-out of a branch. -/
def commitTail (call : CommitCall) : List Char :=
  "git config user.email 'agent@antigravity.dev'".toList ++ (" && ".toList ++
    ("git config user.name 'Antigravity Agent'".toList ++ (" && ".toList ++ ("git commit -m '".toList ++
      (escapeSingle call.message.toList ++ ("' --allow-empty".toList ++
        if call.push then " && ".toList ++ ("git push origin ".toList ++ (call.branchName.getD "HEAD").toList)
        else []))))))

theorem commitCommand_toList (sessionId : String) (call : CommitCall) :
    (GitTools.commitCommand sessionId call).toList =
      "cd ".toList ++ ("/workspace/".toList ++ (sessionId.toList ++ ("/repos".toList ++ (" && ".toList ++
        ((call.branchName.elim [] fun branch => "git checkout ".toList ++ (branch.toList ++ " && ".toList)) ++
          commitTail call))))) := by
  unfold GitTools.commitCommand GitTools.commitCommands GitTools.workspaceOf commitTail
  rw [String.toList_intercalate]
  cases call.branchName <;> cases call.push <;>
    simp [List.intercalate, List.intersperse, GitTools.quoteEscaped_toList, -String.reduceToList, -String.reduceAppend]

theorem push_reads (sessionId : String) (call : CommitCall)
    (hbranch : ∀ branch ∈ call.branchName, bareWord branch.toList = true) :
    run (inWord []) (if call.push then " && ".toList ++ ("git push origin ".toList ++
        (call.branchName.getD "HEAD").toList) else []) =
      some ([.wordEnd] ++ fill (commitValue sessionId call) (if call.push then op "&&" ++
        words ["git", "push", "origin"] ++ (if call.branchName.isSome then wordOf .branch else words ["HEAD"])
          else [])) := by
  cases call.push with
  | false => rfl
  | true =>
    simp only [if_true, fill_append, fill_op, fill_words, List.append_assoc, -String.reduceToList]
    rw [commit_push]
    cases hname : call.branchName with
    | none =>
      rw [Option.isSome_none, if_neg Bool.false_ne_true, fill_words]
      decide +kernel
    | some branch =>
      have hvalue : commitValue sessionId call .branch = branch.toList := by
        rw [commitValue, hname]
        rfl
      rw [Option.isSome_some, if_pos rfl, fill_wordOf, hvalue]
      exact run_bareWord_end (hbranch branch hname)

theorem commitTail_reads (sessionId : String) (call : CommitCall)
    (hbranch : ∀ branch ∈ call.branchName, bareWord branch.toList = true) :
    run (between []) (commitTail call) =
      some (fill (commitValue sessionId call) (tailShape call.branchName.isSome call.push)) := by
  have hempty : simple ["--allow-empty"] = [.wordStart] ++ (lits "--allow-empty".toList ++ [.wordEnd]) := rfl
  have htail := (commit_config call.message.toList _ _).mpr (push_reads sessionId call hbranch)
  unfold tailShape commitTail
  simp only [fill_append, fill_op, fill_words, fill_wordOf, word_eq, hempty, List.append_assoc,
    -String.reduceToList] at htail ⊢
  exact htail

/-- **The command that commits keeps its shape exactly if the branch is a word of its own.** The message does not
matter; the session stands inside a word. -/
theorem commitCommand_reads_iff (sessionId : String) (call : CommitCall) :
    lex (GitTools.commitCommand sessionId call).toList =
        some (fill (commitValue sessionId call) (commitShape call.branchName.isSome call.push)) ↔
      bare sessionId.toList = true ∧ ∀ branch ∈ call.branchName, bareWord branch.toList = true := by
  have hfirst : fill (commitValue sessionId call) (commitShape call.branchName.isSome call.push) =
      simple ["cd"] ++ ([.wordStart] ++ lits "/workspace/".toList ++ (lits sessionId.toList ++
        (lits "/repos".toList ++ [.wordEnd] ++ operator "&&".toList ++
          ((call.branchName.elim [] fun branch => simple ["git", "checkout"] ++
              (word branch.toList ++ operator "&&".toList)) ++
            fill (commitValue sessionId call) (tailShape call.branchName.isSome call.push))))) := by
    have hvalue : commitValue sessionId call .branch = (call.branchName.getD "").toList := rfl
    unfold commitShape
    simp only [fill_append, fill_words, fill_op, fill_fixed, fill_argument, List.append_assoc, -String.reduceToList]
    cases hname : call.branchName with
    | none => rfl
    | some branch =>
      rw [hname, Option.getD_some] at hvalue
      simp only [Option.isSome_some, if_true, fill_append, fill_words, fill_op, fill_wordOf, hvalue, Option.elim_some,
        List.append_assoc, -String.reduceToList]
      rfl
  rw [hfirst, commitCommand_toList, lex, commit_start]
  refine and_congr_right fun _ => ?_
  cases hname : call.branchName with
  | none =>
    have htail := commitTail_reads sessionId call (by simp [hname])
    rw [hname] at htail
    exact iff_of_true htail nofun
  | some branch =>
    simp only [Option.elim_some, List.append_assoc, -String.reduceToList]
    rw [commit_checkout]
    constructor
    · rintro ⟨hbranch, _⟩ branch' hbranch'
      obtain rfl := Option.some.inj hbranch'
      exact hbranch
    · intro hbranch
      have htail := commitTail_reads sessionId call (by rw [hname]; exact hbranch)
      rw [hname] at htail
      exact ⟨hbranch branch rfl, htail⟩

end KernelRuntime.ShellCommands
