import KernelRuntime.Foundations.TextLines
import KernelRuntime.Foundations.Utf8
import KernelRuntime.Governance.Paths

/-! # Reading a file of the repository

`GitReadTool` reads up to `limit` lines of a file and says whether it left any out. -/

namespace KernelRuntime.GitTools
set_option autoImplicit false

/-- What the tool finds on the disk. What iteration yields from bytes that are not UTF-8 is left open. -/
structure RepositoryDisk where
  pathExists : List String → Bool
  readBytes : List String → Except PyError (List UInt8)
  undecodable : List UInt8 → ℤ → Except PyError (List (List Char))

inductive ReadResult where
  | failed (error : String)
  | success (content : String) (filepath : String) (truncated : String)
deriving DecidableEq

/-- `for i, line in enumerate(f)`, from the line with the number `i` on. -/
def takeLines (limit : ℤ) : ℕ → List (List Char) → List (List Char)
  | _, [] => []
  | i, line :: rest => if (i : ℤ) ≥ limit then [] else line :: takeLines limit (i + 1) rest

/-- The lines that the loop has appended. -/
def readLines (disk : RepositoryDisk) (limit : ℤ) (bytes : List UInt8) : Except PyError (List (List Char)) :=
  match decodeUtf8 bytes with
  | some text => .ok (takeLines limit 0 (fileLines (translateNewlines text.toList)))
  | none => disk.undecodable bytes limit

/-- `GitReadTool.execute`. -/
def gitRead (fs : FileSystem) (disk : RepositoryDisk) (sessionId filepath : String) (limit : ℤ := 500) : ReadResult :=
  match resolveWorkspacePath fs (.str ("repos/" ++ filepath)) sessionId "local" with
  | .error e => .failed e.message
  | .ok fullPath =>
    if disk.pathExists fullPath = false then .failed ("File not found: " ++ filepath)
    else
      match disk.readBytes fullPath >>= readLines disk limit with
      | .error e => .failed e.message
      | .ok lines => .success (String.ofList lines.flatten) filepath
          (if (lines.length : ℤ) = limit then "Truncated by limit" else "Full file")

/-! ## What the result should be -/

/-- The first lines, and whether there are more. -/
def ReadRight (lines : List (List Char)) (filepath : String) (limit : ℤ) (result : ReadResult) : Prop :=
  ∃ content truncated, result = .success content filepath truncated ∧
    content.toList = (lines.take (min limit lines.length).toNat).flatten ∧
    (truncated = "Truncated by limit" ↔ limit < lines.length)

section Reading
variable {limit : ℤ} {lines : List (List Char)}

theorem takeLines_eq (limit : ℤ) (i : ℕ) (lines : List (List Char)) :
    takeLines limit i lines = lines.take (limit - i).toNat := by
  induction lines generalizing i with
  | nil => rw [takeLines, List.take_nil]
  | cons line rest ih =>
    rw [takeLines]
    split_ifs with hreached
    · rw [show (limit - i).toNat = 0 by omega, List.take_zero]
    · rw [ih, show (limit - i).toNat = (limit - (i + 1 : ℕ)).toNat + 1 by omega, List.take_succ_cons]

/-- The loop appends the first lines. -/
theorem takeLines_zero (lines : List (List Char)) (hlimit : 0 ≤ limit) :
    takeLines limit 0 lines = lines.take (min limit lines.length).toNat ∧
      ((takeLines limit 0 lines).length : ℤ) = min limit lines.length := by
  have htake : takeLines limit 0 lines = lines.take (min limit lines.length).toNat := by
    rw [takeLines_eq, show limit - (0 : ℕ) = limit by omega]
    by_cases hle : limit ≤ lines.length
    · rw [show min limit lines.length = limit by omega]
    · rw [show (min limit lines.length).toNat = lines.length by omega, List.take_length, List.take_of_length_le (by omega)]
  refine ⟨htake, ?_⟩
  rw [htake, List.length_take]
  omega

theorem gitRead_text (fs : FileSystem) (disk : RepositoryDisk) (sessionId filepath : String)
    {path : List String} {bytes : List UInt8} {text : String}
    (hpath : resolveWorkspacePath fs (.str ("repos/" ++ filepath)) sessionId "local" = .ok path)
    (hthere : disk.pathExists path = true) (hread : disk.readBytes path = .ok bytes)
    (htext : decodeUtf8 bytes = some text) (hlines : LinesOf (translateNewlines text.toList) lines) :
    gitRead fs disk sessionId filepath limit = .success (String.ofList (takeLines limit 0 lines).flatten) filepath
      (if ((takeLines limit 0 lines).length : ℤ) = limit then "Truncated by limit" else "Full file") := by
  have hresult : (disk.readBytes path >>= readLines disk limit) = .ok (takeLines limit 0 lines) := by
    rw [hread]
    show readLines disk limit bytes = _
    unfold readLines
    simp only [htext, hlines.fileLines_eq]
  unfold gitRead
  rw [hpath]
  simp only [hthere, hresult, Bool.true_eq_false, if_false]

end Reading

/-- **The content is the first lines of the file, and the report is right unless the file has exactly as many lines as
the limit.** -/
theorem git_read_right_iff (fs : FileSystem) (disk : RepositoryDisk) (sessionId filepath : String) {limit : ℤ}
    {path : List String} {bytes : List UInt8} {text : String} {lines : List (List Char)}
    (hpath : resolveWorkspacePath fs (.str ("repos/" ++ filepath)) sessionId "local" = .ok path)
    (hthere : disk.pathExists path = true) (hread : disk.readBytes path = .ok bytes)
    (htext : decodeUtf8 bytes = some text) (hlines : LinesOf (translateNewlines text.toList) lines) (hlimit : 0 ≤ limit) :
    ReadRight lines filepath limit (gitRead fs disk sessionId filepath limit) ↔ (lines.length : ℤ) ≠ limit := by
  obtain ⟨htake, hlength⟩ := takeLines_zero lines hlimit
  rw [gitRead_text fs disk sessionId filepath hpath hthere hread htext hlines]
  constructor
  · rintro ⟨content, truncated, hresult, -, hreport⟩ hsame
    obtain ⟨-, -, rfl⟩ := ReadResult.success.inj hresult
    rw [if_pos (by omega)] at hreport
    have hmore := hreport.mp rfl
    omega
  · intro hne
    refine ⟨_, _, rfl, ?_, ?_⟩
    · rw [String.toList_ofList, htake]
    · split_ifs with hreached
      · exact iff_of_true rfl (by omega)
      · exact iff_of_false (by decide) (by omega)

/-! ## A file of two lines -/

def noteFile : RepositoryDisk where
  pathExists _ := true
  readBytes _ := .ok [104, 105, 10, 98, 121, 101, 10]
  undecodable _ _ := .error ⟨.valueError, "'utf-8' codec can't decode byte 0xff in position 0: invalid start byte"⟩

theorem noteFile_lines : LinesOf (translateNewlines "hi\nbye\n".toList) ["hi\n".toList, "bye\n".toList] :=
  @LinesOf.cons "hi".toList _ _ (by decide +kernel) (@LinesOf.cons "bye".toList _ _ (by decide +kernel) .none)

/-- With a limit of one line the second is reported. -/
theorem first_line_read : ReadRight ["hi\n".toList, "bye\n".toList] "note.txt" 1
    (gitRead (plainFileSystem "/srv/ws" "/tmp") noteFile "s1" "note.txt" 1) :=
  (git_read_right_iff (plainFileSystem "/srv/ws" "/tmp") noteFile "s1" "note.txt" (by rfl) rfl rfl (by decide +kernel)
    noteFile_lines (by decide)).mpr (by decide)

/-- A file of two lines that is read whole is reported as truncated when the limit is two. -/
theorem whole_file_truncated : ¬ ∀ (fs : FileSystem) (disk : RepositoryDisk) (sessionId filepath : String) (limit : ℤ)
    (path : List String) (bytes : List UInt8) (text : String) (lines : List (List Char)),
    resolveWorkspacePath fs (.str ("repos/" ++ filepath)) sessionId "local" = .ok path → disk.pathExists path = true →
    disk.readBytes path = .ok bytes → decodeUtf8 bytes = some text → LinesOf (translateNewlines text.toList) lines →
    0 ≤ limit → ReadRight lines filepath limit (gitRead fs disk sessionId filepath limit) := by
  intro h
  obtain ⟨content, truncated, hresult, -, hreport⟩ := h (plainFileSystem "/srv/ws" "/tmp") noteFile "s1" "note.txt" 2
    ["srv", "ws", "t_local", "s_s1", "repos", "note.txt"] _ "hi\nbye\n" _ (by decide +kernel) rfl rfl (by decide +kernel)
    noteFile_lines (by decide)
  have hread : gitRead (plainFileSystem "/srv/ws" "/tmp") noteFile "s1" "note.txt" 2 =
      .success "hi\nbye\n" "note.txt" "Truncated by limit" := by decide +kernel
  obtain ⟨-, -, rfl⟩ := ReadResult.success.inj (hread.symm.trans hresult)
  exact absurd (hreport.mp rfl) (by decide)

end KernelRuntime.GitTools
