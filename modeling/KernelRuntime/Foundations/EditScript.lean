import KernelRuntime.Foundations.SequenceMatcher

/-! # Edit scripts

The codes that `difflib` makes of the matching blocks, the groups that it makes of the codes, and the hunks of a unified
diff. A hunk says where it stands in both sequences, so a patch tool can check it before it is applied. -/

namespace KernelRuntime.SequenceMatcher
set_option autoImplicit false

inductive Tag where
  | replace
  | delete
  | insert
  | equal
deriving DecidableEq

structure Opcode where
  tag : Tag
  i1 : ℕ
  i2 : ℕ
  j1 : ℕ
  j2 : ℕ
deriving DecidableEq

/-- What stands between two blocks. -/
def gapCodes (i ai j bj : ℕ) : List Opcode :=
  if i < ai ∧ j < bj then [⟨.replace, i, ai, j, bj⟩]
  else if i < ai then [⟨.delete, i, ai, j, bj⟩]
  else if j < bj then [⟨.insert, i, ai, j, bj⟩]
  else []

def blockCodes (m : Match) : List Opcode :=
  if m.size = 0 then [] else [⟨.equal, m.a, m.a + m.size, m.b, m.b + m.size⟩]

def opcodesFrom : ℕ → ℕ → List Match → List Opcode
  | _, _, [] => []
  | i, j, m :: ms => gapCodes i m.a j m.b ++ blockCodes m ++ opcodesFrom (m.a + m.size) (m.b + m.size) ms

/-- `get_opcodes`. -/
def getOpcodes {α : Type*} [DecidableEq α] (a b : List α) : List Opcode := opcodesFrom 0 0 (getMatchingBlocks a b)

/-- The last `n` of an equal range. -/
def Opcode.tail (n : ℕ) (c : Opcode) : Opcode := { c with i1 := max c.i1 (c.i2 - n), j1 := max c.j1 (c.j2 - n) }

/-- The first `n` of it. -/
def Opcode.head (n : ℕ) (c : Opcode) : Opcode := { c with i2 := min c.i2 (c.i1 + n), j2 := min c.j2 (c.j1 + n) }

def trimFirst (n : ℕ) : List Opcode → List Opcode
  | [] => []
  | c :: cs => (if c.tag = .equal then c.tail n else c) :: cs

def trimLast (n : ℕ) : List Opcode → List Opcode
  | [] => []
  | [c] => [if c.tag = .equal then c.head n else c]
  | c :: d :: cs => c :: trimLast n (d :: cs)

/-- A group that shows no change is left out at the end. -/
def lastGroup : List Opcode → List (List Opcode)
  | [] => []
  | [c] => if c.tag = .equal then [] else [[c]]
  | group => [group]

/-- The loop over the codes: a long equal range ends a group and starts the next one. -/
def groupCodes (n : ℕ) : List Opcode → List Opcode → List (List Opcode)
  | group, [] => lastGroup group
  | group, c :: cs =>
    if c.tag = .equal ∧ n + n < c.i2 - c.i1 then (group ++ [c.head n]) :: groupCodes n [c.tail n] cs
    else groupCodes n (group ++ [c]) cs

/-- `get_grouped_opcodes`. -/
def getGroupedOpcodes {α : Type*} [DecidableEq α] (a b : List α) (n : ℕ) : List (List Opcode) :=
  let codes := match getOpcodes a b with
    | [] => [⟨.equal, 0, 1, 0, 1⟩]
    | codes => codes
  groupCodes n [] (trimLast n (trimFirst n codes))

/-! ## Hunks -/

inductive Mark where
  | context
  | removed
  | added
deriving DecidableEq

/-- A hunk replaces `old[i1:i2]` by `new[j1:j2]`. -/
structure Hunk (α : Type*) where
  i1 : ℕ
  i2 : ℕ
  j1 : ℕ
  j2 : ℕ
  lines : List (Mark × α)

section Patches
variable {α : Type*} [DecidableEq α]

/-- `l[i:j]`. -/
def slice (l : List α) (i j : ℕ) : List α := (l.drop i).take (j - i)

def codeLines (a b : List α) (c : Opcode) : List (Mark × α) :=
  let removed := (slice a c.i1 c.i2).map fun x => (Mark.removed, x)
  let added := (slice b c.j1 c.j2).map fun x => (Mark.added, x)
  match c.tag with
  | .equal => (slice a c.i1 c.i2).map fun x => (Mark.context, x)
  | .replace => removed ++ added
  | .delete => removed
  | .insert => added

/-- The hunk of a group, from its first code to its last one. -/
def hunkOf (a b : List α) : List Opcode → Option (Hunk α)
  | [] => none
  | first :: rest =>
    let last := rest.getLast?.getD first
    some ⟨first.i1, last.i2, first.j1, last.j2, (first :: rest).flatMap (codeLines a b)⟩

/-- The hunks of `unified_diff`. -/
def hunks (a b : List α) (n : ℕ) : List (Hunk α) := (getGroupedOpcodes a b n).filterMap (hunkOf a b)

/-- What a patch tool does with the lines of a hunk: the new lines, and the old ones that are left. -/
def applyLines : List (Mark × α) → List α → Option (List α × List α)
  | [], old => some ([], old)
  | (.added, x) :: lines, old => (applyLines lines old).map fun r => (x :: r.1, r.2)
  | (_, _) :: _, [] => none
  | (.context, x) :: lines, y :: old => if x = y then (applyLines lines old).map fun r => (x :: r.1, r.2) else none
  | (.removed, x) :: lines, y :: old => if x = y then applyLines lines old else none

/-- The hunks from the `i`-th old line and the `j`-th new one on. A hunk must stand behind the ones before it, and its
lines must be as many as it says. -/
def applyHunks : ℕ → ℕ → List (Hunk α) → List α → Option (List α)
  | _, _, [], old => some old
  | i, j, h :: hs, old =>
    if i ≤ h.i1 ∧ h.j1 = j + (h.i1 - i) ∧ h.i1 - i ≤ old.length then
      match applyLines h.lines (old.drop (h.i1 - i)) with
      | some (new, rest) =>
        if h.i1 + (old.length - (h.i1 - i)) = h.i2 + rest.length ∧ h.j1 + new.length = h.j2 then
          (applyHunks h.i2 h.j2 hs rest).map fun tail => old.take (h.i1 - i) ++ new ++ tail
        else none
      | none => none
    else none

def patch (hs : List (Hunk α)) (old : List α) : Option (List α) := applyHunks 0 0 hs old

end Patches

/-! ## Equal ranges -/

section Ranges
variable {α : Type*} {a b : List α}

/-- From `(i, j)` to `(i', j')` the two sequences are equal. -/
structure Equal (a b : List α) (i j i' j' : ℕ) : Prop where
  le : i ≤ i'
  size : i' + j = i + j'
  lengths : i' ≤ a.length ∧ j' ≤ b.length
  same : slice a i i' = slice b j j'

theorem slice_self (l : List α) (i : ℕ) : slice l i i = [] := by
  rw [slice, Nat.sub_self, List.take_zero]

theorem slice_length {l : List α} {i j : ℕ} (hij : i ≤ j) (hj : j ≤ l.length) : (slice l i j).length = j - i := by
  rw [slice, List.length_take, List.length_drop]
  omega

theorem slice_append (l : List α) {i j k : ℕ} (hij : i ≤ j) (hjk : j ≤ k) : slice l i j ++ slice l j k = slice l i k := by
  unfold slice
  rw [show k - i = (j - i) + (k - j) by omega, List.take_add, List.drop_drop, show i + (j - i) = j by omega]

theorem slice_drop (l : List α) {i j : ℕ} (hij : i ≤ j) : slice l i j ++ l.drop j = l.drop i := by
  have h := List.take_append_drop (j - i) (l.drop i)
  rwa [List.drop_drop, show i + (j - i) = j by omega] at h

theorem Equal.refl {i j : ℕ} (hi : i ≤ a.length) (hj : j ≤ b.length) : Equal a b i j i j :=
  ⟨Nat.le_refl _, rfl, ⟨hi, hj⟩, by rw [slice_self, slice_self]⟩

theorem Equal.trans {i j i' j' i'' j'' : ℕ} (h : Equal a b i j i' j') (h' : Equal a b i' j' i'' j'') :
    Equal a b i j i'' j'' := by
  have := h.size
  have := h'.size
  have := h.le
  have := h'.le
  refine ⟨by omega, by omega, h'.lengths, ?_⟩
  rw [← slice_append a h.le h'.le, h.same, h'.same, slice_append b (by omega) (by omega)]

theorem Equal.split {i j k l i' j' : ℕ} (h : Equal a b i j i' j') (hk : i ≤ k) (hk' : k ≤ i') (hl : k + j = i + l) :
    Equal a b i j k l ∧ Equal a b k l i' j' := by
  have hsize := h.size
  obtain ⟨hi, hj⟩ := h.lengths
  have happend : slice a i k ++ slice a k i' = slice b j l ++ slice b l j' := by
    rw [slice_append a hk hk', slice_append b (by omega) (by omega), h.same]
  obtain ⟨hfirst, hsecond⟩ := List.append_inj happend (by
    rw [slice_length hk (by omega), slice_length (by omega) (by omega)]
    omega)
  exact ⟨⟨hk, hl, by omega, hfirst⟩, ⟨hk', by omega, by omega, hsecond⟩⟩

theorem Equal.ends {i j : ℕ} (h : Equal a b i j a.length b.length) : a.drop i = b.drop j := by
  have := h.size
  have := h.le
  have hsame := h.same
  unfold slice at hsame
  rwa [List.take_of_length_le (by rw [List.length_drop]), List.take_of_length_le (by rw [List.length_drop])] at hsame

end Ranges

/-! ## Scripts -/

section Scripts
variable {α : Type*} {a b : List α}

/-- A code stands for a step through both sequences. -/
structure Opcode.Valid (a b : List α) (c : Opcode) : Prop where
  old : c.i1 ≤ c.i2 ∧ c.i2 ≤ a.length
  new : c.j1 ≤ c.j2 ∧ c.j2 ≤ b.length
  equal : c.tag = .equal → Equal a b c.i1 c.j1 c.i2 c.j2
  delete : c.tag = .delete → c.j1 = c.j2
  insert : c.tag = .insert → c.i1 = c.i2

/-- The codes lead from `(i, j)` to `(i', j')`. -/
def Path (a b : List α) (i j : ℕ) : List Opcode → ℕ → ℕ → Prop
  | [], i', j' => i = i' ∧ j = j'
  | c :: cs, i', j' => c.i1 = i ∧ c.j1 = j ∧ c.Valid a b ∧ Path a b c.i2 c.j2 cs i' j'

theorem Path.append {i j i' j' i'' j'' : ℕ} {cs ds : List Opcode} (h : Path a b i j cs i' j')
    (h' : Path a b i' j' ds i'' j'') : Path a b i j (cs ++ ds) i'' j'' := by
  induction cs generalizing i j with
  | nil =>
    obtain ⟨rfl, rfl⟩ := h
    exact h'
  | cons c cs ih => exact ⟨h.1, h.2.1, h.2.2.1, ih h.2.2.2⟩

theorem Path.bounds {i j i' j' : ℕ} {cs : List Opcode} (h : Path a b i j cs i' j') (hi : i ≤ a.length) (hj : j ≤ b.length) :
    (i ≤ i' ∧ i' ≤ a.length) ∧ j ≤ j' ∧ j' ≤ b.length := by
  induction cs generalizing i j with
  | nil =>
    obtain ⟨rfl, rfl⟩ := h
    exact ⟨⟨Nat.le_refl _, hi⟩, Nat.le_refl _, hj⟩
  | cons c cs ih =>
    obtain ⟨rfl, rfl, hvalid, hrest⟩ := h
    have hold := hvalid.old
    have hnew := hvalid.new
    have := ih hrest hold.2 hnew.2
    omega

theorem Path.last {i j i' j' : ℕ} {c : Opcode} {cs : List Opcode} (h : Path a b i j (c :: cs) i' j') :
    (cs.getLast?.getD c).i2 = i' ∧ (cs.getLast?.getD c).j2 = j' := by
  induction cs generalizing i j c with
  | nil => exact h.2.2.2
  | cons d cs ih =>
    rw [List.getLast?_cons, Option.getD_some]
    exact ih h.2.2.2

theorem path_gapCodes {i ai j bj : ℕ} (hi : i ≤ ai) (hj : j ≤ bj) (hai : ai ≤ a.length) (hbj : bj ≤ b.length) :
    Path a b i j (gapCodes i ai j bj) ai bj := by
  unfold gapCodes
  split_ifs
  · exact ⟨rfl, rfl, ⟨⟨hi, hai⟩, ⟨hj, hbj⟩, by rintro ⟨⟩, by rintro ⟨⟩, by rintro ⟨⟩⟩, rfl, rfl⟩
  · exact ⟨rfl, rfl, ⟨⟨hi, hai⟩, ⟨hj, hbj⟩, by rintro ⟨⟩, fun _ => by simp only; omega, by rintro ⟨⟩⟩, rfl, rfl⟩
  · exact ⟨rfl, rfl, ⟨⟨hi, hai⟩, ⟨hj, hbj⟩, by rintro ⟨⟩, by rintro ⟨⟩, fun _ => by simp only; omega⟩, rfl, rfl⟩
  · exact ⟨by omega, by omega⟩

theorem Block.equal {m : Match} (h : Block a b ⟨0, a.length, 0, b.length⟩ m) :
    Equal a b m.a m.b (m.a + m.size) (m.b + m.size) := by
  refine ⟨by omega, by omega, ⟨h.ahi, h.bhi⟩, List.ext_getElem? fun t => ?_⟩
  unfold slice
  rw [Nat.add_sub_cancel_left, Nat.add_sub_cancel_left, List.getElem?_take, List.getElem?_take]
  split_ifs with ht
  · rw [List.getElem?_drop, List.getElem?_drop, h.same t ht]
  · rfl

theorem path_blockCodes {m : Match} (h : Block a b ⟨0, a.length, 0, b.length⟩ m) :
    Path a b m.a m.b (blockCodes m) (m.a + m.size) (m.b + m.size) := by
  have hequal := h.equal
  unfold blockCodes
  split_ifs with hsize
  · exact ⟨by omega, by omega⟩
  · exact ⟨rfl, rfl, ⟨⟨hequal.le, h.ahi⟩, ⟨by simp only; omega, h.bhi⟩, fun _ => hequal, by rintro ⟨⟩, by rintro ⟨⟩⟩, rfl, rfl⟩

theorem path_opcodesFrom {i j : ℕ} {ms : List Match} {last : Match} (hchain : Chain a b (ms ++ [last]))
    (hbehind : ∀ m ∈ ms ++ [last], i ≤ m.a ∧ j ≤ m.b) :
    Path a b i j (opcodesFrom i j (ms ++ [last])) (last.a + last.size) (last.b + last.size) := by
  induction ms generalizing i j with
  | nil =>
    have hblock := hchain.block last List.mem_cons_self
    obtain ⟨hi, hj⟩ := hbehind last List.mem_cons_self
    have := hblock.ahi
    have := hblock.bhi
    simp only at *
    simp only [List.nil_append, opcodesFrom, List.append_nil]
    exact (path_gapCodes hi hj (by omega) (by omega)).append (path_blockCodes hblock)
  | cons m ms ih =>
    have hblock := hchain.block m List.mem_cons_self
    obtain ⟨hi, hj⟩ := hbehind m List.mem_cons_self
    have := hblock.ahi
    have := hblock.bhi
    simp only at *
    rw [List.cons_append, opcodesFrom]
    refine ((path_gapCodes hi hj (by omega) (by omega)).append (path_blockCodes hblock)).append (ih hchain.tail ?_)
    exact fun m' hm => (List.pairwise_cons.mp hchain.before).1 m' hm

/-- **The codes lead through both sequences.** -/
theorem path_getOpcodes [DecidableEq α] (a b : List α) : Path a b 0 0 (getOpcodes a b) a.length b.length :=
  path_opcodesFrom (getMatchingBlocks_chain a b) fun _ _ => ⟨Nat.zero_le _, Nat.zero_le _⟩

/-! ## Groups -/

/-- Between the groups and behind the last one the sequences are equal. -/
def Groups (a b : List α) (i j : ℕ) : List (List Opcode) → Prop
  | [] => Equal a b i j a.length b.length
  | g :: gs => ∃ i1 j1 i2 j2, Equal a b i j i1 j1 ∧ g ≠ [] ∧ Path a b i1 j1 g i2 j2 ∧ Groups a b i2 j2 gs

theorem Groups.equal {i j i' j' : ℕ} {gs : List (List Opcode)} (hequal : Equal a b i j i' j') (h : Groups a b i' j' gs) :
    Groups a b i j gs := by
  cases gs with
  | nil => exact hequal.trans h
  | cons g gs =>
    obtain ⟨i1, j1, i2, j2, hgap, hrest⟩ := h
    exact ⟨i1, j1, i2, j2, hequal.trans hgap, hrest⟩

theorem Opcode.Valid.head {c : Opcode} (h : c.Valid a b) (htag : c.tag = .equal) (n : ℕ) :
    (c.head n).Valid a b ∧ Equal a b (c.head n).i2 (c.head n).j2 c.i2 c.j2 := by
  have hequal := h.equal htag
  have hsize := hequal.size
  have hold := h.old
  have hnew := h.new
  obtain ⟨hfirst, hsecond⟩ := hequal.split (k := min c.i2 (c.i1 + n)) (l := min c.j2 (c.j1 + n)) (by omega) (by omega) (by omega)
  refine ⟨⟨?_, ?_, fun _ => hfirst, fun hdelete => ?_, fun hinsert => ?_⟩, hsecond⟩
  · simp only [Opcode.head]
    omega
  · simp only [Opcode.head]
    omega
  · exact absurd (htag.symm.trans hdelete) (by decide)
  · exact absurd (htag.symm.trans hinsert) (by decide)

theorem Opcode.Valid.tail {c : Opcode} (h : c.Valid a b) (htag : c.tag = .equal) (n : ℕ) :
    (c.tail n).Valid a b ∧ Equal a b c.i1 c.j1 (c.tail n).i1 (c.tail n).j1 := by
  have hequal := h.equal htag
  have hsize := hequal.size
  have hold := h.old
  have hnew := h.new
  obtain ⟨hfirst, hsecond⟩ := hequal.split (k := max c.i1 (c.i2 - n)) (l := max c.j1 (c.j2 - n)) (by omega) (by omega) (by omega)
  refine ⟨⟨?_, ?_, fun _ => hsecond, fun hdelete => ?_, fun hinsert => ?_⟩, hfirst⟩
  · simp only [Opcode.tail]
    omega
  · simp only [Opcode.tail]
    omega
  · exact absurd (htag.symm.trans hdelete) (by decide)
  · exact absurd (htag.symm.trans hinsert) (by decide)

theorem path_trimFirst (n : ℕ) {i j i' j' : ℕ} {cs : List Opcode} (hi : i ≤ a.length) (hj : j ≤ b.length)
    (h : Path a b i j cs i' j') : ∃ i1 j1, Equal a b i j i1 j1 ∧ Path a b i1 j1 (trimFirst n cs) i' j' := by
  cases cs with
  | nil => exact ⟨i, j, Equal.refl hi hj, h⟩
  | cons c cs =>
    obtain ⟨rfl, rfl, hvalid, hrest⟩ := h
    rw [trimFirst]
    split_ifs with htag
    · obtain ⟨htail, hequal⟩ := hvalid.tail htag n
      exact ⟨(c.tail n).i1, (c.tail n).j1, hequal, rfl, rfl, htail, hrest⟩
    · exact ⟨c.i1, c.j1, Equal.refl hi hj, rfl, rfl, hvalid, hrest⟩

theorem path_trimLast (n : ℕ) {i j i' j' : ℕ} {cs : List Opcode} (hi : i' ≤ a.length) (hj : j' ≤ b.length)
    (h : Path a b i j cs i' j') : ∃ i2 j2, Path a b i j (trimLast n cs) i2 j2 ∧ Equal a b i2 j2 i' j' := by
  induction cs generalizing i j with
  | nil => exact ⟨i', j', h, Equal.refl hi hj⟩
  | cons c cs ih =>
    obtain ⟨rfl, rfl, hvalid, hrest⟩ := h
    cases cs with
    | nil =>
      obtain ⟨rfl, rfl⟩ := hrest
      rw [trimLast]
      split_ifs with htag
      · obtain ⟨hhead, hequal⟩ := hvalid.head htag n
        exact ⟨(c.head n).i2, (c.head n).j2, ⟨rfl, rfl, hhead, rfl, rfl⟩, hequal⟩
      · exact ⟨c.i2, c.j2, ⟨rfl, rfl, hvalid, rfl, rfl⟩, Equal.refl hi hj⟩
    | cons d cs =>
      obtain ⟨i2, j2, hpath, hequal⟩ := ih hrest
      exact ⟨i2, j2, ⟨rfl, rfl, hvalid, hpath⟩, hequal⟩

theorem groups_lastGroup {i j i1 j1 p q : ℕ} {group : List Opcode} (hgap : Equal a b i j i1 j1)
    (hgroup : Path a b i1 j1 group p q) (hend : Equal a b p q a.length b.length) : Groups a b i j (lastGroup group) := by
  cases group with
  | nil =>
    obtain ⟨rfl, rfl⟩ := hgroup
    exact hgap.trans hend
  | cons c group =>
    cases group with
    | nil =>
      rw [lastGroup]
      split_ifs with htag
      · obtain ⟨rfl, rfl, hvalid, rfl, rfl⟩ := hgroup
        exact hgap.trans ((hvalid.equal htag).trans hend)
      · exact ⟨i1, j1, p, q, hgap, List.cons_ne_nil _ _, hgroup, hend⟩
    | cons d group => exact ⟨i1, j1, p, q, hgap, List.cons_ne_nil _ _, hgroup, hend⟩

theorem groups_groupCodes (n : ℕ) {i j i1 j1 p q i' j' : ℕ} {group cs : List Opcode} (hgap : Equal a b i j i1 j1)
    (hgroup : Path a b i1 j1 group p q) (hcodes : Path a b p q cs i' j') (hend : Equal a b i' j' a.length b.length) :
    Groups a b i j (groupCodes n group cs) := by
  induction cs generalizing group i j i1 j1 p q with
  | nil =>
    obtain ⟨rfl, rfl⟩ := hcodes
    exact groups_lastGroup hgap hgroup hend
  | cons c cs ih =>
    obtain ⟨rfl, rfl, hvalid, hrest⟩ := hcodes
    rw [groupCodes]
    split_ifs with hlong
    · obtain ⟨htag, hlong⟩ := hlong
      obtain ⟨hhead, -⟩ := hvalid.head htag n
      obtain ⟨htail, -⟩ := hvalid.tail htag n
      have hold := hvalid.old
      have hsize := (hvalid.equal htag).size
      -- what the two groups leave out of the equal range
      have hmiddle : Equal a b (c.head n).i2 (c.head n).j2 (c.tail n).i1 (c.tail n).j1 := by
        obtain ⟨-, hsecond⟩ := (hvalid.equal htag).split (k := min c.i2 (c.i1 + n)) (l := min c.j2 (c.j1 + n))
          (by omega) (by omega) (by omega)
        exact (hsecond.split (k := max c.i1 (c.i2 - n)) (l := max c.j1 (c.j2 - n)) (by omega) (by omega) (by omega)).1
      refine ⟨i1, j1, (c.head n).i2, (c.head n).j2, hgap, by simp, ?_, ih hmiddle ⟨rfl, rfl, htail, rfl, rfl⟩ hrest⟩
      exact hgroup.append ⟨rfl, rfl, hhead, rfl, rfl⟩
    · exact ih hgap (hgroup.append ⟨rfl, rfl, hvalid, rfl, rfl⟩) hrest

/-- No group shows a script that changes nothing. -/
theorem groupCodes_equal (n k : ℕ) : groupCodes n [] (trimLast n (trimFirst n [⟨.equal, 0, k, 0, k⟩])) = [] := by
  simp only [trimFirst, trimLast, groupCodes, if_true, Opcode.tail, Opcode.head]
  rw [if_neg (by omega)]
  rfl

/-- **What the groups leave out is equal.** -/
theorem groups_getGroupedOpcodes [DecidableEq α] (a b : List α) (n : ℕ) : Groups a b 0 0 (getGroupedOpcodes a b n) := by
  have hpath := path_getOpcodes a b
  unfold getGroupedOpcodes
  cases hcodes : getOpcodes a b with
  | nil =>
    rw [hcodes] at hpath
    change Groups a b 0 0 (groupCodes n [] (trimLast n (trimFirst n [⟨.equal, 0, 1, 0, 1⟩])))
    rw [groupCodes_equal]
    exact ⟨Nat.zero_le _, by rw [← hpath.1, ← hpath.2], ⟨Nat.le_refl _, Nat.le_refl _⟩, by
      rw [← hpath.1, ← hpath.2, slice_self, slice_self]⟩
  | cons c cs =>
    rw [hcodes] at hpath
    obtain ⟨i1, j1, hstart, hfirst⟩ := path_trimFirst n (Nat.zero_le _) (Nat.zero_le _) hpath
    obtain ⟨i2, j2, hlast, hend⟩ := path_trimLast n (Nat.le_refl _) (Nat.le_refl _) hfirst
    exact groups_groupCodes n hstart ⟨rfl, rfl⟩ hlast hend

end Scripts

/-! ## Patches -/

section Patching
variable {α : Type*} {a b : List α}

theorem hunkOf_path {i j i' j' : ℕ} {g : List Opcode} (hne : g ≠ []) (h : Path a b i j g i' j') :
    hunkOf a b g = some ⟨i, i', j, j', g.flatMap (codeLines a b)⟩ := by
  cases g with
  | nil => exact absurd rfl hne
  | cons c cs =>
    obtain ⟨hi, hj⟩ := h.last
    obtain ⟨rfl, rfl, -⟩ := h
    rw [hunkOf, hi, hj]

variable [DecidableEq α]

theorem applyLines_context (xs : List α) (lines : List (Mark × α)) (old : List α) :
    applyLines (xs.map (fun x => (Mark.context, x)) ++ lines) (xs ++ old) =
      (applyLines lines old).map fun r => (xs ++ r.1, r.2) := by
  induction xs with
  | nil => simp
  | cons x xs ih =>
    simp only [List.map_cons, List.cons_append, applyLines, if_true, ih, Option.map_map]
    rfl

theorem applyLines_removed (xs : List α) (lines : List (Mark × α)) (old : List α) :
    applyLines (xs.map (fun x => (Mark.removed, x)) ++ lines) (xs ++ old) = applyLines lines old := by
  induction xs with
  | nil => rfl
  | cons x xs ih => simp only [List.map_cons, List.cons_append, applyLines, if_true, ih]

theorem applyLines_added (xs : List α) (lines : List (Mark × α)) (old : List α) :
    applyLines (xs.map (fun x => (Mark.added, x)) ++ lines) old = (applyLines lines old).map fun r => (xs ++ r.1, r.2) := by
  induction xs with
  | nil => simp
  | cons x xs ih =>
    simp only [List.map_cons, List.cons_append, applyLines, ih, Option.map_map]
    rfl

/-- **The lines of a code turn its old range into its new one.** -/
theorem applyLines_code {c : Opcode} (h : c.Valid a b) (lines : List (Mark × α)) :
    applyLines (codeLines a b c ++ lines) (a.drop c.i1) =
      (applyLines lines (a.drop c.i2)).map fun r => (slice b c.j1 c.j2 ++ r.1, r.2) := by
  rw [← slice_drop a h.old.1]
  unfold codeLines
  cases htag : c.tag with
  | replace => rw [List.append_assoc, applyLines_removed, applyLines_added]
  | delete =>
    rw [applyLines_removed, h.delete htag, slice_self]
    simp
  | insert =>
    rw [h.insert htag, slice_self]
    exact applyLines_added _ _ _
  | equal => rw [applyLines_context, (h.equal htag).same]

theorem applyLines_path {i j i' j' : ℕ} {cs : List Opcode} (h : Path a b i j cs i' j') :
    applyLines (cs.flatMap (codeLines a b)) (a.drop i) = some (slice b j j', a.drop i') := by
  induction cs generalizing i j with
  | nil =>
    obtain ⟨rfl, rfl⟩ := h
    rw [slice_self]
    rfl
  | cons c cs ih =>
    obtain ⟨rfl, rfl, hvalid, hrest⟩ := h
    rw [List.flatMap_cons, applyLines_code hvalid, ih hrest, Option.map_some,
      slice_append b hvalid.new.1 (hrest.bounds hvalid.old.2 hvalid.new.2).2.1]

theorem applyHunks_groups {i j : ℕ} {gs : List (List Opcode)} (h : Groups a b i j gs) :
    applyHunks i j (gs.filterMap (hunkOf a b)) (a.drop i) = some (b.drop j) := by
  induction gs generalizing i j with
  | nil => exact congrArg some h.ends
  | cons g gs ih =>
    obtain ⟨i1, j1, i2, j2, hgap, hne, hpath, hrest⟩ := h
    have hle := hgap.le
    have hsize := hgap.size
    have hlengths := hgap.lengths
    obtain ⟨hold, hnew⟩ := hpath.bounds hlengths.1 hlengths.2
    rw [List.filterMap_cons_some (hunkOf_path hne hpath), applyHunks, if_pos ⟨hle, by simp only; omega, by
      rw [List.length_drop]
      simp only
      omega⟩]
    simp only
    rw [List.drop_drop, show i + (i1 - i) = i1 by omega, applyLines_path hpath]
    simp only
    rw [if_pos ⟨by rw [List.length_drop, List.length_drop]; omega, by rw [slice_length hnew.1 hnew.2]; omega⟩, ih hrest,
      Option.map_some]
    have hskipped : (a.drop i).take (i1 - i) = slice b j j1 := hgap.same
    rw [hskipped, List.append_assoc, slice_drop b hnew.1, slice_drop b (by omega)]

/-- **The hunks turn the old sequence into the new one.** -/
theorem patch_hunks (a b : List α) (n : ℕ) : patch (hunks a b n) a = some b :=
  applyHunks_groups (groups_getGroupedOpcodes a b n)

theorem getOpcodes_self (a : List α) :
    getOpcodes a a = if a.length = 0 then [] else [⟨.equal, 0, a.length, 0, a.length⟩] := by
  unfold getOpcodes
  rw [getMatchingBlocks_self]
  split_ifs with hempty
  · rw [hempty]
    rfl
  · simp [opcodesFrom, gapCodes, blockCodes, hempty]

/-- **Equal sequences, and no others, have no hunks.** -/
theorem hunks_eq_nil_iff (a b : List α) (n : ℕ) : hunks a b n = [] ↔ a = b := by
  refine ⟨fun h => ?_, ?_⟩
  · have hpatch := patch_hunks a b n
    rw [h] at hpatch
    exact Option.some.inj hpatch
  · rintro rfl
    unfold hunks getGroupedOpcodes
    rw [getOpcodes_self]
    split_ifs
    · simp only [groupCodes_equal, List.filterMap_nil]
    · simp only [groupCodes_equal, List.filterMap_nil]

end Patching

end KernelRuntime.SequenceMatcher
