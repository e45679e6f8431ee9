import Mathlib.Algebra.Ring.Nat
import Mathlib.Data.List.Infix
import Mathlib.Data.List.TakeDrop
import Mathlib.Tactic.Common
import KernelRuntime.Foundations.AppendStore

/-! # Matching two sequences

The matcher of `difflib` without junk. It takes the longest block that two ranges have in common and goes on with the
ranges on both sides of it. -/

namespace KernelRuntime.SequenceMatcher
set_option autoImplicit false

structure Match where
  a : ℕ
  b : ℕ
  size : ℕ
deriving DecidableEq

/-- The ranges `a[alo:ahi]` and `b[blo:bhi]`. -/
structure Range where
  alo : ℕ
  ahi : ℕ
  blo : ℕ
  bhi : ℕ

section Matching
variable {α : Type*} [DecidableEq α]

/-- An element that is so frequent in a long `b` that no block starts at it. -/
def popular (b : List α) (x : α) : Bool := decide (200 ≤ b.length ∧ b.length / 100 + 1 < b.count x)

/-- `b2j`: where `x` is in `b`. -/
def b2j (b : List α) (x : α) : List ℕ :=
  if popular b x then [] else (List.range b.length).filter fun j => decide (b[j]? = some x)

/-- `b2j.get(a[i], nothing)`. -/
def places (a b : List α) (i : ℕ) : List ℕ :=
  match a[i]? with
  | some x => b2j b x
  | none => []

/-- `j2lenget(j-1, 0) + 1`. -/
def extended (j2len : ℕ → ℕ) (j : ℕ) : ℕ := (if j = 0 then 0 else j2len (j - 1)) + 1

/-- The loop over the places of `a[i]` in `b`. -/
def scanRow (r : Range) (i : ℕ) (j2len : ℕ → ℕ) : List ℕ → (ℕ → ℕ) × Match → (ℕ → ℕ) × Match
  | [], s => s
  | j :: js, (newj2len, best) =>
    if j < r.blo then scanRow r i j2len js (newj2len, best)
    else if r.bhi ≤ j then (newj2len, best)
    else
      let k := extended j2len j
      scanRow r i j2len js
        (Function.update newj2len j k, if best.size < k then ⟨i + 1 - k, j + 1 - k, k⟩ else best)

/-- The loop over the elements of `a`, from the `i`-th on. -/
def scanRows (a b : List α) (r : Range) : ℕ → ℕ → (ℕ → ℕ) × Match → (ℕ → ℕ) × Match
  | 0, _, s => s
  | rows + 1, i, (j2len, best) => scanRows a b r rows (i + 1) (scanRow r i j2len (places a b i) (fun _ => 0, best))

/-- The loop that takes equal elements before the block. -/
def extendLeft (a b : List α) (r : Range) : ℕ → ℕ → ℕ → Match
  | 0, j, size => ⟨0, j, size⟩
  | i + 1, j, size =>
    if r.alo < i + 1 ∧ r.blo < j ∧ a[i]? = b[j - 1]? then extendLeft a b r i (j - 1) (size + 1) else ⟨i + 1, j, size⟩

/-- The loop that takes equal elements behind it, of which `a` has room for so many. -/
def extendRight (a b : List α) (r : Range) (i j : ℕ) : ℕ → ℕ → ℕ
  | 0, size => size
  | room + 1, size =>
    if j + size < r.bhi ∧ a[i + size]? = b[j + size]? then extendRight a b r i j room (size + 1) else size

/-- `find_longest_match`. Without junk its last two loops do nothing. -/
def findLongestMatch (a b : List α) (r : Range) : Match :=
  let best := (scanRows a b r (r.ahi - r.alo) r.alo (fun _ => 0, ⟨r.alo, r.blo, 0⟩)).2
  let best := extendLeft a b r best.a best.b best.size
  { best with size := extendRight a b r best.a best.b (r.ahi - (best.a + best.size)) best.size }

def Range.before (r : Range) (m : Match) : Range := ⟨r.alo, m.a, r.blo, m.b⟩

def Range.behind (r : Range) (m : Match) : Range := ⟨m.a + m.size, r.ahi, m.b + m.size, r.bhi⟩

/-- The ranges on both sides of the block. The last one that is pushed is the next to be looked at. -/
def pushSides (r : Range) (m : Match) (queue : List Range) : List Range :=
  let queue := if r.alo < m.a ∧ r.blo < m.b then r.before m :: queue else queue
  if m.a + m.size < r.ahi ∧ m.b + m.size < r.bhi then r.behind m :: queue else queue

/-- The loop over the queue. -/
def matchLoop (a b : List α) : ℕ → List Range → List Match
  | 0, _ => []
  | _ + 1, [] => []
  | fuel + 1, r :: queue =>
    let m := findLongestMatch a b r
    if m.size = 0 then matchLoop a b fuel queue else m :: matchLoop a b fuel (pushSides r m queue)

/-- The order of the triples. -/
def Match.le (m m' : Match) : Bool :=
  decide (m.a < m'.a ∨ m.a = m'.a ∧ (m.b < m'.b ∨ m.b = m'.b ∧ m.size ≤ m'.size))

/-- Adjacent blocks become one. -/
def collapse : Match → List Match → List Match
  | last, [] => if last.size = 0 then [] else [last]
  | last, m :: ms =>
    if last.a + last.size = m.a ∧ last.b + last.size = m.b then collapse { last with size := last.size + m.size } ms
    else if last.size = 0 then collapse m ms
    else last :: collapse m ms

/-- `get_matching_blocks`. -/
def getMatchingBlocks (a b : List α) : List Match :=
  let blocks := matchLoop a b (2 * a.length + 1) [⟨0, a.length, 0, b.length⟩]
  collapse ⟨0, 0, 0⟩ (blocks.mergeSort Match.le) ++ [⟨a.length, b.length, 0⟩]

end Matching

/-! ## Runs of equal elements -/

section Runs
variable {α : Type*} [DecidableEq α] (a b : List α) (r : Range)

/-- How many pairs of places before the two ends go on, within the ranges. -/
def run : ℕ → ℕ → ℕ
  | 0, _ => 0
  | _ + 1, 0 => 0
  | e + 1, f + 1 => if r.alo ≤ e ∧ r.blo ≤ f ∧ f ∈ places a b e then run e f + 1 else 0

/-- A block of equal elements within the ranges. -/
structure Block (m : Match) : Prop where
  alo : r.alo ≤ m.a
  ahi : m.a + m.size ≤ r.ahi
  blo : r.blo ≤ m.b
  bhi : m.b + m.size ≤ r.bhi
  same : ∀ t < m.size, a[m.a + t]? = b[m.b + t]?

/-- The table behind the row before `e`. -/
def Table (e : ℕ) (j2len : ℕ → ℕ) : Prop := ∀ j < r.bhi, j2len j = run a b r e (j + 1)

variable {a b r}

theorem mem_places {i j : ℕ} : j ∈ places a b i ↔ ∃ x, a[i]? = some x ∧ b[j]? = some x ∧ popular b x = false := by
  unfold places b2j
  cases a[i]? with
  | none => simp
  | some x =>
    cases hpopular : popular b x with
    | true => simp [hpopular]
    | false =>
      simp only [hpopular, Bool.false_eq_true, if_false, List.mem_filter, List.mem_range, decide_eq_true_eq,
        Option.some.injEq, exists_eq_left', and_true]
      exact ⟨fun h => h.2, fun h => ⟨(List.getElem?_eq_some_iff.mp h).1, h⟩⟩

theorem places_ascending (i : ℕ) : (places a b i).Pairwise (· < ·) := by
  unfold places b2j
  cases a[i]? with
  | none => exact List.Pairwise.nil
  | some x =>
    simp only
    split_ifs
    · exact List.Pairwise.nil
    · exact List.Pairwise.filter _ List.pairwise_lt_range

theorem run_zero_right (e : ℕ) : run a b r e 0 = 0 := by
  cases e <;> rfl

theorem run_succ (e f : ℕ) :
    run a b r (e + 1) (f + 1) = if r.alo ≤ e ∧ r.blo ≤ f ∧ f ∈ places a b e then run a b r e f + 1 else 0 := rfl

/-- A run stays within the ranges, and its pairs are equal. -/
theorem run_spec (e f : ℕ) : run a b r e f ≤ e - r.alo ∧ run a b r e f ≤ f - r.blo ∧
    ∀ t < run a b r e f, a[e - 1 - t]? = b[f - 1 - t]? := by
  induction e generalizing f with
  | zero => simp [run]
  | succ e ih =>
    cases f with
    | zero => simp [run]
    | succ f =>
      rw [run_succ]
      split_ifs with h
      · obtain ⟨halo, hblo, hplace⟩ := h
        obtain ⟨ha, hb, hsame⟩ := ih f
        refine ⟨by omega, by omega, fun t ht => ?_⟩
        cases t with
        | zero =>
          obtain ⟨x, hx, hx', -⟩ := mem_places.mp hplace
          exact hx.trans hx'.symm
        | succ t =>
          have h := hsame t (by omega)
          rwa [show e + 1 - 1 - (t + 1) = e - 1 - t by omega, show f + 1 - 1 - (t + 1) = f - 1 - t by omega]
      · simp

theorem table_start : Table a b r r.alo (fun _ => 0) := by
  intro j _
  cases h : r.alo with
  | zero => rfl
  | succ e => rw [run_succ, if_neg (by omega)]

theorem Table.extended_eq {i j : ℕ} {j2len : ℕ → ℕ} (h : Table a b r i j2len) (hj : j < r.bhi) :
    extended j2len j = run a b r i j + 1 := by
  cases j with
  | zero => rw [extended, if_pos rfl, run_zero_right]
  | succ j => rw [extended, if_neg (Nat.succ_ne_zero j), Nat.add_sub_cancel, h j (by omega)]

/-! ## The loops -/

theorem scanRow_table {i : ℕ} {j2len : ℕ → ℕ} {js : List ℕ} {s : (ℕ → ℕ) × Match} (hjs : js.Pairwise (· < ·)) (j : ℕ) :
    (scanRow r i j2len js s).1 j = if j ∈ js ∧ r.blo ≤ j ∧ j < r.bhi then extended j2len j else s.1 j := by
  induction js generalizing s with
  | nil => simp [scanRow]
  | cons d js ih =>
    obtain ⟨hd, hjs⟩ := List.pairwise_cons.mp hjs
    rw [scanRow]
    by_cases hlow : d < r.blo
    · rw [if_pos hlow, ih hjs]
      refine if_congr ⟨fun h => ⟨List.mem_cons_of_mem _ h.1, h.2⟩, fun h => ⟨?_, h.2⟩⟩ rfl rfl
      exact (List.mem_cons.mp h.1).resolve_left (by omega)
    rw [if_neg hlow]
    by_cases hhigh : r.bhi ≤ d
    · rw [if_pos hhigh, if_neg]
      rintro ⟨hmem, -, hj⟩
      obtain rfl | hmem := List.mem_cons.mp hmem
      · omega
      · have := hd j hmem
        omega
    rw [if_neg hhigh, ih hjs]
    by_cases hmem : j ∈ js
    · exact if_congr ⟨fun h => ⟨List.mem_cons_of_mem _ h.1, h.2⟩, fun h => ⟨hmem, h.2⟩⟩ rfl
        (Function.update_of_ne (hd j hmem).ne' _ _)
    rw [if_neg fun h => hmem h.1]
    change Function.update s.1 d (extended j2len d) j = _
    by_cases hjd : j = d
    · subst hjd
      rw [Function.update_self, if_pos ⟨List.mem_cons_self, by omega, by omega⟩]
    · rw [Function.update_of_ne hjd, if_neg fun h => hmem ((List.mem_cons.mp h.1).resolve_left hjd)]

/-- What holds of the best block so far and of every longer one that the row meets. -/
theorem scanRow_best {P : Match → Prop} {i : ℕ} {j2len : ℕ → ℕ} {js : List ℕ} {s : (ℕ → ℕ) × Match}
    (hlonger : ∀ j ∈ js, r.blo ≤ j → j < r.bhi → ∀ best, P best → best.size < extended j2len j →
      P ⟨i + 1 - extended j2len j, j + 1 - extended j2len j, extended j2len j⟩)
    (hs : P s.2) : P (scanRow r i j2len js s).2 := by
  induction js generalizing s with
  | nil => exact hs
  | cons d js ih =>
    obtain ⟨hd, hjs⟩ := List.forall_mem_cons.mp hlonger
    rw [scanRow]
    split_ifs with hlow hhigh
    · exact ih hjs hs
    · exact hs
    · refine ih hjs ?_
      simp only
      split_ifs with hlt
      · exact hd (by omega) (by omega) _ hs hlt
      · exact hs

theorem scanRow_size {i : ℕ} {j2len : ℕ → ℕ} {js : List ℕ} {s : (ℕ → ℕ) × Match} :
    s.2.size ≤ (scanRow r i j2len js s).2.size :=
  scanRow_best (P := fun m => s.2.size ≤ m.size) (fun _ _ _ _ _ h hlt => h.trans hlt.le) (Nat.le_refl _)

theorem table_scanRow {i : ℕ} {j2len : ℕ → ℕ} {best : Match} (h : Table a b r i j2len) (halo : r.alo ≤ i) :
    Table a b r (i + 1) (scanRow r i j2len (places a b i) (fun _ => 0, best)).1 := by
  intro j hj
  rw [scanRow_table (places_ascending i), run_succ, h.extended_eq hj]
  refine if_congr ⟨fun h => ⟨halo, h.2.1, h.1⟩, fun h => ⟨h.2.2, h.2.1, hj⟩⟩ rfl rfl

/-- The block that ends with `a[i]` and `b[j]`. -/
theorem block_of_run {i j : ℕ} (hi : i < r.ahi) (hj : j < r.bhi) (hrun : 0 < run a b r (i + 1) (j + 1)) :
    Block a b r ⟨i + 1 - run a b r (i + 1) (j + 1), j + 1 - run a b r (i + 1) (j + 1), run a b r (i + 1) (j + 1)⟩ := by
  obtain ⟨ha, hb, hsame⟩ := run_spec (a := a) (b := b) (r := r) (i + 1) (j + 1)
  refine ⟨by simp only; omega, by simp only; omega, by simp only; omega, by simp only; omega, fun t ht => ?_⟩
  simp only at ht ⊢
  have h := hsame (run a b r (i + 1) (j + 1) - 1 - t) (by omega)
  rwa [show i + 1 - 1 - (run a b r (i + 1) (j + 1) - 1 - t) = i + 1 - run a b r (i + 1) (j + 1) + t by omega,
    show j + 1 - 1 - (run a b r (i + 1) (j + 1) - 1 - t) = j + 1 - run a b r (i + 1) (j + 1) + t by omega] at h

theorem extended_run {i j : ℕ} {j2len : ℕ → ℕ} (h : Table a b r i j2len) (halo : r.alo ≤ i) (hmem : j ∈ places a b i)
    (hblo : r.blo ≤ j) (hj : j < r.bhi) : extended j2len j = run a b r (i + 1) (j + 1) := by
  rw [h.extended_eq hj, run_succ, if_pos ⟨halo, hblo, hmem⟩]

theorem block_scanRow {i : ℕ} {j2len : ℕ → ℕ} {best : Match} (h : Table a b r i j2len) (halo : r.alo ≤ i)
    (hi : i < r.ahi) (hbest : Block a b r best) :
    Block a b r (scanRow r i j2len (places a b i) (fun _ => 0, best)).2 := by
  refine scanRow_best (fun j hmem hblo hj best _ hlt => ?_) hbest
  have hrun := extended_run h halo hmem hblo hj
  rw [hrun] at hlt ⊢
  exact block_of_run hi hj (by omega)

theorem block_scanRows (rows : ℕ) {i : ℕ} {s : (ℕ → ℕ) × Match} (hrows : i + rows = r.ahi) (halo : r.alo ≤ i)
    (htable : Table a b r i s.1) (hbest : Block a b r s.2) : Block a b r (scanRows a b r rows i s).2 := by
  induction rows generalizing i s with
  | zero => exact hbest
  | succ rows ih =>
    rw [scanRows]
    exact ih (by omega) (by omega) (table_scanRow htable halo) (block_scanRow htable halo (by omega) hbest)

theorem block_extendLeft {i j size : ℕ} (h : Block a b r ⟨i, j, size⟩) : Block a b r (extendLeft a b r i j size) := by
  induction i generalizing j size with
  | zero => exact h
  | succ i ih =>
    rw [extendLeft]
    split_ifs with hgo
    · obtain ⟨hahi, hbhi, hsame⟩ := And.intro h.ahi (And.intro h.bhi h.same)
      simp only at hahi hbhi hsame
      refine ih ⟨by simp only; omega, by simp only; omega, by simp only; omega, by simp only; omega, fun t ht => ?_⟩
      cases t with
      | zero => exact hgo.2.2
      | succ t =>
        have h := hsame t (by simp only at ht; omega)
        simp only
        rwa [show i + (t + 1) = i + 1 + t by omega, show j - 1 + (t + 1) = j + t by omega]
    · exact h

theorem block_extendRight {i j room size : ℕ} (h : Block a b r ⟨i, j, size⟩) (hroom : i + size + room ≤ r.ahi) :
    Block a b r ⟨i, j, extendRight a b r i j room size⟩ := by
  induction room generalizing size with
  | zero => exact h
  | succ room ih =>
    rw [extendRight]
    split_ifs with hgo
    · refine ih ⟨h.alo, by simp only; omega, h.blo, by simp only; omega, fun t ht => ?_⟩ (by omega)
      obtain ht | rfl : t < size ∨ t = size := by
        simp only at ht
        omega
      · exact h.same t ht
      · exact hgo.2
    · exact h

/-- **A match is a block of equal elements within the ranges.** -/
theorem findLongestMatch_block (ha : r.alo ≤ r.ahi) (hb : r.blo ≤ r.bhi) : Block a b r (findLongestMatch a b r) := by
  have hstart : Block a b r ⟨r.alo, r.blo, 0⟩ := ⟨Nat.le_refl _, ha, Nat.le_refl _, hb, fun t ht => absurd ht (Nat.not_lt_zero t)⟩
  have hscan := block_scanRows (r.ahi - r.alo) (i := r.alo) (s := (fun _ => 0, ⟨r.alo, r.blo, 0⟩)) (by omega)
    (Nat.le_refl _) table_start hstart
  have hleft := block_extendLeft hscan
  have hahi := hleft.ahi
  exact block_extendRight hleft (Nat.add_sub_cancel' hahi).le

end Runs

/-! ## The queue -/

def Match.Before (m m' : Match) : Prop := m.a + m.size ≤ m'.a ∧ m.b + m.size ≤ m'.b

def Match.Apart (m m' : Match) : Prop := m.Before m' ∨ m'.Before m

def Range.Apart (r r' : Range) : Prop := r.ahi ≤ r'.alo ∧ r.bhi ≤ r'.blo ∨ r'.ahi ≤ r.alo ∧ r'.bhi ≤ r.blo

def Range.Valid (r : Range) : Prop := r.alo ≤ r.ahi ∧ r.blo ≤ r.bhi

section Queue
variable {α : Type*} {a b : List α} {r r' : Range} {m m' : Match}

theorem Block.apart (h : Block a b r m) (h' : Block a b r' m') (hr : r.Apart r') : m.Apart m' := by
  have := h.alo
  have := h.ahi
  have := h.blo
  have := h.bhi
  have := h'.alo
  have := h'.ahi
  have := h'.blo
  have := h'.bhi
  unfold Range.Apart at hr
  unfold Match.Apart Match.Before
  omega

theorem Block.before (h : Block a b r m) (h' : Block a b (r.before m) m') : m'.Before m ∧ Block a b r m' := by
  have := h.ahi
  have := h.bhi
  have hahi : m'.a + m'.size ≤ m.a := h'.ahi
  have hbhi : m'.b + m'.size ≤ m.b := h'.bhi
  exact ⟨⟨hahi, hbhi⟩, h'.alo, by omega, h'.blo, by omega, h'.same⟩

theorem Block.behind (h : Block a b r m) (h' : Block a b (r.behind m) m') : m.Before m' ∧ Block a b r m' := by
  have := h.alo
  have := h.blo
  have halo : m.a + m.size ≤ m'.a := h'.alo
  have hblo : m.b + m.size ≤ m'.b := h'.blo
  exact ⟨⟨halo, hblo⟩, by omega, h'.ahi, by omega, h'.bhi, h'.same⟩

theorem pushSides_sublist (r : Range) (m : Match) (queue : List Range) :
    List.Sublist (pushSides r m queue) (r.behind m :: r.before m :: queue) := by
  unfold pushSides
  split_ifs
  · exact List.Sublist.refl _
  · exact List.sublist_cons_self _ _
  · exact (List.sublist_cons_self _ _).cons_cons _
  · exact (List.sublist_cons_self _ _).cons _

/-- The ranges of the queue have room for blocks and do not overlap. -/
structure Separate (queue : List Range) : Prop where
  valid : ∀ r ∈ queue, r.Valid
  apart : queue.Pairwise Range.Apart

theorem Separate.tail {queue : List Range} (h : Separate (r :: queue)) : Separate queue :=
  ⟨fun r' hr => h.valid r' (List.mem_cons_of_mem _ hr), (List.pairwise_cons.mp h.apart).2⟩

theorem Separate.pushSides {queue : List Range} (h : Separate (r :: queue)) (hblock : Block a b r m) :
    Separate (pushSides r m queue) := by
  have halo := hblock.alo
  have hahi := hblock.ahi
  have hblo := hblock.blo
  have hbhi := hblock.bhi
  obtain ⟨hfirst, hrest⟩ := List.pairwise_cons.mp h.apart
  have hsub := pushSides_sublist r m queue
  refine ⟨fun r' hr => ?_, List.Pairwise.sublist hsub ?_⟩
  · obtain rfl | hr := List.mem_cons.mp (hsub.subset hr)
    · exact ⟨hahi, hbhi⟩
    obtain rfl | hr := List.mem_cons.mp hr
    · exact ⟨halo, hblo⟩
    · exact h.valid r' (List.mem_cons_of_mem _ hr)
  · have hside : ∀ r' ∈ queue, (r.behind m).Apart r' ∧ (r.before m).Apart r' := by
      intro r' hr
      have := hfirst r' hr
      simp only [Range.Apart, Range.behind, Range.before] at this ⊢
      omega
    refine List.pairwise_cons.mpr ⟨fun r' hr => ?_, List.pairwise_cons.mpr ⟨fun r' hr => (hside r' hr).2, hrest⟩⟩
    obtain rfl | hr := List.mem_cons.mp hr
    · right
      exact ⟨by simp only [Range.behind, Range.before]; omega, by simp only [Range.behind, Range.before]; omega⟩
    · exact (hside r' hr).1

/-- A block that one of the ranges holds. -/
def Held (a b : List α) (queue : List Range) (m : Match) : Prop := 0 < m.size ∧ ∃ r ∈ queue, Block a b r m

variable [DecidableEq α]

/-- **What the loop finds are blocks that do not overlap.** -/
theorem matchLoop_blocks (fuel : ℕ) {queue : List Range} (hqueue : Separate queue) :
    (∀ m ∈ matchLoop a b fuel queue, Held a b queue m) ∧ (matchLoop a b fuel queue).Pairwise Match.Apart := by
  induction fuel generalizing queue with
  | zero => simp [matchLoop]
  | succ fuel ih =>
    cases queue with
    | nil => simp [matchLoop]
    | cons r queue =>
      have hvalid := hqueue.valid r List.mem_cons_self
      have hblock := findLongestMatch_block (a := a) (b := b) hvalid.1 hvalid.2
      rw [matchLoop]
      split_ifs with hsize
      · obtain ⟨hheld, hapart⟩ := ih hqueue.tail
        exact ⟨fun m hm => ⟨(hheld m hm).1, (hheld m hm).2.imp fun r' hr => ⟨List.mem_cons_of_mem _ hr.1, hr.2⟩⟩, hapart⟩
      obtain ⟨hheld, hapart⟩ := ih (hqueue.pushSides hblock)
      generalize findLongestMatch a b r = m at hblock hheld hapart hsize ⊢
      -- a later block lies on one side of this one, or in another range of the queue
      have hlater : ∀ m' ∈ matchLoop a b fuel (pushSides r m queue), m.Apart m' ∧ Held a b (r :: queue) m' := by
        intro m' hm
        obtain ⟨hpos, r', hr, hblock'⟩ := hheld m' hm
        obtain rfl | hr := List.mem_cons.mp ((pushSides_sublist r m queue).subset hr)
        · have h := hblock.behind hblock'
          exact ⟨Or.inl h.1, hpos, r, List.mem_cons_self, h.2⟩
        obtain rfl | hr := List.mem_cons.mp hr
        · have h := hblock.before hblock'
          exact ⟨Or.inr h.1, hpos, r, List.mem_cons_self, h.2⟩
        · exact ⟨hblock.apart hblock' ((List.pairwise_cons.mp hqueue.apart).1 r' hr), hpos, r',
            List.mem_cons_of_mem _ hr, hblock'⟩
      refine ⟨List.forall_mem_cons.mpr ⟨⟨Nat.pos_of_ne_zero hsize, r, List.mem_cons_self, hblock⟩, fun m' hm => (hlater m' hm).2⟩, ?_⟩
      exact List.pairwise_cons.mpr ⟨fun m' hm => (hlater m' hm).1, hapart⟩

end Queue

/-! ## The matching blocks -/

section Blocks
variable {α : Type*} {a b : List α} {m m' last : Match} {ms : List Match}

/-- Blocks of the two sequences, one after the other. -/
structure Chain (a b : List α) (ms : List Match) : Prop where
  block : ∀ m ∈ ms, Block a b ⟨0, a.length, 0, b.length⟩ m
  before : ms.Pairwise Match.Before

theorem Chain.tail (h : Chain a b (m :: ms)) : Chain a b ms :=
  ⟨fun m' hm => h.block m' (List.mem_cons_of_mem _ hm), (List.pairwise_cons.mp h.before).2⟩

theorem before_of_le (h : Match.le m m' = true) (hapart : m.Apart m') (hpos : 0 < m'.size) : m.Before m' := by
  simp only [Match.le, decide_eq_true_eq] at h
  unfold Match.Apart Match.Before at *
  omega

theorem chain_sorted (hheld : ∀ m ∈ ms, 0 < m.size ∧ Block a b ⟨0, a.length, 0, b.length⟩ m)
    (hapart : ms.Pairwise Match.Apart) : Chain a b (ms.mergeSort Match.le) := by
  have hmem : ∀ m ∈ ms.mergeSort Match.le, m ∈ ms := fun m hm => List.mem_mergeSort.mp hm
  have hsorted : (ms.mergeSort Match.le).Pairwise fun m m' => Match.le m m' = true := by
    refine List.pairwise_mergeSort (fun m₁ m₂ m₃ h h' => ?_) (fun m₁ m₂ => ?_) ms
    all_goals
      simp only [Match.le, decide_eq_true_eq, Bool.or_eq_true] at *
      omega
  have hapart' : (ms.mergeSort Match.le).Pairwise Match.Apart :=
    ((List.mergeSort_perm ms Match.le).pairwise_iff fun h => Or.symm h).mpr hapart
  refine ⟨fun m hm => (hheld m (hmem m hm)).2, (hsorted.and hapart').imp_of_mem fun _ hm h => ?_⟩
  exact before_of_le h.1 h.2 (hheld _ (hmem _ hm)).1

theorem Block.join {r : Range} (h : Block a b r m) (h' : Block a b r m') (ha : m.a + m.size = m'.a) (hb : m.b + m.size = m'.b) :
    Block a b r { m with size := m.size + m'.size } where
  alo := h.alo
  ahi := by
    have := h'.ahi
    simp only
    omega
  blo := h.blo
  bhi := by
    have := h'.bhi
    simp only
    omega
  same := by
    intro t ht
    simp only at ht ⊢
    by_cases hlt : t < m.size
    · exact h.same t hlt
    · have := h'.same (t - m.size) (by omega)
      rwa [← ha, ← hb, show m.a + m.size + (t - m.size) = m.a + t by omega,
        show m.b + m.size + (t - m.size) = m.b + t by omega] at this

/-- A chain whose first block takes in the one behind it. -/
theorem Chain.join (h : Chain a b (last :: m :: ms)) (ha : last.a + last.size = m.a) (hb : last.b + last.size = m.b) :
    Chain a b ({ last with size := last.size + m.size } :: ms) := by
  obtain ⟨hlast, hblock⟩ := List.forall_mem_cons.mp h.block
  obtain ⟨hm, hms⟩ := List.forall_mem_cons.mp hblock
  obtain ⟨hbefore, hrest⟩ := List.pairwise_cons.mp h.tail.before
  refine ⟨List.forall_mem_cons.mpr ⟨hlast.join hm ha hb, hms⟩, List.pairwise_cons.mpr ⟨fun m' hm' => ?_, hrest⟩⟩
  have := hbefore m' hm'
  simp only [Match.Before] at this ⊢
  omega

theorem chain_collapse (h : Chain a b (last :: ms)) : Chain a b (collapse last ms) ∧
    ∀ m : Match, (∀ m' ∈ last :: ms, m.Before m') → ∀ m' ∈ collapse last ms, m.Before m' := by
  induction ms generalizing last with
  | nil =>
    rw [collapse]
    split_ifs
    · exact ⟨⟨by simp, List.Pairwise.nil⟩, by simp⟩
    · exact ⟨h, fun _ hm => hm⟩
  | cons m ms ih =>
    rw [collapse]
    split_ifs with hadjacent hempty
    · obtain ⟨hchain, hbefore⟩ := ih (h.join hadjacent.1 hadjacent.2)
      refine ⟨hchain, fun m' hm => hbefore m' (List.forall_mem_cons.mpr ⟨hm last List.mem_cons_self, fun m'' hm'' => ?_⟩)⟩
      exact hm m'' (List.mem_cons_of_mem _ (List.mem_cons_of_mem _ hm''))
    · obtain ⟨hchain, hbefore⟩ := ih h.tail
      exact ⟨hchain, fun m' hm => hbefore m' fun m'' hm'' => hm m'' (List.mem_cons_of_mem _ hm'')⟩
    · obtain ⟨hchain, hbefore⟩ := ih h.tail
      refine ⟨⟨List.forall_mem_cons.mpr ⟨h.block last List.mem_cons_self, hchain.block⟩, List.pairwise_cons.mpr ⟨?_, hchain.before⟩⟩, ?_⟩
      · exact hbefore last (List.pairwise_cons.mp h.before).1
      · intro m' hm
        exact List.forall_mem_cons.mpr ⟨hm last List.mem_cons_self,
          hbefore m' fun m'' hm'' => hm m'' (List.mem_cons_of_mem _ hm'')⟩

variable [DecidableEq α]

/-- **The matching blocks are equal, and each stands before the next one.** -/
theorem getMatchingBlocks_chain (a b : List α) : Chain a b (getMatchingBlocks a b) := by
  have hseparate : Separate [⟨0, a.length, 0, b.length⟩] :=
    ⟨fun r hr => by rw [List.mem_singleton.mp hr]; exact ⟨Nat.zero_le _, Nat.zero_le _⟩, List.pairwise_singleton _ _⟩
  obtain ⟨hheld, hapart⟩ := matchLoop_blocks (a := a) (b := b) (2 * a.length + 1) hseparate
  have hblock : ∀ m ∈ matchLoop a b (2 * a.length + 1) [⟨0, a.length, 0, b.length⟩],
      0 < m.size ∧ Block a b ⟨0, a.length, 0, b.length⟩ m := by
    intro m hm
    obtain ⟨hpos, r, hr, h⟩ := hheld m hm
    exact ⟨hpos, List.mem_singleton.mp hr ▸ h⟩
  have hsorted := chain_sorted hblock hapart
  have hstart : Chain a b (⟨0, 0, 0⟩ :: (matchLoop a b (2 * a.length + 1) [⟨0, a.length, 0, b.length⟩]).mergeSort Match.le) := by
    refine ⟨List.forall_mem_cons.mpr ⟨⟨by simp, by simp, by simp, by simp, by simp⟩, hsorted.block⟩, ?_⟩
    exact List.pairwise_cons.mpr ⟨fun m _ => ⟨Nat.zero_le _, Nat.zero_le _⟩, hsorted.before⟩
  have hchain := (chain_collapse hstart).1
  unfold getMatchingBlocks
  refine ⟨List.forall_mem_append.mpr ⟨hchain.block, ?_⟩, List.pairwise_append.mpr ⟨hchain.before, List.pairwise_singleton _ _, ?_⟩⟩
  · intro m hm
    rw [List.mem_singleton.mp hm]
    exact ⟨Nat.zero_le _, Nat.le_refl _, Nat.zero_le _, Nat.le_refl _, by simp⟩
  · intro m hm m' hm'
    rw [List.mem_singleton.mp hm']
    exact ⟨(hchain.block m hm).ahi, (hchain.block m hm).bhi⟩

end Blocks

/-! ## A sequence and itself -/

section Same
variable {α : Type*} [DecidableEq α] {a : List α} {r : Range}

theorem place_diagonal {i j : ℕ} (h : j ∈ places a a i) : i ∈ places a a i ∧ j ∈ places a a j := by
  obtain ⟨x, hi, hj, hpopular⟩ := mem_places.mp h
  exact ⟨mem_places.mpr ⟨x, hi, hi, hpopular⟩, mem_places.mpr ⟨x, hj, hj, hpopular⟩⟩

/-- The run that ends at two places is not longer than those that end at each of them with itself. -/
theorem run_le_diagonal (halo : r.alo = 0) (hblo : r.blo = 0) (e f : ℕ) :
    run a a r e f ≤ run a a r e e ∧ run a a r e f ≤ run a a r f f := by
  induction e generalizing f with
  | zero => simp [run]
  | succ e ih =>
    cases f with
    | zero => simp [run]
    | succ f =>
      by_cases h : r.alo ≤ e ∧ r.blo ≤ f ∧ f ∈ places a a e
      · have hdiagonal := place_diagonal h.2.2
        rw [run_succ, run_succ, run_succ, if_pos h, if_pos ⟨by omega, by omega, hdiagonal.1⟩,
          if_pos ⟨by omega, by omega, hdiagonal.2⟩]
        exact ⟨Nat.succ_le_succ (ih f).1, Nat.succ_le_succ (ih f).2⟩
      · rw [run_succ e f, if_neg h]
        exact ⟨Nat.zero_le _, Nat.zero_le _⟩

theorem scanRow_longest {i j : ℕ} {j2len : ℕ → ℕ} {js : List ℕ} {s : (ℕ → ℕ) × Match} (hjs : js.Pairwise (· < ·))
    (hmem : j ∈ js) (hlow : r.blo ≤ j) (hhigh : j < r.bhi) : extended j2len j ≤ (scanRow r i j2len js s).2.size := by
  induction js generalizing s with
  | nil => cases hmem
  | cons d js ih =>
    obtain ⟨hd, hjs⟩ := List.pairwise_cons.mp hjs
    rw [scanRow]
    obtain rfl | hmem := List.mem_cons.mp hmem
    · rw [if_neg (by omega), if_neg (by omega)]
      refine le_trans ?_ scanRow_size
      simp only
      split_ifs
      · exact Nat.le_refl _
      · omega
    · have := hd j hmem
      split_ifs
      · exact ih hjs hmem
      · omega
      · exact ih hjs hmem

/-- A row only takes the block of the diagonal: the places before it and behind it are not longer than what was found. -/
theorem scanRow_diagonal {i : ℕ} {j2len : ℕ → ℕ} {js : List ℕ} {s : (ℕ → ℕ) × Match} (hjs : js.Pairwise (· < ·))
    (hblo : r.blo = 0)
    (hsmall : ∀ j ∈ js, extended j2len j ≤ s.2.size ∨ i ∈ js ∧ i ≤ j ∧ extended j2len j ≤ extended j2len i)
    (hs : s.2.a = s.2.b) : (scanRow r i j2len js s).2.a = (scanRow r i j2len js s).2.b := by
  induction js generalizing s with
  | nil => exact hs
  | cons d js ih =>
    obtain ⟨hd, htail⟩ := List.pairwise_cons.mp hjs
    rw [scanRow, if_neg (by omega)]
    by_cases hhigh : r.bhi ≤ d
    · rwa [if_pos hhigh]
    rw [if_neg hhigh]
    by_cases hdi : i = d
    · refine ih htail (fun j hj => Or.inl ?_) ?_
      · simp only
        obtain hle | ⟨-, -, hle⟩ := hsmall j (List.mem_cons_of_mem _ hj)
        all_goals
          rw [hdi] at *
          split_ifs with hlt
          · simp only
            omega
          · omega
      · simp only [hdi]
        split_ifs
        · rfl
        · exact hs
    · have hle : extended j2len d ≤ s.2.size := by
        obtain hle | ⟨hi, hid, -⟩ := hsmall d List.mem_cons_self
        · exact hle
        · have := hd i ((List.mem_cons.mp hi).resolve_left hdi)
          omega
      simp only
      rw [if_neg (by omega)]
      refine ih htail (fun j hj => ?_) hs
      obtain hle | ⟨hi, hij, hle⟩ := hsmall j (List.mem_cons_of_mem _ hj)
      · exact Or.inl hle
      · exact Or.inr ⟨(List.mem_cons.mp hi).resolve_left hdi, hij, hle⟩

/-- The longest block so far is on the diagonal, and no run of the rows before `i` is longer. -/
def Diagonal (a : List α) (r : Range) (i : ℕ) (best : Match) : Prop :=
  best.a = best.b ∧ ∀ e ≤ i, run a a r e e ≤ best.size

theorem diagonal_scanRow {i : ℕ} {j2len : ℕ → ℕ} {best : Match} (halo : r.alo = 0) (hblo : r.blo = 0)
    (hbhi : r.bhi = a.length) (hi : i < a.length) (htable : Table a a r i j2len) (hbest : Diagonal a r i best) :
    Diagonal a r (i + 1) (scanRow r i j2len (places a a i) (fun _ => 0, best)).2 := by
  have hjs := places_ascending (a := a) (b := a) i
  have hextended : ∀ j ∈ places a a i, extended j2len j = run a a r (i + 1) (j + 1) := by
    intro j hmem
    obtain ⟨x, -, hj, -⟩ := mem_places.mp hmem
    exact extended_run htable (by omega) hmem (by omega) (hbhi ▸ (List.getElem?_eq_some_iff.mp hj).1)
  refine ⟨scanRow_diagonal hjs hblo (fun j hmem => ?_) hbest.1, fun e he => ?_⟩
  · have hle := run_le_diagonal (a := a) halo hblo (i + 1) (j + 1)
    have hdiagonal := (place_diagonal hmem).1
    rw [hextended j hmem]
    obtain hji | hij := Nat.lt_or_ge j i
    · exact Or.inl (hle.2.trans (hbest.2 (j + 1) hji))
    · exact Or.inr ⟨hdiagonal, hij, (hextended i hdiagonal).symm ▸ hle.1⟩
  · obtain he | rfl := Nat.le_succ_iff.mp he
    · exact (hbest.2 e he).trans (scanRow_size (s := (fun _ => 0, best)))
    rw [run_succ]
    split_ifs with h
    · rw [← htable.extended_eq (hbhi ▸ hi)]
      exact scanRow_longest hjs h.2.2 h.2.1 (hbhi ▸ hi)
    · exact Nat.zero_le _

theorem diagonal_scanRows (rows : ℕ) {i : ℕ} {s : (ℕ → ℕ) × Match} (halo : r.alo = 0) (hblo : r.blo = 0) (hbhi : r.bhi = a.length)
    (hrows : i + rows = a.length) (htable : Table a a r i s.1) (hbest : Diagonal a r i s.2) :
    (scanRows a a r rows i s).2.a = (scanRows a a r rows i s).2.b := by
  induction rows generalizing i s with
  | zero => exact hbest.1
  | succ rows ih =>
    rw [scanRows]
    exact ih (by omega) (table_scanRow htable (by omega)) (diagonal_scanRow halo hblo hbhi (by omega) htable hbest)

theorem extendLeft_diagonal (halo : r.alo = 0) (hblo : r.blo = 0) (i size : ℕ) :
    extendLeft a a r i i size = ⟨0, 0, size + i⟩ := by
  induction i generalizing size with
  | zero => rfl
  | succ i ih =>
    rw [extendLeft, if_pos ⟨by omega, by omega, rfl⟩, Nat.add_sub_cancel, ih]
    simp only [Match.mk.injEq, true_and]
    omega

theorem extendRight_diagonal {i room size : ℕ} (hroom : i + size + room = r.bhi) :
    extendRight a a r i i room size = size + room := by
  induction room generalizing size with
  | zero => rfl
  | succ room ih =>
    rw [extendRight, if_pos ⟨by omega, rfl⟩, ih (by omega)]
    omega

/-- **The longest match of a sequence and itself is the whole sequence.** -/
theorem findLongestMatch_self (a : List α) : findLongestMatch a a ⟨0, a.length, 0, a.length⟩ = ⟨0, 0, a.length⟩ := by
  have hstart : Block a a ⟨0, a.length, 0, a.length⟩ ⟨0, 0, 0⟩ := ⟨by simp, by simp, by simp, by simp, by simp⟩
  have hscan := block_scanRows a.length (i := 0) (s := (fun _ => 0, ⟨0, 0, 0⟩)) (by simp) (Nat.le_refl _)
    table_start hstart
  have hdiagonal := diagonal_scanRows a.length (i := 0) (s := (fun _ => 0, ⟨0, 0, 0⟩))
    (r := ⟨0, a.length, 0, a.length⟩) rfl rfl rfl (by simp) table_start ⟨rfl, fun e he => by simp [Nat.le_zero.mp he, run]⟩
  unfold findLongestMatch
  simp only [Nat.sub_zero]
  generalize (scanRows a a ⟨0, a.length, 0, a.length⟩ a.length 0 (fun _ => 0, ⟨0, 0, 0⟩)).2 = best at hscan hdiagonal ⊢
  have hahi := hscan.ahi
  rw [← hdiagonal, extendLeft_diagonal rfl rfl]
  simp only [Match.mk.injEq, true_and]
  rw [extendRight_diagonal (by simp only at hahi ⊢; omega)]
  simp only at hahi
  omega

/-- **A sequence and itself have one matching block.** -/
theorem getMatchingBlocks_self (a : List α) :
    getMatchingBlocks a a = (if a.length = 0 then [] else [⟨0, 0, a.length⟩]) ++ [⟨a.length, a.length, 0⟩] := by
  have hloop : matchLoop a a (2 * a.length + 1) [⟨0, a.length, 0, a.length⟩] =
      if a.length = 0 then [] else [⟨0, 0, a.length⟩] := by
    rw [matchLoop, findLongestMatch_self]
    simp only [pushSides, lt_irrefl, false_and, Nat.zero_add, if_false]
    split_ifs
    · cases a <;> rfl
    · cases a <;> rfl
  unfold getMatchingBlocks
  rw [hloop]
  split_ifs with hempty
  · simp [collapse]
  · simp only [List.mergeSort_singleton, collapse, Nat.add_zero, true_and]
    split_ifs <;> simp_all

end Same

end KernelRuntime.SequenceMatcher
