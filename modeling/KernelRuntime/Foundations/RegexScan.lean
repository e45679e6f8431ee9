import Mathlib.Data.List.Count
import Mathlib.Data.List.Infix
import Mathlib.Tactic.Common

/-! # Scanning a text with a regular expression

A global regular expression takes the leftmost match, goes on behind it, and so on. What it does at one position is a
matcher; here is what a scan makes of it, as `replace`, `split` and a loop over `exec` use it. A matcher sees the
character before its position, for word boundaries. -/

namespace KernelRuntime
set_option autoImplicit false

/-- The length of the match at a position, and the captures. No match is empty. -/
structure Matcher (α β : Type*) where
  matchAt : Option α → List α → Option (ℕ × β)
  pos : ∀ {prev s n b}, matchAt prev s = some (n, b) → 0 < n
  le : ∀ {prev s n b}, matchAt prev s = some (n, b) → n ≤ s.length

/-- A match, its captures, and the text behind it up to the next match. -/
structure Hit (α β : Type*) where
  text : List α
  captures : β
  behind : List α

/-- A text cut at its matches. -/
structure Pieces (α β : Type*) where
  front : List α
  hits : List (Hit α β)

section Scan
variable {α β : Type*}

/-- The character before what follows the list. -/
def lastOr (prev : Option α) : List α → Option α
  | [] => prev
  | c :: cs => lastOr (some c) cs

@[simp] theorem lastOr_append (prev : Option α) (s t : List α) : lastOr prev (s ++ t) = lastOr (lastOr prev s) t := by
  induction s generalizing prev with
  | nil => rfl
  | cons c s ih => exact ih (some c)

@[simp] theorem lastOr_concat (prev : Option α) (s : List α) (c : α) : lastOr prev (s ++ [c]) = some c :=
  lastOr_append prev s [c]

namespace Matcher
variable (m : Matcher α β)

/-- The scan; the number counts the characters of a match that are still to be skipped. -/
def cutFrom : ℕ → Option α → List α → Pieces α β
  | _, _, [] => ⟨[], []⟩
  | k + 1, _, c :: cs => cutFrom k (some c) cs
  | 0, prev, c :: cs =>
    match m.matchAt prev (c :: cs) with
    | some (n, b) =>
      let rest := cutFrom (n - 1) (some c) cs
      ⟨[], ⟨(c :: cs).take n, b, rest.front⟩ :: rest.hits⟩
    | none =>
      let rest := cutFrom 0 (some c) cs
      ⟨c :: rest.front, rest.hits⟩

def cut (prev : Option α) (s : List α) : Pieces α β := m.cutFrom 0 prev s

/-- `s.replace(regex, f)`. -/
def replace (f : List α → β → List α) (prev : Option α) (s : List α) : List α :=
  (m.cut prev s).front ++ (m.cut prev s).hits.flatMap fun hit => f hit.text hit.captures ++ hit.behind

def hits (prev : Option α) (s : List α) : List (Hit α β) := (m.cut prev s).hits

variable {m}

theorem cutFrom_eq (k : ℕ) (prev : Option α) (s : List α) :
    m.cutFrom k prev s = m.cut (lastOr prev (s.take k)) (s.drop k) := by
  induction s generalizing k prev with
  | nil => cases k <;> rfl
  | cons c cs ih =>
    cases k with
    | zero => rfl
    | succ k => exact ih k (some c)

@[simp] theorem cut_nil (prev : Option α) : m.cut prev [] = ⟨[], []⟩ := rfl

theorem cut_miss {prev : Option α} {c : α} {cs : List α} (h : m.matchAt prev (c :: cs) = none) :
    m.cut prev (c :: cs) = ⟨c :: (m.cut (some c) cs).front, (m.cut (some c) cs).hits⟩ := by
  unfold cut
  rw [cutFrom, h]

theorem cut_hit {prev : Option α} {s : List α} {n : ℕ} {b : β} (h : m.matchAt prev s = some (n, b)) :
    m.cut prev s = ⟨[], ⟨s.take n, b, (m.cut (lastOr prev (s.take n)) (s.drop n)).front⟩ ::
      (m.cut (lastOr prev (s.take n)) (s.drop n)).hits⟩ := by
  obtain ⟨k, rfl⟩ : ∃ k, n = k + 1 := ⟨n - 1, by have := m.pos h; omega⟩
  cases s with
  | nil => exact absurd (m.le h) (Nat.not_succ_le_zero k)
  | cons c cs =>
    rw [cut, cutFrom, h]
    simp only [Nat.add_sub_cancel, cutFrom_eq, List.take_succ_cons, List.drop_succ_cons]
    rfl

/-- A text is empty, begins with a match, or with a character that is passed over. -/
theorem scan_induction {P : Option α → List α → Prop} (nil : ∀ prev, P prev [])
    (hit : ∀ prev s n b, m.matchAt prev s = some (n, b) → P (lastOr prev (s.take n)) (s.drop n) → P prev s)
    (miss : ∀ prev c cs, m.matchAt prev (c :: cs) = none → P (some c) cs → P prev (c :: cs))
    (prev : Option α) (s : List α) : P prev s := by
  induction hlength : s.length using Nat.strongRecOn generalizing prev s with
  | ind length ih =>
    cases s with
    | nil => exact nil prev
    | cons c cs =>
      cases h : m.matchAt prev (c :: cs) with
      | none => exact miss prev c cs h (ih cs.length (by rw [← hlength, List.length_cons]; omega) _ _ rfl)
      | some found =>
        obtain ⟨n, b⟩ := found
        have hpos := m.pos h
        have hle := m.le h
        refine hit prev _ n b h (ih _ ?_ _ _ rfl)
        rw [← hlength, List.length_drop]
        omega

/-- Nothing is lost between the pieces. -/
theorem cut_join (prev : Option α) (s : List α) :
    (m.cut prev s).front ++ (m.cut prev s).hits.flatMap (fun hit => hit.text ++ hit.behind) = s := by
  induction prev, s using scan_induction (m := m) with
  | nil prev => rfl
  | hit prev s n b h ih =>
    rw [cut_hit h, List.nil_append, List.flatMap_cons, List.append_assoc, ih, List.take_append_drop]
  | miss prev c cs h ih =>
    rw [cut_miss h]
    exact congrArg (c :: ·) ih

/-- What holds of every match holds of the hits. -/
theorem forall_hits {P : List α → β → Prop}
    (h : ∀ prev s n b, m.matchAt prev s = some (n, b) → P (s.take n) b) (prev : Option α) (s : List α) :
    ∀ hit ∈ m.hits prev s, P hit.text hit.captures := by
  unfold hits
  induction prev, s using scan_induction (m := m) with
  | nil prev => exact nofun
  | hit prev s n b hmatch ih =>
    rw [cut_hit hmatch]
    exact List.forall_mem_cons.mpr ⟨h prev s n b hmatch, ih⟩
  | miss prev c cs hmatch ih =>
    rw [cut_miss hmatch]
    exact ih

theorem hits_append {prev : Option α} {chunk : List α} (rest : List α)
    (h : ∀ front back, chunk = front ++ back → back ≠ [] → m.matchAt (lastOr prev front) (back ++ rest) = none) :
    m.hits prev (chunk ++ rest) = m.hits (lastOr prev chunk) rest := by
  induction chunk generalizing prev with
  | nil => rfl
  | cons c chunk ih =>
    have hfirst := h [] (c :: chunk) rfl (List.cons_ne_nil _ _)
    rw [List.cons_append] at hfirst ⊢
    unfold hits at ih ⊢
    rw [cut_miss (show m.matchAt prev _ = none from hfirst)]
    exact ih fun front back hchunk hback => h (c :: front) back (by rw [hchunk, List.cons_append]) hback

/-! ## Replacing -/

section Replace
variable {f : List α → β → List α}

@[simp] theorem replace_nil (prev : Option α) : m.replace f prev [] = [] := rfl

theorem replace_miss {prev : Option α} {c : α} {cs : List α} (h : m.matchAt prev (c :: cs) = none) :
    m.replace f prev (c :: cs) = c :: m.replace f (some c) cs := by
  unfold replace
  rw [cut_miss h]
  rfl

theorem replace_hit {prev : Option α} {s : List α} {n : ℕ} {b : β} (h : m.matchAt prev s = some (n, b)) :
    m.replace f prev s = f (s.take n) b ++ m.replace f (lastOr prev (s.take n)) (s.drop n) := by
  unfold replace
  rw [cut_hit h, List.nil_append, List.flatMap_cons, List.append_assoc]

/-- A text in which no match begins is copied. -/
theorem replace_append (f : List α → β → List α) {prev : Option α} {chunk : List α} (rest : List α)
    (h : ∀ front back, chunk = front ++ back → back ≠ [] → m.matchAt (lastOr prev front) (back ++ rest) = none) :
    m.replace f prev (chunk ++ rest) = chunk ++ m.replace f (lastOr prev chunk) rest := by
  induction chunk generalizing prev with
  | nil => rfl
  | cons c chunk ih =>
    have hfirst := h [] (c :: chunk) rfl (List.cons_ne_nil _ _)
    rw [List.cons_append] at hfirst ⊢
    rw [replace_miss (show m.matchAt prev _ = none from hfirst), ih fun front back hchunk hback => ?_]
    · rfl
    · exact h (c :: front) back (by rw [hchunk, List.cons_append]) hback

/-- Without a match nothing is replaced. -/
theorem replace_eq_self {prev : Option α} {s : List α} (h : m.hits prev s = []) : m.replace f prev s = s := by
  have hjoin := cut_join (m := m) prev s
  unfold hits at h
  unfold replace
  rw [h] at hjoin ⊢
  exact hjoin

section Count
variable [DecidableEq α] {x : α}

theorem count_hits (hits : List (Hit α β)) (h : ∀ hit ∈ hits, (f hit.text hit.captures).count x ≤ hit.text.count x) :
    (hits.flatMap fun hit => f hit.text hit.captures ++ hit.behind).count x ≤
        (hits.flatMap fun hit => hit.text ++ hit.behind).count x ∧
      ((∃ hit ∈ hits, (f hit.text hit.captures).count x < hit.text.count x) →
        (hits.flatMap fun hit => f hit.text hit.captures ++ hit.behind).count x <
          (hits.flatMap fun hit => hit.text ++ hit.behind).count x) := by
  induction hits with
  | nil => exact ⟨Nat.le_refl _, nofun⟩
  | cons hit hits ih =>
    obtain ⟨hfirst, hrest⟩ := List.forall_mem_cons.mp h
    obtain ⟨hle, hlt⟩ := ih hrest
    simp only [List.flatMap_cons, List.count_append, List.mem_cons, exists_eq_or_imp] at hle hlt ⊢
    refine ⟨by omega, ?_⟩
    rintro (hless | hmore)
    · omega
    · have hless := hlt hmore
      omega

/-- A character does not become more frequent where no replacement adds one. -/
theorem count_replace_le (h : ∀ prev s n b, m.matchAt prev s = some (n, b) → (f (s.take n) b).count x ≤ (s.take n).count x)
    (prev : Option α) (s : List α) : (m.replace f prev s).count x ≤ s.count x := by
  have hjoin := congrArg (List.count x) (cut_join (m := m) prev s)
  have hhits := (count_hits _ (forall_hits (P := fun text b => (f text b).count x ≤ text.count x) h prev s)).1
  unfold replace
  unfold hits at hhits
  rw [List.count_append] at hjoin ⊢
  omega

/-- It becomes less frequent where one replacement drops it. -/
theorem count_replace_lt (h : ∀ prev s n b, m.matchAt prev s = some (n, b) → (f (s.take n) b).count x ≤ (s.take n).count x)
    {prev : Option α} {s : List α} (hless : ∃ hit ∈ m.hits prev s, (f hit.text hit.captures).count x < hit.text.count x) :
    (m.replace f prev s).count x < s.count x := by
  have hjoin := congrArg (List.count x) (cut_join (m := m) prev s)
  have hhits := (count_hits _ (forall_hits (P := fun text b => (f text b).count x ≤ text.count x) h prev s)).2 hless
  unfold replace
  unfold hits at hhits
  rw [List.count_append] at hjoin ⊢
  omega

end Count

/-- A text in which no match begins, and which a match takes whole or not at all, is still there. -/
theorem infix_replace {chunk : List α}
    (hstart : ∀ prev front back rest, chunk = front ++ back → back ≠ [] → m.matchAt (lastOr prev front) (back ++ rest) = none)
    (hcover : ∀ prev u rest n b, m.matchAt prev (u ++ (chunk ++ rest)) = some (n, b) →
      n ≤ u.length ∨ u.length + chunk.length ≤ n)
    (hf : ∀ prev s n b, m.matchAt prev s = some (n, b) → s.take n <:+: f (s.take n) b) (prev : Option α) (u rest : List α) :
    chunk <:+: m.replace f prev (u ++ (chunk ++ rest)) := by
  induction hlength : u.length using Nat.strongRecOn generalizing prev u with
  | ind length ih =>
    cases u with
    | nil =>
      rw [List.nil_append, replace_append f rest fun front back hchunk hback => hstart prev front back rest hchunk hback]
      exact (List.prefix_append _ _).isInfix
    | cons c u =>
      cases hmatch : m.matchAt prev (c :: u ++ (chunk ++ rest)) with
      | none =>
        rw [List.cons_append] at hmatch ⊢
        rw [replace_miss hmatch]
        exact (ih u.length (by rw [← hlength, List.length_cons]; omega) _ u rfl).trans (List.suffix_cons _ _).isInfix
      | some found =>
        obtain ⟨n, b⟩ := found
        have hpos := m.pos hmatch
        rw [replace_hit hmatch]
        rcases hcover prev (c :: u) rest n b hmatch with hle | hge
        · rw [List.drop_append_of_le_length hle]
          refine (ih _ ?_ _ ((c :: u).drop n) rfl).trans (List.suffix_append _ _).isInfix
          rw [← hlength, List.length_drop]
          simp only [List.length_cons] at hle ⊢
          omega
        · have hwhole : (c :: u ++ chunk).length ≤ n := by
            rw [List.length_append]
            exact hge
          have htake : (c :: u ++ (chunk ++ rest)).take n =
              c :: u ++ chunk ++ rest.take (n - (c :: u ++ chunk).length) := by
            rw [← List.append_assoc, List.take_append, List.take_of_length_le hwhole]
          have hthere : chunk <:+: (c :: u ++ (chunk ++ rest)).take n := ⟨c :: u, _, htake.symm⟩
          exact (hthere.trans (hf prev _ n b hmatch)).trans (List.prefix_append _ _).isInfix

end Replace
end Matcher

/-! ## Repetitions -/

/-- The text before the first `stop`, of characters that are allowed: `(ok*?)stop`. -/
def lazyUntil [DecidableEq α] (ok : α → Bool) (stop : List α) : List α → Option (List α)
  | [] => if stop = [] then some [] else none
  | c :: cs =>
    if stop.isPrefixOf (c :: cs) then some []
    else if ok c then (lazyUntil ok stop cs).map (c :: ·)
    else none

theorem lazyUntil_eq_some [DecidableEq α] {ok : α → Bool} {stop s body : List α} (h : lazyUntil ok stop s = some body) :
    (∃ rest, s = body ++ (stop ++ rest)) ∧ ∀ c ∈ body, ok c = true := by
  induction s generalizing body with
  | nil =>
    rw [lazyUntil] at h
    split_ifs at h with hstop
    obtain rfl := Option.some.inj h
    exact ⟨⟨[], by rw [hstop]; rfl⟩, nofun⟩
  | cons c cs ih =>
    rw [lazyUntil] at h
    split_ifs at h with hprefix hok
    · obtain rfl := Option.some.inj h
      obtain ⟨rest, hrest⟩ := List.isPrefixOf_iff_prefix.mp hprefix
      exact ⟨⟨rest, hrest.symm⟩, nofun⟩
    · obtain ⟨body', hbody, rfl⟩ := Option.map_eq_some_iff.mp h
      obtain ⟨⟨rest, hrest⟩, hall⟩ := ih hbody
      exact ⟨⟨rest, by rw [hrest, List.cons_append]⟩, List.forall_mem_cons.mpr ⟨hok, hall⟩⟩

/-- Up to a single character, which is then not in the text. -/
theorem not_mem_of_lazyUntil [DecidableEq α] {ok : α → Bool} {x : α} {s body : List α}
    (h : lazyUntil ok [x] s = some body) : x ∉ body := by
  induction s generalizing body with
  | nil =>
    rw [lazyUntil, if_neg (List.cons_ne_nil _ _)] at h
    cases h
  | cons c cs ih =>
    rw [lazyUntil] at h
    split_ifs at h with hprefix hok
    · obtain rfl := Option.some.inj h
      exact List.not_mem_nil
    · obtain ⟨body', hbody, rfl⟩ := Option.map_eq_some_iff.mp h
      refine mt List.mem_cons.mp (not_or.mpr ⟨?_, ih hbody⟩)
      rintro rfl
      exact hprefix (List.isPrefixOf_iff_prefix.mpr ⟨cs, rfl⟩)

theorem lazyUntil_append [DecidableEq α] {ok : α → Bool} {x : α} {body : List α} (hbody : x ∉ body)
    (hok : ∀ c ∈ body, ok c = true) (rest : List α) : lazyUntil ok [x] (body ++ x :: rest) = some body := by
  induction body with
  | nil =>
    have hprefix : [x].isPrefixOf (x :: rest) = true := by simp
    rw [List.nil_append, lazyUntil, if_pos hprefix]
  | cons c body ih =>
    obtain ⟨hc, hbody⟩ := not_or.mp (mt List.mem_cons.mpr hbody)
    obtain ⟨hokc, hok⟩ := List.forall_mem_cons.mp hok
    have hprefix : ¬ [x].isPrefixOf (c :: (body ++ x :: rest)) = true := by
      simp [hc]
    rw [List.cons_append, lazyUntil, if_neg hprefix, if_pos hokc, ih hbody hok]
    rfl

/-- `ok+` as long as it goes, so that `next` matches behind it. -/
def greedyPlus (ok : α → Bool) (next : List α → Option ℕ) : List α → Option ℕ
  | [] => none
  | c :: cs =>
    if ok c then
      match greedyPlus ok next cs with
      | some n => some (n + 1)
      | none => (next cs).map (· + 1)
    else none

theorem greedyPlus_eq_some {ok : α → Bool} {next : List α → Option ℕ} (hnext : ∀ s n, next s = some n → n ≤ s.length)
    {s : List α} {n : ℕ} (h : greedyPlus ok next s = some n) : 0 < n ∧ n ≤ s.length := by
  induction s generalizing n with
  | nil => cases h
  | cons c cs ih =>
    rw [greedyPlus] at h
    split_ifs at h with hok
    cases hmore : greedyPlus ok next cs with
    | some k =>
      rw [hmore] at h
      obtain rfl := Option.some.inj h
      have hk := ih hmore
      rw [List.length_cons]
      omega
    | none =>
      rw [hmore] at h
      obtain ⟨k, hk, rfl⟩ := Option.map_eq_some_iff.mp h
      have hle := hnext cs k hk
      rw [List.length_cons]
      omega

end Scan
end KernelRuntime
