import Mathlib.Data.List.Basic
import Mathlib.Data.List.Count
import Mathlib.Data.List.Nodup
import Mathlib.Tactic.Common

/-! # Transcripts of calls and answers

A transcript lists calls, answers and entries that are neither. `WellFormed` is what its reader
expects. `Closed` transcripts are made of whole blocks: calls, and right behind them one answer each,
in their order. -/

namespace KernelRuntime.Transcript
set_option autoImplicit false

/-- An entry. The id of a call or an answer may be missing. -/
inductive Item (ι : Type*) where
  | plain
  | calls (ids : List (Option ι))
  | answer (id : Option ι)
deriving DecidableEq

variable {ι : Type*}

namespace Item

def isAnswer : Item ι → Bool
  | answer _ => true
  | _ => false

def isCalls : Item ι → Bool
  | calls _ => true
  | _ => false

end Item

structure WellFormed [DecidableEq ι] (items : List (Item ι)) : Prop where
  /-- An answer has the id of one of the closest calls before it. -/
  answers : ∀ before id after, items = before ++ .answer id :: after →
    ∃ x ids start middle, id = some x ∧ some x ∈ ids ∧ before = start ++ .calls ids :: middle ∧
      ∀ i ∈ middle, i.isCalls = false
  /-- A call has exactly one answer before the next entry that is no answer. -/
  answered : ∀ before ids after, items = before ++ .calls ids :: after → ∀ x, some x ∈ ids →
    (after.takeWhile Item.isAnswer).count (.answer (some x)) = 1

inductive Closed : List (Item ι) → Prop
  | nil : Closed []
  | plain {rest : List (Item ι)} (h : Closed rest) : Closed (.plain :: rest)
  | block {ids : List (Option ι)} {rest : List (Item ι)} (hnodup : ids.Nodup) (hids : none ∉ ids)
      (h : Closed rest) : Closed (.calls ids :: (ids.map Item.answer ++ rest))

/-! ## How closed transcripts grow -/

theorem Closed.append {a b : List (Item ι)} (ha : Closed a) (hb : Closed b) : Closed (a ++ b) := by
  induction ha with
  | nil => exact hb
  | plain _ ih => exact .plain ih
  | block hnodup hids _ ih =>
    rw [List.cons_append, List.append_assoc]
    exact .block hnodup hids ih

theorem closed_plains {items : List (Item ι)} (h : ∀ i ∈ items, i = .plain) : Closed items := by
  induction items with
  | nil => exact .nil
  | cons i items ih =>
    rw [h i List.mem_cons_self]
    exact .plain (ih fun i hi => h i (List.mem_cons_of_mem _ hi))

theorem Closed.concat_block {items : List (Item ι)} (h : Closed items) {ids : List (Option ι)}
    (hnodup : ids.Nodup) (hids : none ∉ ids) :
    Closed (items ++ [.calls ids] ++ ids.map Item.answer) := by
  have hblock : Closed (.calls ids :: (ids.map Item.answer ++ [])) := .block hnodup hids .nil
  rw [List.append_nil] at hblock
  rw [List.append_assoc]
  exact h.append hblock

theorem Closed.take_plains {items plains : List (Item ι)} {n : ℕ} (h : Closed items)
    (hlength : items.length ≤ n) (hplains : ∀ i ∈ plains, i = .plain) :
    Closed ((items ++ plains).take n) := by
  rw [List.take_append, List.take_of_length_le hlength]
  exact h.append (closed_plains fun i hi => hplains i (List.mem_of_mem_take hi))

/-! ## They are well formed -/

theorem Closed.no_answer_first {items : List (Item ι)} (h : Closed items) :
    items.takeWhile Item.isAnswer = [] := by
  cases h <;> rfl

variable [DecidableEq ι]

theorem WellFormed.plain_cons {rest : List (Item ι)} (h : WellFormed rest) :
    WellFormed (.plain :: rest) := by
  constructor
  · intro before id after hsplit
    cases before with
    | nil => cases hsplit
    | cons i before =>
      obtain ⟨rfl, hrest⟩ := List.cons.inj hsplit
      obtain ⟨x, ids, start, middle, hx, hmem, rfl, hmiddle⟩ := h.answers before id after hrest
      exact ⟨x, ids, .plain :: start, middle, hx, hmem, rfl, hmiddle⟩
  · intro before ids after hsplit
    cases before with
    | nil => cases hsplit
    | cons i before =>
      obtain ⟨rfl, hrest⟩ := List.cons.inj hsplit
      exact h.answered before ids after hrest

/-- Every call of a block has its answer in the block. -/
theorem count_answers {ids : List (Option ι)} (hnodup : ids.Nodup) {rest : List (Item ι)}
    (hrest : rest.takeWhile Item.isAnswer = []) {x : ι} (hx : some x ∈ ids) :
    ((ids.map Item.answer ++ rest).takeWhile Item.isAnswer).count (.answer (some x)) = 1 := by
  have hanswers : ∀ i ∈ ids.map Item.answer, Item.isAnswer i = true := by
    intro i hi
    obtain ⟨id, _, rfl⟩ := List.mem_map.mp hi
    rfl
  have hinj : Function.Injective (Item.answer : Option ι → Item ι) := fun _ _ h => Item.answer.inj h
  rw [List.takeWhile_append_of_pos hanswers, hrest, List.append_nil,
    List.count_map_of_injective _ _ hinj]
  exact List.count_eq_one_of_mem hnodup hx

theorem WellFormed.block_append {ids : List (Option ι)} (hnodup : ids.Nodup) (hids : none ∉ ids)
    {rest : List (Item ι)} (hfirst : rest.takeWhile Item.isAnswer = []) (h : WellFormed rest) :
    WellFormed (.calls ids :: (ids.map Item.answer ++ rest)) := by
  constructor
  · intro before id after hsplit
    cases before with
    | nil => cases hsplit
    | cons i before =>
      obtain ⟨rfl, htail⟩ := List.cons.inj hsplit
      rcases List.append_eq_append_iff.mp htail with ⟨front, rfl, hrest⟩ | ⟨back, hanswers, hrest⟩
      · -- an answer behind the block
        obtain ⟨x, ids', start, middle, hx, hmem, rfl, hmiddle⟩ := h.answers front id after hrest
        exact ⟨x, ids', .calls ids :: (ids.map Item.answer ++ start), middle, hx, hmem, by simp, hmiddle⟩
      · cases back with
        | nil =>
          rw [List.nil_append] at hrest
          rw [← hrest] at hfirst
          cases hfirst
        | cons i back =>
          obtain ⟨rfl, _⟩ := List.cons.inj hrest
          have hmem : Item.answer id ∈ ids.map Item.answer := by
            rw [hanswers]
            exact List.mem_append_right _ List.mem_cons_self
          obtain ⟨id', hid, heq⟩ := List.mem_map.mp hmem
          obtain rfl := Item.answer.inj heq
          obtain ⟨x, rfl⟩ := Option.ne_none_iff_exists'.mp fun hnone => hids (hnone ▸ hid)
          refine ⟨x, ids, [], before, rfl, hid, rfl, fun i hi => ?_⟩
          have hi' : i ∈ ids.map Item.answer := by
            rw [hanswers]
            exact List.mem_append_left _ hi
          obtain ⟨id, _, rfl⟩ := List.mem_map.mp hi'
          rfl
  · intro before ids' after hsplit
    cases before with
    | nil =>
      obtain ⟨hcalls, rfl⟩ := List.cons.inj hsplit
      obtain rfl := Item.calls.inj hcalls
      exact fun x hx => count_answers hnodup hfirst hx
    | cons i before =>
      obtain ⟨rfl, htail⟩ := List.cons.inj hsplit
      rcases List.append_eq_append_iff.mp htail with ⟨front, rfl, hrest⟩ | ⟨back, hanswers, hrest⟩
      · exact h.answered front ids' after hrest
      · cases back with
        | nil => exact h.answered [] ids' after hrest.symm
        | cons i back =>
          obtain ⟨rfl, _⟩ := List.cons.inj hrest
          have hmem : Item.calls ids' ∈ ids.map Item.answer := by
            rw [hanswers]
            exact List.mem_append_right _ List.mem_cons_self
          obtain ⟨_, _, heq⟩ := List.mem_map.mp hmem
          cases heq

theorem Closed.wellFormed {items : List (Item ι)} (h : Closed items) : WellFormed items := by
  induction h with
  | nil =>
    constructor
    · intro before id after hsplit
      cases before <;> cases hsplit
    · intro before ids after hsplit
      cases before <;> cases hsplit
  | plain _ ih => exact ih.plain_cons
  | block hnodup hids hrest ih => exact .block_append hnodup hids hrest.no_answer_first ih

end KernelRuntime.Transcript
