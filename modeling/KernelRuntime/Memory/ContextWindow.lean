import KernelRuntime.Memory.ContextBuilder

/-! # The window of a long history

The query of `build_llm_context` orders the rows upwards and takes the first ones. `LatestTurns` is
what its docstring promises, the last turns. The two agree as long as the limit is not exceeded. -/

namespace KernelRuntime
set_option autoImplicit false

/-- The rows that the conditions of the query select. -/
def scopeRows (rows : List MessageModel) (sessionId tenantId : String) (taskId : Option String) :
    List MessageModel := rows.filter fun r => decide (InContext sessionId tenantId taskId r)

/-- The rows of the query for any `max_turns`; `contextRows` is the call with its default. -/
def selectRows (limit : ℕ) (rows : List MessageModel) (sessionId tenantId : String)
    (taskId : Option String) : List MessageModel :=
  ((scopeRows rows sessionId tenantId taskId).insertionSort fun a b => a.sequence ≤ b.sequence).take limit

theorem contextRows_eq_selectRows (rows : List MessageModel) (sessionId tenantId : String)
    (taskId : Option String) :
    contextRows rows sessionId tenantId taskId = selectRows maxTurns rows sessionId tenantId taskId := rfl

/-- The last `limit` of the rows, in the order of their numbers. -/
structure LatestTurns (limit : ℕ) (rows selected : List MessageModel) : Prop where
  ordered : selected.Pairwise fun a b => a.sequence < b.sequence
  subset : ∀ r ∈ selected, r ∈ rows
  length : selected.length = min rows.length limit
  latest : ∀ r ∈ rows, r ∉ selected → ∀ s ∈ selected, r.sequence < s.sequence

/-! ## The order -/

theorem pairwise_sorted (rows : List MessageModel) :
    (rows.insertionSort fun a b => a.sequence ≤ b.sequence).Pairwise fun a b =>
      a.sequence ≤ b.sequence := by
  have htotal : Std.Total fun a b : MessageModel => a.sequence ≤ b.sequence :=
    ⟨fun a b => le_total a.sequence b.sequence⟩
  have htrans : IsTrans MessageModel fun a b => a.sequence ≤ b.sequence :=
    ⟨fun _ _ _ => le_trans⟩
  exact List.pairwise_insertionSort _ rows

theorem pairwise_sorted_lt {rows : List MessageModel} (h : (rows.map MessageModel.sequence).Nodup) :
    (rows.insertionSort fun a b => a.sequence ≤ b.sequence).Pairwise fun a b =>
      a.sequence < b.sequence := by
  have hperm := List.perm_insertionSort (fun a b : MessageModel => a.sequence ≤ b.sequence) rows
  have hnodup : ((rows.insertionSort fun a b => a.sequence ≤ b.sequence).map
      MessageModel.sequence).Nodup := (hperm.map _).nodup_iff.mpr h
  have hne := List.pairwise_map.mp hnodup
  refine ((pairwise_sorted rows).and hne).imp ?_
  rintro a b ⟨hle, hdiff⟩
  exact lt_of_le_of_ne hle hdiff

/-- **The context is the last `max_turns` rows exactly when there are no more than these.** -/
theorem latestTurns_selectRows_iff (rows : List MessageModel) (sessionId tenantId : String)
    (taskId : Option String) (limit : ℕ) (hlimit : 1 ≤ limit)
    (hdistinct : ((rows.filter fun r => decide (r.sessionId = sessionId)).map
      MessageModel.sequence).Nodup) :
    LatestTurns limit (scopeRows rows sessionId tenantId taskId)
        (selectRows limit rows sessionId tenantId taskId) ↔
      (scopeRows rows sessionId tenantId taskId).length ≤ limit := by
  have hscope : ((scopeRows rows sessionId tenantId taskId).map MessageModel.sequence).Nodup := by
    refine hdistinct.sublist (List.Sublist.map _ ?_)
    refine List.monotone_filter_right rows fun r hr => ?_
    exact decide_eq_true (of_decide_eq_true hr).1
  unfold selectRows
  generalize scopeRows rows sessionId tenantId taskId = scope at hscope
  have hsorted := pairwise_sorted_lt hscope
  have hperm := List.perm_insertionSort (fun a b : MessageModel => a.sequence ≤ b.sequence) scope
  have hlength := hperm.length_eq
  generalize (scope.insertionSort fun a b => a.sequence ≤ b.sequence) = sorted at hsorted hperm hlength
  constructor
  · intro h
    by_contra hlong
    -- a row that is selected comes before every row that is cut off
    rw [← List.take_append_drop limit sorted] at hsorted
    have hbefore := (List.pairwise_append.mp hsorted).2.2
    obtain ⟨a, ha⟩ : ∃ a, a ∈ sorted.take limit := by
      refine List.exists_mem_of_ne_nil _ fun hnil => ?_
      have htake := congrArg List.length hnil
      rw [List.length_take, List.length_nil] at htake
      omega
    obtain ⟨c, hc⟩ : ∃ c, c ∈ sorted.drop limit := by
      refine List.exists_mem_of_ne_nil _ fun hnil => ?_
      have hdrop := congrArg List.length hnil
      rw [List.length_drop, List.length_nil] at hdrop
      omega
    have hcut : c ∉ sorted.take limit := fun hmem => absurd (hbefore c hmem c hc) (lt_irrefl _)
    have hscopeMem : c ∈ scope := hperm.mem_iff.mp (List.mem_of_mem_drop hc)
    have hlatest := h.latest c hscopeMem hcut a ha
    have hearlier := hbefore a ha c hc
    omega
  · intro hshort
    have hall : sorted.take limit = sorted := List.take_of_length_le (by omega)
    rw [hall]
    refine ⟨hsorted, fun r hr => hperm.mem_iff.mp hr, by omega, ?_⟩
    intro r hr hnot
    exact absurd (hperm.mem_iff.mpr hr) hnot

/-- The `k`-th turn of a user's task. -/
def userRow (k : ℕ) : MessageModel :=
  ⟨k, "acme", "s1", some "t1", "user", "go on", none, [], none, k⟩

def longTask (n : ℕ) : List MessageModel := (List.range n).map userRow

/-- A task of three turns fits the default window. -/
theorem latestTurns_short : LatestTurns 40 (scopeRows (longTask 3) "s1" "acme" (some "t1"))
    (selectRows 40 (longTask 3) "s1" "acme" (some "t1")) :=
  (latestTurns_selectRows_iff (longTask 3) "s1" "acme" (some "t1") 40 (by decide) (by decide)).mpr
    (by decide)

/-- Of forty-one turns the model does not see the last. -/
theorem newest_turn_cut : ¬ ∀ (rows : List MessageModel) (sessionId tenantId : String)
    (taskId : Option String) (limit : ℕ), 1 ≤ limit →
    ((rows.filter fun r => decide (r.sessionId = sessionId)).map MessageModel.sequence).Nodup →
    LatestTurns limit (scopeRows rows sessionId tenantId taskId)
      (selectRows limit rows sessionId tenantId taskId) := by
  intro h
  have hlatest := h (longTask 41) "s1" "acme" (some "t1") 40 (by decide) (by decide +kernel)
  have hfirst : userRow 0 ∈ selectRows 40 (longTask 41) "s1" "acme" (some "t1") := by decide +kernel
  have hlast : userRow 40 ∉ selectRows 40 (longTask 41) "s1" "acme" (some "t1") := by decide +kernel
  have hlater := hlatest.latest (userRow 40) (by decide +kernel) hlast (userRow 0) hfirst
  exact absurd hlater (by decide)

end KernelRuntime
