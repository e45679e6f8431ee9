import Mathlib.Algebra.Order.Field.Rat
import Mathlib.Data.Rat.Floor
import Mathlib.Tactic.Linarith
import Mathlib.Tactic.NormNum

/-! # The quota check

`UsageTracker.check_quota` compares what a tenant has spent with its quota, and raises with a text for the
user. The numbers are exact here. A quota of zero is read as a missing one. -/

namespace KernelRuntime.Billing
set_option autoImplicit false

/-- The columns of `TenantModel` that the check reads. -/
structure TenantModel where
  id : String
  costCents : ℤ
  quotaUsd : ℚ
deriving DecidableEq

/-- The nearest integer; half way between two, the even one. -/
def roundHalfEven (x : ℚ) : ℤ :=
  let below := ⌊x⌋
  if x - below < 1 / 2 then below
  else if 1 / 2 < x - below then below + 1
  else if below % 2 = 0 then below
  else below + 1

/-- `f"{x:.2f}"`. -/
def twoDecimals (x : ℚ) : String :=
  let cents := (roundHalfEven (|x| * 100)).toNat
  (if x < 0 then "-" else "") ++ toString (cents / 100) ++ "." ++ toString (cents / 10 % 10) ++ toString (cents % 10)

def currentSpendUsd (tenant : TenantModel) : ℚ := tenant.costCents / 100

/-- `float(tenant.quota_usd) if tenant.quota_usd else 50.0`. -/
def quotaOf (tenant : TenantModel) : ℚ := if tenant.quotaUsd = 0 then 50 else tenant.quotaUsd

def quotaExceeded (tenant : TenantModel) : String :=
  "Billing quota exceeded. Current spend: $" ++ twoDecimals (currentSpendUsd tenant) ++ ", Quota: $" ++
    twoDecimals (quotaOf tenant)

/-- `check_quota`: the text of the `QuotaExceededError`, when it raises one. -/
def checkQuota (tenants : List TenantModel) (tenantId : String) : Option String :=
  if tenantId = "local" then none
  else
    match tenants.find? fun t => decide (t.id = tenantId) with
    | none => none
    | some tenant => if quotaOf tenant ≤ currentSpendUsd tenant then some (quotaExceeded tenant) else none

/-- The tenant has spent its quota. -/
def Spent (tenant : TenantModel) : Prop := 100 * tenant.quotaUsd ≤ tenant.costCents

/-- The quota or, for a quota of zero, the default is spent. -/
def Refused (tenant : TenantModel) : Prop := tenant.quotaUsd ≠ 0 ∨ 5000 ≤ tenant.costCents

instance (tenant : TenantModel) : Decidable (Refused tenant) := by unfold Refused; infer_instance

theorem quotaOf_le_iff {tenant : TenantModel} (hspent : Spent tenant) :
    quotaOf tenant ≤ currentSpendUsd tenant ↔ Refused tenant := by
  unfold Spent at hspent
  unfold quotaOf currentSpendUsd Refused
  rw [le_div_iff₀ (by norm_num)]
  split_ifs with hzero
  · have hdefault : (50 : ℚ) * 100 ≤ tenant.costCents ↔ 5000 ≤ tenant.costCents := by
      norm_num
      exact_mod_cast Iff.rfl
    rw [hdefault]
    simp [hzero]
  · exact iff_of_true (by linarith) (Or.inl hzero)

theorem checkQuota_spent {tenants : List TenantModel} {tenant : TenantModel}
    (hrow : tenants.find? (fun t => decide (t.id = tenant.id)) = some tenant) (hlocal : tenant.id ≠ "local")
    (hspent : Spent tenant) :
    checkQuota tenants tenant.id = if Refused tenant then some (quotaExceeded tenant) else none := by
  unfold checkQuota
  rw [if_neg hlocal, hrow]
  simp only [quotaOf_le_iff hspent]

example : quotaExceeded ⟨"acme", 1234, 12⟩ =
    "Billing quota exceeded. Current spend: $12.34, Quota: $12.00" := by decide +kernel

end KernelRuntime.Billing
