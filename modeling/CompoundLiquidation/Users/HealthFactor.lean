import CompoundLiquidation.Comet.Configs
import CompoundLiquidation.Python.Float
import CompoundLiquidation.Users.Tokens

/-!
# Health factors

`calculate_health_factor` sums the discounted collateral and the accrued debt of a user over the
user's reserves in dictionary order. Every division is Python's floor division, on exact integers,
except the last one: the health factor is the quotient of the two sums. Which quotient is left open:
the program has that of floats, and some results are about the exact one.
-/

namespace CompoundLiquidation

open Python

/-- `HealthFactor`. -/
structure HealthFactor where
  value : ℚ
  debtVolume : ℤ
  lastUpdate : ℤ
deriving DecidableEq

/-- `new_health_factor` with its defaults. -/
def newHealthFactor : HealthFactor := ⟨0, 0, 0⟩

/-- `UserStates`. -/
structure UserStates where
  reserves : Dict String CompReserve
  healthFactor : HealthFactor
  vaiRepay : ℤ
deriving DecidableEq

/-- `UserStates({}, new_health_factor())`. -/
def newUserStates : UserStates := ⟨∅, newHealthFactor, 0⟩

/-- `comet.ctokens_collateral_factor[token_addr]`. -/
def collateralFactor (comet : CometConfigs) (tokenAddr : String) : Except Error ℤ :=
  comet.ctokensCollateralFactor.item tokenAddr

/-- The loop body of `calculate_health_factor` on the sums of collateral and debt. -/
def accrueReserve (ctk : Dict String CtokenInfos) (comet : CometConfigs) (sums : ℤ × ℤ)
    (entry : String × CompReserve) : Except Error (ℤ × ℤ) := do
  let (tokenAddr, reserve) := entry
  let (sumCollateral, sumBorrowPlusEffects) := sums
  let infos ← ctk.item tokenAddr
  let price ← infos.priceCurrent
  let collateralFactor ← collateralFactor comet tokenAddr
  let exchangeRate := infos.risks.exchangeRate
  let sumCollateral :=
    if reserve.isColLiq ≠ 0 ∧ collateralFactor > 0 ∧ reserve.colAmount > 0 then
      sumCollateral +
        ((collateralFactor * exchangeRate / expScale) * price / expScale) * reserve.colAmount
          / expScale
    else sumCollateral
  let sumBorrowPlusEffects :=
    -- a debt without an interest index is reported and skipped
    if reserve.debtAmount > 0 ∧ reserve.debtInterest ≠ 0 then
      sumBorrowPlusEffects +
        (reserve.debtAmount * infos.risks.borrowIndex).fdiv reserve.debtInterest * price
          / expScale
    else sumBorrowPlusEffects
  return (sumCollateral, sumBorrowPlusEffects)

/-- `calculate_health_factor` when the clock shows `now`. The quotient of the program is
`trueDiv`. -/
def calculateHealthFactor (div : ℤ → ℤ → Except Error ℚ) (now : ℤ) (usr : String)
    (reserves : Dict String CompReserve) (vaiRepay : ℤ) (ctk : Dict String CtokenInfos)
    (comet : CometConfigs) : Except Error (String × HealthFactor × Dict String CompReserve) := do
  let (sumCollateral, sumBorrow) ← reserves.entries.foldlM (accrueReserve ctk comet) (0, 0)
  let sumBorrowPlusEffects := sumBorrow + vaiRepay
  let value ← if sumBorrowPlusEffects ≤ 0 then .ok 0 else div sumCollateral sumBorrowPlusEffects
  return (usr, ⟨value, sumBorrowPlusEffects, now⟩, reserves)

end CompoundLiquidation
