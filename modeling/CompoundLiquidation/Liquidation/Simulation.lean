import CompoundLiquidation.Liquidation.Start
import CompoundLiquidation.Python.Collect
import CompoundLiquidation.Python.Sort
import CompoundLiquidation.Users.Interest
import Mathlib.Data.Prod.Lex
import Mathlib.Data.String.Basic

/-!
# Simulating liquidations

`liquidation_simulation` works out what a liquidator may repay of each debt of a user, and what is
seized of each collateral for it. The smaller debts are left out, those below four fifths of the
largest. A collateral that is too small caps the seizure, and the amount to repay is calculated back
from it. The pairs of one debt are sorted by an approximate profit.

Each loop collects what it finds at the elements, so that a simulation comes to its end exactly if
every single calculation does.
-/

namespace CompoundLiquidation

open Python

/-! ## The program -/

/-- `TREASURY_PERCENT`. -/
def treasuryPercent : ℤ := 50000000000000000

/-- `LiqPair` with its `seize_tokens`, which `liquidation_start` only logs. -/
structure LiqPairFull extends LiqPair where
  seizeTokens : ℤ
deriving DecidableEq

/-- `mul_scalar_truncate_reverse`. -/
def mulScalarTruncateReverse (ratio seizeAmount : ℤ) : Except Error ℤ :=
  floorDiv (seizeAmount * expScale) ratio

/-- `ratio`: what is seized for a unit repaid. -/
def seizeRatio (com : CometConfigs) (debtPrice price exchangeRate : ℤ) : Except Error ℤ :=
  let numerator := com.liqIncentive * debtPrice / expScale
  let denominator := price * exchangeRate / expScale
  floorDiv (numerator * expScale) denominator

/-- `seize_tokens` and `rejust_repay_amount`. -/
def seizeAndRepay (ratio collateralBalance actualRepayAmount : ℤ) : Except Error (ℤ × ℤ) :=
  let seizeTokens := mulScalarTruncate ratio actualRepayAmount
  if collateralBalance < seizeTokens then do
    let rejustRepayAmount ← mulScalarTruncateReverse ratio collateralBalance
    return (collateralBalance, rejustRepayAmount)
  else return (seizeTokens, actualRepayAmount)

/-- The pair of a debt and a collateral. -/
def simulatePair (com : CometConfigs) (debtCtoken : String) (debtPrice actualRepayAmount : ℤ)
    (ctokenAddr : String) (collateralBalance price exchangeRate : ℤ) :
    Except Error LiqPairFull := do
  let ratio ← seizeRatio com debtPrice price exchangeRate
  let (seizeTokens, rejustRepayAmount) ← seizeAndRepay ratio collateralBalance actualRepayAmount
  let treasury ← floorDiv (seizeTokens * treasuryPercent) com.liqIncentive
  let seizeTokens := seizeTokens - treasury
  let profitApprx :=
    (seizeTokens * exchangeRate / expScale * price - rejustRepayAmount * debtPrice) / expScale
  return { profit := profitApprx
           colCtoken := ctokenAddr
           debtCtoken := debtCtoken
           repayAmount := rejustRepayAmount
           seizeTokens := seizeTokens }

section Loops

variable (reserves : Dict String CompReserve) (ctk : Dict String CtokenInfos) (com : CometConfigs)

/-- The loop body over the collaterals. -/
def addCollateral (debtCtoken : String) (debtPrice actualRepayAmount : ℤ)
    (collaterals : List LiqPairFull) (entry : String × CompReserve) :
    Except Error (List LiqPairFull) := do
  let (ctokenAddr, data) := entry
  let collateralBalance := data.colAmount
  if collateralBalance > 0 then
    let infos ← ctk.item ctokenAddr
    let price ← infos.priceCurrent
    let pair ← simulatePair com debtCtoken debtPrice actualRepayAmount ctokenAddr collateralBalance
      price infos.risks.exchangeRate
    return collaterals ++ [pair]
  else return collaterals

/-- The loop body over the sorted debts. The factor `0.8` is the exact one. The product is one of
floats in the source and raises from `2 ^ 1024` on, which amounts, indices, factors and prices of
256 bits do not reach. -/
def addTarget (debtNormalizeMax : ℤ) (liquidationPair : Dict String (List LiqPairFull))
    (targetDebt : ℤ × String × ℤ) : Except Error (Dict String (List LiqPairFull)) := do
  let (debtNormalize, debtCtoken, actualRepayAmount) := targetDebt
  let infos ← ctk.item debtCtoken
  let debtPrice ← infos.priceCurrent
  if (debtNormalize : ℚ) < debtNormalizeMax * (4 / 5) then return liquidationPair
  let collaterals ←
    reserves.entries.foldlM (addCollateral ctk com debtCtoken debtPrice actualRepayAmount) []
  if collaterals.length ≠ 0 then
    return liquidationPair.set debtCtoken
      (sortedReverse (fun pair : LiqPairFull ↦ pair.profit) collaterals)
  else return liquidationPair

/-- The order of tuples. -/
def debtKey (debt : ℤ × String × ℤ) : ℤ ×ₗ String ×ₗ ℤ := toLex (debt.1, toLex debt.2)

/-- `liquidation_simulation`. -/
def liquidationSimulation : Except Error (Dict String (List LiqPairFull)) := do
  let debts ← liquidationDebts reserves ctk com
  match sortedReverse debtKey debts with
  | [] => return ∅
  | first :: rest => (first :: rest).foldlM (addTarget reserves ctk com first.1) ∅

end Loops

/-! ## Markets -/

/-- A market that the simulations know, with a price. -/
def Listed (ctk : Dict String CtokenInfos) (ctokenAddr : String) : Prop :=
  ∃ infos price, ctk.get? ctokenAddr = some infos ∧ infos.price = some price

instance (ctk : Dict String CtokenInfos) (ctokenAddr : String) :
    Decidable (Listed ctk ctokenAddr) :=
  decidable_of_iff (((ctk.get? ctokenAddr).bind (·.price)).isSome) <| by
    rw [Option.isSome_iff_exists]
    simp only [Option.bind_eq_some_iff, Listed, exists_and_left]
    exact ⟨fun ⟨price, infos, h⟩ ↦ ⟨infos, h.1, price, h.2⟩,
      fun ⟨infos, h, price, h'⟩ ↦ ⟨price, infos, h, h'⟩⟩

/-- The price of a market. -/
def priceOf (ctk : Dict String CtokenInfos) (ctokenAddr : String) : ℤ :=
  (((ctk.get? ctokenAddr).bind (·.price)).map CtokenPrice.priceCurrent).getD 0

/-- The risk parameters of a market. -/
def risksOf (ctk : Dict String CtokenInfos) (ctokenAddr : String) : CtokenRiskParams :=
  ((ctk.get? ctokenAddr).map (·.risks)).getD newCtokenRisks

theorem Listed.item {ctk : Dict String CtokenInfos} {ctokenAddr : String}
    (h : Listed ctk ctokenAddr) : ∃ infos, ctk.item ctokenAddr = .ok infos ∧
      infos.priceCurrent = .ok (priceOf ctk ctokenAddr) ∧ infos.risks = risksOf ctk ctokenAddr := by
  obtain ⟨infos, price, hinfos, hprice⟩ := h
  refine ⟨infos, Dict.item_eq_ok_iff.mpr hinfos, ?_, ?_⟩
  · rw [CtokenInfos.priceCurrent, priceOf, hinfos, Option.bind_some, hprice]
    rfl
  · rw [risksOf, hinfos]
    rfl

theorem listed_of_item {ctk : Dict String CtokenInfos} {ctokenAddr : String} {infos : CtokenInfos}
    {price : ℤ} (hitem : ctk.item ctokenAddr = .ok infos)
    (hprice : infos.priceCurrent = .ok price) :
    Listed ctk ctokenAddr ∧ priceOf ctk ctokenAddr = price ∧
      risksOf ctk ctokenAddr = infos.risks := by
  have hget := Dict.item_eq_ok_iff.mp hitem
  rcases hcurrent : infos.price with _ | current
  · rw [CtokenInfos.priceCurrent, hcurrent] at hprice
    cases hprice
  rw [CtokenInfos.priceCurrent, hcurrent] at hprice
  refine ⟨⟨infos, current, hget, hcurrent⟩, ?_, ?_⟩
  · rw [priceOf, hget, Option.bind_some, hcurrent]
    exact Except.ok.inj hprice
  · rw [risksOf, hget]
    rfl

section Amounts

variable (ctk : Dict String CtokenInfos) (com : CometConfigs)

/-- A debt with its interest. -/
def accruedDebt (entry : String × CompReserve) : ℤ :=
  (entry.2.debtAmount * (risksOf ctk entry.1).borrowIndex).fdiv entry.2.debtInterest

/-- What may be repaid of a debt at once. -/
def closeAmount (entry : String × CompReserve) : ℤ :=
  mulScalarTruncate com.clossFactor (accruedDebt ctk entry)

/-- The value of what may be repaid. -/
def closeValue (entry : String × CompReserve) : ℤ :=
  priceOf ctk entry.1 * closeAmount ctk com entry / expScale

/-- What a debt is in the loop. -/
def targetOf (entry : String × CompReserve) : ℤ × String × ℤ :=
  (closeValue ctk com entry, entry.1, closeAmount ctk com entry)

/-- The unit price of a collateral. -/
def unitPrice (ctokenAddr : String) : ℤ :=
  priceOf ctk ctokenAddr * (risksOf ctk ctokenAddr).exchangeRate / expScale

/-- The seize ratio of a debt and a collateral. -/
def ratioOf (debtCtoken ctokenAddr : String) : ℤ :=
  (com.liqIncentive * priceOf ctk debtCtoken / expScale * expScale).fdiv (unitPrice ctk ctokenAddr)

/-- What is seized for at most `repayAmount`, before the treasury takes its part. -/
def seizedOf (ratio colAmount repayAmount : ℤ) : ℤ :=
  if colAmount < mulScalarTruncate ratio repayAmount then colAmount
  else mulScalarTruncate ratio repayAmount

/-- What is repaid of at most `repayAmount`. -/
def repaidOf (ratio colAmount repayAmount : ℤ) : ℤ :=
  if colAmount < mulScalarTruncate ratio repayAmount then (colAmount * expScale).fdiv ratio
  else repayAmount

/-- The part of the liquidator. -/
def keptOf (seizeTokens : ℤ) : ℤ :=
  seizeTokens - (seizeTokens * treasuryPercent).fdiv com.liqIncentive

/-- The approximate profit. -/
def profitOf (debtCtoken ctokenAddr : String) (seizeTokens repayAmount : ℤ) : ℤ :=
  (seizeTokens * (risksOf ctk ctokenAddr).exchangeRate / expScale * priceOf ctk ctokenAddr
    - repayAmount * priceOf ctk debtCtoken) / expScale

/-- The pair of a debt, of which `repayAmount` may be repaid, and a collateral. -/
def pairOf (debtCtoken : String) (repayAmount : ℤ) (entry : String × CompReserve) : LiqPairFull :=
  let ratio := ratioOf ctk com debtCtoken entry.1
  let seizeTokens := keptOf com (seizedOf ratio entry.2.colAmount repayAmount)
  let repaid := repaidOf ratio entry.2.colAmount repayAmount
  { profit := profitOf ctk debtCtoken entry.1 seizeTokens repaid
    colCtoken := entry.1
    debtCtoken := debtCtoken
    repayAmount := repaid
    seizeTokens := seizeTokens }

/-- A pair can be calculated. -/
def PairSound (ctokenAddr : String) : Prop := unitPrice ctk ctokenAddr ≠ 0 ∧ com.liqIncentive ≠ 0

end Amounts

/-! ## Single calculations -/

section Single

variable {ctk : Dict String CtokenInfos} {com : CometConfigs}

theorem floorDiv_of_ne {a b : ℤ} (hb : b ≠ 0) : floorDiv a b = .ok (a.fdiv b) := if_neg hb

theorem seizeAndRepay_eq {ratio colAmount repayAmount : ℤ} (hcol : 0 < colAmount) :
    seizeAndRepay ratio colAmount repayAmount
      = .ok (seizedOf ratio colAmount repayAmount, repaidOf ratio colAmount repayAmount) := by
  rw [seizeAndRepay, seizedOf, repaidOf]
  by_cases hcap : colAmount < mulScalarTruncate ratio repayAmount
  · -- the cap is only reached with a ratio other than zero
    have hratio : ratio ≠ 0 := by
      rintro rfl
      rw [mulScalarTruncate, zero_mul, Int.zero_ediv] at hcap
      exact hcol.asymm hcap
    simp only [if_pos hcap, mulScalarTruncateReverse, floorDiv_of_ne hratio, ok_bind]
    rfl
  · simp only [if_neg hcap]
    rfl

section Pair

variable {debtCtoken : String} {repayAmount : ℤ} {entry : String × CompReserve}

variable (ctk com debtCtoken repayAmount entry) in
/-- `simulatePair` on the data of the markets. -/
def simulateEntry : Except Error LiqPairFull :=
  simulatePair com debtCtoken (priceOf ctk debtCtoken) repayAmount entry.1 entry.2.colAmount
    (priceOf ctk entry.1) (risksOf ctk entry.1).exchangeRate

theorem simulateEntry_of_sound (hcol : 0 < entry.2.colAmount) (hsound : PairSound ctk com entry.1) :
    simulateEntry ctk com debtCtoken repayAmount entry
      = .ok (pairOf ctk com debtCtoken repayAmount entry) := by
  have hunit := hsound.1
  rw [unitPrice] at hunit
  simp only [simulateEntry, simulatePair, seizeRatio, floorDiv_of_ne hunit, ok_bind,
    seizeAndRepay_eq hcol, floorDiv_of_ne hsound.2]
  rfl

/-- Only a collateral without a unit price, or no incentive, is divided by as zero. -/
theorem exists_simulateEntry_iff (hcol : 0 < entry.2.colAmount) :
    (∃ pair, simulateEntry ctk com debtCtoken repayAmount entry = .ok pair) ↔
      PairSound ctk com entry.1 := by
  refine ⟨fun ⟨pair, h⟩ ↦ ?_, fun hsound ↦ ⟨_, simulateEntry_of_sound hcol hsound⟩⟩
  rw [simulateEntry, simulatePair, seizeRatio] at h
  by_cases hunit : unitPrice ctk entry.1 = 0
  · rw [unitPrice] at hunit
    rw [floorDiv, if_pos hunit] at h
    cases h
  · refine ⟨hunit, fun hincentive ↦ ?_⟩
    rw [unitPrice] at hunit
    simp only [floorDiv_of_ne hunit, ok_bind, seizeAndRepay_eq hcol] at h
    rw [floorDiv, if_pos hincentive] at h
    cases h

end Pair

/-! ## The loops -/

variable (ctk com) in
/-- What the loop over the debts finds at an entry. -/
def targetDebt (entry : String × CompReserve) : Except Error (Option (ℤ × String × ℤ)) := do
  let infos ← ctk.item entry.1
  if entry.2.debtAmount > 0 then
    let debtBalance ← floorDiv (entry.2.debtAmount * infos.risks.borrowIndex) entry.2.debtInterest
    let debtMax := mulScalarTruncate com.clossFactor debtBalance
    let debtPrice ← infos.priceCurrent
    return some (debtPrice * debtMax / expScale, entry.1, debtMax)
  else return none

theorem liquidationDebts_eq (reserves : Dict String CompReserve) :
    liquidationDebts reserves ctk com = collect (targetDebt ctk com) reserves.entries := by
  have hstep : addTargetDebt ctk com = fun debts entry ↦
      (targetDebt ctk com entry).map fun found ↦ debts ++ found.toList := by
    funext debts entry
    obtain ⟨ctokenAddr, data⟩ := entry
    rw [addTargetDebt, targetDebt]
    rcases ctk.item ctokenAddr with e | infos
    · rfl
    simp only [ok_bind]
    by_cases hdebt : data.debtAmount > 0
    · rw [if_pos hdebt, if_pos hdebt]
      rcases floorDiv (data.debtAmount * infos.risks.borrowIndex) data.debtInterest with e | balance
      · rfl
      rcases hprice : infos.priceCurrent with e | price
      · rfl
      · rfl
    · rw [if_neg hdebt, if_neg hdebt]
      exact congrArg Except.ok (List.append_nil debts).symm
  rw [liquidationDebts, hstep, foldlM_append]
  rcases collect (targetDebt ctk com) reserves.entries with e | debts
  · rfl
  · rfl

/-- What a debt needs to be looked at. -/
structure DebtSound (ctk : Dict String CtokenInfos) (entry : String × CompReserve) : Prop where
  known : ∃ infos, ctk.item entry.1 = .ok infos
  listed : 0 < entry.2.debtAmount → Listed ctk entry.1
  indexed : 0 < entry.2.debtAmount → entry.2.debtInterest ≠ 0

theorem DebtSound.targetDebt_eq {entry : String × CompReserve} (h : DebtSound ctk entry) :
    targetDebt ctk com entry
      = .ok (if 0 < entry.2.debtAmount then some (targetOf ctk com entry) else none) := by
  rw [targetDebt]
  by_cases hdebt : 0 < entry.2.debtAmount
  · obtain ⟨infos, hitem, hprice, hrisks⟩ := (h.listed hdebt).item
    rw [hitem, ok_bind, if_pos hdebt, if_pos hdebt, floorDiv_of_ne (h.indexed hdebt), ok_bind,
      hprice, hrisks]
    rfl
  · obtain ⟨infos, hitem⟩ := h.known
    rw [hitem, ok_bind, if_neg hdebt, if_neg hdebt]
    rfl

theorem exists_targetDebt_iff {entry : String × CompReserve} :
    (∃ found, targetDebt ctk com entry = .ok found) ↔ DebtSound ctk entry := by
  refine ⟨fun ⟨found, h⟩ ↦ ?_, fun h ↦ ⟨_, h.targetDebt_eq⟩⟩
  rw [targetDebt] at h
  rcases hitem : ctk.item entry.1 with e | infos
  · rw [hitem] at h
    cases h
  rw [hitem, ok_bind] at h
  by_cases hdebt : entry.2.debtAmount > 0
  · rw [if_pos hdebt] at h
    by_cases hindex : entry.2.debtInterest = 0
    · rw [floorDiv, if_pos hindex] at h
      cases h
    rcases hprice : infos.priceCurrent with e | price
    · rw [floorDiv_of_ne hindex, ok_bind, hprice] at h
      cases h
    · exact ⟨⟨infos, hitem⟩, fun _ ↦ (listed_of_item hitem hprice).1, fun _ ↦ hindex⟩
  · exact ⟨⟨infos, hitem⟩, fun h ↦ absurd h hdebt, fun h ↦ absurd h hdebt⟩

variable (ctk com) in
/-- What the loop over the collaterals finds at an entry. -/
def collateralPair (debtCtoken : String) (debtPrice repayAmount : ℤ)
    (entry : String × CompReserve) : Except Error (Option LiqPairFull) := do
  if entry.2.colAmount > 0 then
    let infos ← ctk.item entry.1
    let price ← infos.priceCurrent
    let pair ← simulatePair com debtCtoken debtPrice repayAmount entry.1 entry.2.colAmount price
      infos.risks.exchangeRate
    return some pair
  else return none

theorem foldlM_addCollateral (debtCtoken : String) (debtPrice repayAmount : ℤ)
    (entries : List (String × CompReserve)) :
    entries.foldlM (addCollateral ctk com debtCtoken debtPrice repayAmount) []
      = collect (collateralPair ctk com debtCtoken debtPrice repayAmount) entries := by
  have hstep : addCollateral ctk com debtCtoken debtPrice repayAmount
      = fun collaterals entry ↦ (collateralPair ctk com debtCtoken debtPrice repayAmount entry).map
        fun found ↦ collaterals ++ found.toList := by
    funext collaterals entry
    obtain ⟨ctokenAddr, data⟩ := entry
    rw [addCollateral, collateralPair]
    by_cases hcol : data.colAmount > 0
    · simp only [if_pos hcol]
      rcases ctk.item ctokenAddr with e | infos
      · rfl
      simp only [ok_bind]
      rcases infos.priceCurrent with e | price
      · rfl
      simp only [ok_bind]
      rcases simulatePair com debtCtoken debtPrice repayAmount ctokenAddr data.colAmount price
        infos.risks.exchangeRate with e | pair
      · rfl
      · rfl
    · simp only [if_neg hcol]
      exact congrArg Except.ok (List.append_nil collaterals).symm
  rw [hstep, foldlM_append]
  rcases collect (collateralPair ctk com debtCtoken debtPrice repayAmount) entries with e | pairs
  · rfl
  · rfl

/-- What a collateral needs to be looked at. -/
structure CollateralSound (ctk : Dict String CtokenInfos) (com : CometConfigs)
    (entry : String × CompReserve) : Prop where
  listed : 0 < entry.2.colAmount → Listed ctk entry.1
  pairSound : 0 < entry.2.colAmount → PairSound ctk com entry.1

section Collateral

variable {debtCtoken : String} {repayAmount : ℤ} {entry : String × CompReserve}

theorem CollateralSound.collateralPair_eq (h : CollateralSound ctk com entry) :
    collateralPair ctk com debtCtoken (priceOf ctk debtCtoken) repayAmount entry
      = .ok (if 0 < entry.2.colAmount then some (pairOf ctk com debtCtoken repayAmount entry)
        else none) := by
  rw [collateralPair]
  by_cases hcol : 0 < entry.2.colAmount
  · obtain ⟨infos, hitem, hprice, hrisks⟩ := (h.listed hcol).item
    have hpair := @simulateEntry_of_sound ctk com debtCtoken repayAmount entry hcol
      (h.pairSound hcol)
    rw [simulateEntry] at hpair
    rw [if_pos hcol, if_pos hcol, hitem, ok_bind, hprice, ok_bind, hrisks, hpair]
    rfl
  · rw [if_neg hcol, if_neg hcol]
    rfl

theorem exists_collateralPair_iff :
    (∃ found, collateralPair ctk com debtCtoken (priceOf ctk debtCtoken) repayAmount entry
      = .ok found) ↔ CollateralSound ctk com entry := by
  refine ⟨fun ⟨found, h⟩ ↦ ?_, fun h ↦ ⟨_, h.collateralPair_eq⟩⟩
  rw [collateralPair] at h
  by_cases hcol : entry.2.colAmount > 0
  · rw [if_pos hcol] at h
    rcases hitem : ctk.item entry.1 with e | infos
    · rw [hitem] at h
      cases h
    rcases hprice : infos.priceCurrent with e | price
    · rw [hitem, ok_bind, hprice] at h
      cases h
    obtain ⟨hlisted, hcurrent, hrisks⟩ := listed_of_item hitem hprice
    rw [hitem, ok_bind, hprice, ok_bind, ← hcurrent, ← hrisks] at h
    have hpair : ∃ pair, simulateEntry ctk com debtCtoken repayAmount entry = .ok pair := by
      rcases hsimulated : simulateEntry ctk com debtCtoken repayAmount entry with e | pair
      · rw [simulateEntry] at hsimulated
        rw [hsimulated] at h
        cases h
      · exact ⟨pair, rfl⟩
    exact ⟨fun _ ↦ hlisted, fun _ ↦ (exists_simulateEntry_iff hcol).mp hpair⟩
  · exact ⟨fun h ↦ absurd h hcol, fun h ↦ absurd h hcol⟩

end Collateral

variable (ctk com) in
/-- What the loop over the sorted debts finds. -/
def targetPairs (reserves : Dict String CompReserve) (debtNormalizeMax : ℤ)
    (targetDebt : ℤ × String × ℤ) : Except Error (Option (String × List LiqPairFull)) := do
  let infos ← ctk.item targetDebt.2.1
  let debtPrice ← infos.priceCurrent
  if (targetDebt.1 : ℚ) < debtNormalizeMax * (4 / 5) then return none
  let collaterals ←
    collect (collateralPair ctk com targetDebt.2.1 debtPrice targetDebt.2.2) reserves.entries
  if collaterals.length ≠ 0 then
    return some (targetDebt.2.1, sortedReverse (fun pair : LiqPairFull ↦ pair.profit) collaterals)
  else return none

theorem foldlM_addTarget (reserves : Dict String CompReserve) (debtNormalizeMax : ℤ)
    (debts : List (ℤ × String × ℤ)) :
    debts.foldlM (addTarget reserves ctk com debtNormalizeMax) ∅
      = (collect (targetPairs ctk com reserves debtNormalizeMax) debts).map fun found ↦
        found.foldl (fun d e ↦ d.set e.1 e.2) ∅ := by
  have hstep : addTarget reserves ctk com debtNormalizeMax = fun liquidationPair target ↦
      (targetPairs ctk com reserves debtNormalizeMax target).map fun found ↦
        found.elim liquidationPair fun e ↦ liquidationPair.set e.1 e.2 := by
    funext liquidationPair target
    obtain ⟨debtNormalize, debtCtoken, actualRepayAmount⟩ := target
    rw [addTarget, targetPairs]
    rcases ctk.item debtCtoken with e | infos
    · rfl
    simp only [ok_bind, foldlM_addCollateral]
    rcases infos.priceCurrent with e | debtPrice
    · rfl
    simp only [ok_bind]
    by_cases hsmall : (debtNormalize : ℚ) < debtNormalizeMax * (4 / 5)
    · rw [if_pos hsmall, if_pos hsmall]
      rfl
    rw [if_neg hsmall, if_neg hsmall]
    rcases collect (collateralPair ctk com debtCtoken debtPrice actualRepayAmount)
      reserves.entries with e | collaterals
    · rfl
    simp only [ok_bind]
    by_cases hsome : collaterals.length ≠ 0
    · rw [if_pos hsome, if_pos hsome]
      rfl
    · rw [if_neg hsome, if_neg hsome]
      rfl
  rw [hstep, foldlM_set]

end Single

/-! ## The result -/

section Result

variable {reserves : Dict String CompReserve} {ctk : Dict String CtokenInfos} {com : CometConfigs}

/-- A debt of the loop is that of an entry. -/
theorem entry_of_targetDebt {entry : String × CompReserve} {target : ℤ × String × ℤ}
    (h : targetDebt ctk com entry = .ok (some target)) : target.2.1 = entry.1 := by
  rw [targetDebt] at h
  rcases hitem : ctk.item entry.1 with e | infos
  · rw [hitem] at h
    cases h
  rw [hitem, ok_bind] at h
  by_cases hdebt : entry.2.debtAmount > 0
  · rw [if_pos hdebt] at h
    rcases hbalance : floorDiv (entry.2.debtAmount * infos.risks.borrowIndex)
      entry.2.debtInterest with e | balance
    · rw [hbalance] at h
      cases h
    rcases hprice : infos.priceCurrent with e | price
    · rw [hbalance, hprice] at h
      cases h
    · rw [hbalance, hprice] at h
      rw [← Option.some_inj.mp (Except.ok.inj h)]
  · rw [if_neg hdebt] at h
    cases Except.ok.inj h

/-- What the loop finds at a debt. -/
theorem targetPairs_eq_some {debtNormalizeMax : ℤ} {target : ℤ × String × ℤ}
    {found : String × List LiqPairFull}
    (h : targetPairs ctk com reserves debtNormalizeMax target = .ok (some found)) :
    found.1 = target.2.1 ∧ ¬ (target.1 : ℚ) < debtNormalizeMax * (4 / 5) := by
  rw [targetPairs] at h
  rcases hitem : ctk.item target.2.1 with e | infos
  · rw [hitem] at h
    cases h
  rcases hprice : infos.priceCurrent with e | debtPrice
  · rw [hitem, ok_bind, hprice] at h
    cases h
  rw [hitem, ok_bind, hprice, ok_bind] at h
  by_cases hsmall : (target.1 : ℚ) < debtNormalizeMax * (4 / 5)
  · rw [if_pos hsmall] at h
    cases Except.ok.inj h
  rw [if_neg hsmall] at h
  rcases hcollaterals : collect (collateralPair ctk com target.2.1 debtPrice target.2.2)
    reserves.entries with e | collaterals
  · rw [hcollaterals] at h
    cases h
  rw [hcollaterals, ok_bind] at h
  by_cases hsome : collaterals.length ≠ 0
  · rw [if_pos hsome] at h
    rw [← Option.some_inj.mp (Except.ok.inj h)]
    exact ⟨rfl, hsmall⟩
  · rw [if_neg hsome] at h
    cases Except.ok.inj h

/-- The markets of the debts differ. -/
theorem nodup_debts {debts : List (ℤ × String × ℤ)}
    (h : collect (targetDebt ctk com) reserves.entries = .ok debts) :
    ((sortedReverse debtKey debts).map fun target ↦ target.2.1).Nodup := by
  have hsublist := sublist_of_collect (fun _ _ ↦ entry_of_targetDebt) h
  exact (perm_sortedReverse.map _).nodup_iff.mpr (reserves.nodup_keys.sublist hsublist)

/-- What a simulation returns: nothing without debts, and otherwise what the loop over the sorted
debts finds, in its order. -/
theorem liquidationSimulation_ok {d : Dict String (List LiqPairFull)}
    (h : liquidationSimulation reserves ctk com = .ok d) :
    ∃ debts, collect (targetDebt ctk com) reserves.entries = .ok debts ∧
      match sortedReverse debtKey debts with
      | [] => d = ∅
      | first :: rest =>
        collect (targetPairs ctk com reserves first.1) (first :: rest) = .ok d.entries := by
  rw [liquidationSimulation, liquidationDebts_eq] at h
  rcases hdebts : collect (targetDebt ctk com) reserves.entries with e | debts
  · rw [hdebts] at h
    cases h
  rw [hdebts, ok_bind] at h
  refine ⟨debts, rfl, ?_⟩
  have hnodup := nodup_debts hdebts
  rcases hsorted : sortedReverse debtKey debts with _ | ⟨first, rest⟩
  · rw [hsorted] at h
    exact (Except.ok.inj h).symm
  rw [hsorted] at h hnodup
  simp only [foldlM_addTarget] at h
  rcases hfound : collect (targetPairs ctk com reserves first.1) (first :: rest) with e | found
  · rw [hfound] at h
    cases h
  rw [hfound] at h
  have hkeys := sublist_of_collect (fun _ _ h ↦ (targetPairs_eq_some h).1) hfound
  have hentries := @Dict.entries_foldl_set String _ _ found ∅ (hnodup.sublist hkeys)
  simp only [← Except.ok.inj h, hentries]
  exact hfound

/-- A simulation comes to its end exactly if both of its loops do. -/
theorem exists_liquidationSimulation_iff_loops :
    (∃ d, liquidationSimulation reserves ctk com = .ok d) ↔
      ∃ debts, collect (targetDebt ctk com) reserves.entries = .ok debts ∧
        ∀ first rest, sortedReverse debtKey debts = first :: rest →
          ∃ found, collect (targetPairs ctk com reserves first.1) (first :: rest) = .ok found := by
  constructor
  · rintro ⟨d, h⟩
    obtain ⟨debts, hdebts, hd⟩ := liquidationSimulation_ok h
    refine ⟨debts, hdebts, fun first rest hsorted ↦ ?_⟩
    rw [hsorted] at hd
    exact ⟨d.entries, hd⟩
  · rintro ⟨debts, hdebts, h⟩
    rw [liquidationSimulation, liquidationDebts_eq, hdebts, ok_bind]
    rcases hsorted : sortedReverse debtKey debts with _ | ⟨first, rest⟩
    · exact ⟨∅, rfl⟩
    · obtain ⟨found, hfound⟩ := h first rest hsorted
      simp only [foldlM_addTarget, hfound]
      exact ⟨_, rfl⟩

variable (reserves ctk com) in
/-- The pairs of a debt in the order of the reserves. -/
def pairsFor (target : ℤ × String × ℤ) : List LiqPairFull :=
  reserves.entries.filterMap fun entry ↦
    if 0 < entry.2.colAmount then some (pairOf ctk com target.2.1 target.2.2 entry) else none

theorem mem_pairsFor_iff {target : ℤ × String × ℤ} {pair : LiqPairFull} :
    pair ∈ pairsFor reserves ctk com target ↔ ∃ entry ∈ reserves.entries,
      0 < entry.2.colAmount ∧ pair = pairOf ctk com target.2.1 target.2.2 entry := by
  rw [pairsFor, List.mem_filterMap]
  refine exists_congr fun entry ↦ and_congr_right fun _ ↦ ?_
  by_cases hcol : 0 < entry.2.colAmount
  · rw [if_pos hcol, Option.some_inj, eq_comm]
    exact (and_iff_right hcol).symm
  · rw [if_neg hcol]
    exact iff_of_false (Option.some_ne_none _).symm fun h ↦ hcol h.1

/-- A debt that is listed, when all collaterals are sound. -/
theorem targetPairs_eq {debtNormalizeMax : ℤ} {target : ℤ × String × ℤ}
    (hlisted : Listed ctk target.2.1)
    (hsound : ∀ entry ∈ reserves.entries, CollateralSound ctk com entry) :
    targetPairs ctk com reserves debtNormalizeMax target
      = .ok (if (target.1 : ℚ) < debtNormalizeMax * (4 / 5) ∨ pairsFor reserves ctk com target = []
        then none
        else some (target.2.1, sortedReverse (fun pair : LiqPairFull ↦ pair.profit)
          (pairsFor reserves ctk com target))) := by
  obtain ⟨infos, hitem, hprice, -⟩ := hlisted.item
  have hpairs : collect (collateralPair ctk com target.2.1 (priceOf ctk target.2.1) target.2.2)
      reserves.entries = .ok (pairsFor reserves ctk com target) :=
    collect_of_forall fun entry hentry ↦ (hsound entry hentry).collateralPair_eq
  rw [targetPairs, hitem, ok_bind, hprice, ok_bind, hpairs, ok_bind]
  by_cases hsmall : (target.1 : ℚ) < debtNormalizeMax * (4 / 5)
  · rw [if_pos hsmall, if_pos (.inl hsmall)]
    rfl
  by_cases hnone : pairsFor reserves ctk com target = []
  · rw [if_neg hsmall, hnone, if_neg (not_not.mpr List.length_nil), if_pos (.inr rfl)]
    rfl
  · rw [if_neg hsmall, if_pos (mt List.length_eq_zero_iff.mp hnone),
      if_neg (not_or.mpr ⟨hsmall, hnone⟩)]
    rfl

theorem exists_targetPairs_iff {debtNormalizeMax : ℤ} {target : ℤ × String × ℤ}
    (hlisted : Listed ctk target.2.1) :
    (∃ found, targetPairs ctk com reserves debtNormalizeMax target = .ok found) ↔
      (target.1 : ℚ) < debtNormalizeMax * (4 / 5) ∨
        ∀ entry ∈ reserves.entries, CollateralSound ctk com entry := by
  obtain ⟨infos, hitem, hprice, -⟩ := hlisted.item
  by_cases hsmall : (target.1 : ℚ) < debtNormalizeMax * (4 / 5)
  · refine iff_of_true ⟨none, ?_⟩ (.inl hsmall)
    rw [targetPairs, hitem, ok_bind, hprice, ok_bind, if_pos hsmall]
    rfl
  rw [or_iff_right hsmall]
  refine ⟨fun ⟨found, h⟩ entry hentry ↦ ?_, fun hsound ↦ ⟨_, targetPairs_eq hlisted hsound⟩⟩
  rw [targetPairs, hitem, ok_bind, hprice, ok_bind, if_neg hsmall] at h
  rcases hpairs : collect (collateralPair ctk com target.2.1 (priceOf ctk target.2.1) target.2.2)
    reserves.entries with e | pairs
  · rw [hpairs] at h
    cases h
  · exact exists_collateralPair_iff.mp (exists_collect_iff.mp ⟨pairs, hpairs⟩ entry hentry)

/-! ### Debts -/

/-- The debts of sound entries. -/
theorem mem_debts_iff (hsound : ∀ entry ∈ reserves.entries, DebtSound ctk entry)
    {debts : List (ℤ × String × ℤ)}
    (hdebts : collect (targetDebt ctk com) reserves.entries = .ok debts) {target : ℤ × String × ℤ} :
    target ∈ sortedReverse debtKey debts ↔
      ∃ entry ∈ reserves.entries, 0 < entry.2.debtAmount ∧ target = targetOf ctk com entry := by
  rw [mem_sortedReverse, mem_collect_iff hdebts]
  refine exists_congr fun entry ↦ and_congr_right fun hentry ↦ ?_
  rw [(hsound entry hentry).targetDebt_eq, Except.ok.injEq]
  by_cases hdebt : 0 < entry.2.debtAmount
  · rw [if_pos hdebt, Option.some_inj, eq_comm]
    exact (and_iff_right hdebt).symm
  · rw [if_neg hdebt]
    exact iff_of_false (Option.some_ne_none _).symm fun h ↦ hdebt h.1

/-- The first of the sorted debts has the largest value. -/
theorem le_first {debts : List (ℤ × String × ℤ)} {first : ℤ × String × ℤ}
    {rest : List (ℤ × String × ℤ)} (hsorted : sortedReverse debtKey debts = first :: rest)
    {target : ℤ × String × ℤ} (ht : target ∈ first :: rest) : target.1 ≤ first.1 := by
  have hmem := (@mem_sortedReverse _ _ _ debtKey debts target).mp (hsorted ▸ ht)
  have hle := le_of_sortedReverse_eq_cons hsorted hmem
  rw [debtKey, debtKey, Prod.Lex.le_iff] at hle
  exact hle.elim le_of_lt fun h ↦ h.1.le

/-- **When a simulation comes to its end.** The debts have to be sound, and the collaterals as soon
as the value of some debt is not negative. -/
theorem exists_liquidationSimulation_iff :
    (∃ d, liquidationSimulation reserves ctk com = .ok d) ↔
      (∀ entry ∈ reserves.entries, DebtSound ctk entry) ∧
      ((∃ entry ∈ reserves.entries, 0 < entry.2.debtAmount ∧ 0 ≤ closeValue ctk com entry) →
        ∀ entry ∈ reserves.entries, CollateralSound ctk com entry) := by
  rw [exists_liquidationSimulation_iff_loops]
  have hcollect : (∃ debts, collect (targetDebt ctk com) reserves.entries = .ok debts) ↔
      ∀ entry ∈ reserves.entries, DebtSound ctk entry := by
    rw [exists_collect_iff]
    exact forall₂_congr fun entry _ ↦ exists_targetDebt_iff
  have hlisted {debts : List (ℤ × String × ℤ)}
      (hsound : ∀ entry ∈ reserves.entries, DebtSound ctk entry)
      (hdebts : collect (targetDebt ctk com) reserves.entries = .ok debts) {target : ℤ × String × ℤ}
      (ht : target ∈ sortedReverse debtKey debts) : Listed ctk target.2.1 := by
    obtain ⟨entry, hentry, hdebt, rfl⟩ := (mem_debts_iff hsound hdebts).mp ht
    exact (hsound entry hentry).listed hdebt
  constructor
  · rintro ⟨debts, hdebts, hfound⟩
    have hsound := hcollect.mp ⟨debts, hdebts⟩
    refine ⟨hsound, fun ⟨entry, hentry, hdebt, hvalue⟩ ↦ ?_⟩
    have hmem := (mem_debts_iff hsound hdebts).mpr ⟨entry, hentry, hdebt, rfl⟩
    rcases hsorted : sortedReverse debtKey debts with _ | ⟨first, rest⟩
    · rw [hsorted] at hmem
      exact absurd hmem List.not_mem_nil
    -- the first debt is not left out
    have hfirst : (0 : ℚ) ≤ first.1 := by
      exact_mod_cast hvalue.trans (le_first hsorted (hsorted ▸ hmem))
    have htarget := exists_collect_iff.mp (hfound first rest hsorted) first List.mem_cons_self
    rw [exists_targetPairs_iff (hlisted hsound hdebts (hsorted ▸ List.mem_cons_self))] at htarget
    exact htarget.resolve_left (by linarith)
  · rintro ⟨hsound, hcol⟩
    obtain ⟨debts, hdebts⟩ := hcollect.mpr hsound
    refine ⟨debts, hdebts, fun first rest hsorted ↦ exists_collect_iff.mpr fun target ht ↦ ?_⟩
    rw [exists_targetPairs_iff (hlisted hsound hdebts (hsorted ▸ ht))]
    rcases lt_or_ge first.1 0 with hneg | hnonneg
    · -- with a negative largest value all debts are left out
      have hneg' : (first.1 : ℚ) < 0 := by exact_mod_cast hneg
      have hle : (target.1 : ℚ) ≤ first.1 := by exact_mod_cast le_first hsorted ht
      exact .inl (by linarith)
    · obtain ⟨entry, hentry, hdebt, rfl⟩ :=
        (mem_debts_iff hsound hdebts).mp (hsorted ▸ List.mem_cons_self)
      exact .inr (hcol ⟨entry, hentry, hdebt, hnonneg⟩)

variable (reserves ctk com) in
/-- A debt of at least four fifths of the value of any other. -/
def IsTarget (entry : String × CompReserve) : Prop :=
  0 < entry.2.debtAmount ∧ ∀ other ∈ reserves.entries, 0 < other.2.debtAmount →
    (closeValue ctk com other : ℚ) * (4 / 5) ≤ closeValue ctk com entry

/-- What a simulation returns for sound collaterals. -/
theorem mem_liquidationSimulation_iff {d : Dict String (List LiqPairFull)}
    (h : liquidationSimulation reserves ctk com = .ok d)
    (hcol : ∀ entry ∈ reserves.entries, CollateralSound ctk com entry) {debtCtoken : String}
    {pairs : List LiqPairFull} :
    (debtCtoken, pairs) ∈ d.entries ↔ ∃ entry ∈ reserves.entries,
      IsTarget reserves ctk com entry ∧ pairsFor reserves ctk com (targetOf ctk com entry) ≠ [] ∧
      debtCtoken = entry.1 ∧ pairs = sortedReverse (fun pair : LiqPairFull ↦ pair.profit)
        (pairsFor reserves ctk com (targetOf ctk com entry)) := by
  have hsound := (exists_liquidationSimulation_iff.mp ⟨d, h⟩).1
  obtain ⟨debts, hdebts, hd⟩ := liquidationSimulation_ok h
  have hmem := fun target ↦ @mem_debts_iff reserves ctk com hsound debts hdebts target
  rcases hsorted : sortedReverse debtKey debts with _ | ⟨first, rest⟩
  · rw [hsorted] at hd hmem
    rw [hd]
    refine iff_of_false List.not_mem_nil ?_
    rintro ⟨entry, hentry, htarget, -⟩
    exact absurd ((hmem _).mpr ⟨entry, hentry, htarget.1, rfl⟩) List.not_mem_nil
  rw [hsorted] at hd hmem
  have hfirst {entry : String × CompReserve} (hdebt : 0 < entry.2.debtAmount) :
      ¬ (closeValue ctk com entry : ℚ) < first.1 * (4 / 5) ↔ IsTarget reserves ctk com entry := by
    rw [not_lt, IsTarget, and_iff_right hdebt]
    constructor
    · intro hle other hother hother'
      have hother_le : (closeValue ctk com other : ℚ) ≤ first.1 := by
        exact_mod_cast le_first hsorted ((hmem _).mpr ⟨other, hother, hother', rfl⟩)
      linarith
    · intro hall
      obtain ⟨largest, hlargest, hlargest', rfl⟩ := (hmem _).mp List.mem_cons_self
      exact hall largest hlargest hlargest'
  have hfound {entry : String × CompReserve} (hentry : entry ∈ reserves.entries)
      (hdebt : 0 < entry.2.debtAmount) :
      targetPairs ctk com reserves first.1 (targetOf ctk com entry)
        = .ok (some (debtCtoken, pairs)) ↔
      IsTarget reserves ctk com entry ∧ pairsFor reserves ctk com (targetOf ctk com entry) ≠ [] ∧
        debtCtoken = entry.1 ∧ pairs = sortedReverse (fun pair : LiqPairFull ↦ pair.profit)
          (pairsFor reserves ctk com (targetOf ctk com entry)) := by
    rw [targetPairs_eq ((hsound entry hentry).listed hdebt) hcol, Except.ok.injEq, ← hfirst hdebt]
    by_cases hdrop : ((targetOf ctk com entry).1 : ℚ) < first.1 * (4 / 5) ∨
        pairsFor reserves ctk com (targetOf ctk com entry) = []
    · rw [if_pos hdrop]
      exact iff_of_false (Option.some_ne_none _).symm fun h ↦ hdrop.elim h.1 h.2.1
    · obtain ⟨hlarge, hsome⟩ := not_or.mp hdrop
      rw [if_neg hdrop, Option.some_inj, Prod.mk.injEq]
      exact ⟨fun h ↦ ⟨hlarge, hsome, h.1.symm, h.2.symm⟩, fun h ↦ ⟨h.2.2.1.symm, h.2.2.2.symm⟩⟩
  rw [mem_collect_iff hd]
  constructor
  · rintro ⟨target, ht, htarget⟩
    obtain ⟨entry, hentry, hdebt, rfl⟩ := (hmem target).mp ht
    exact ⟨entry, hentry, (hfound hentry hdebt).mp htarget⟩
  · rintro ⟨entry, hentry, htarget⟩
    exact ⟨_, (hmem _).mpr ⟨entry, hentry, htarget.1.1, rfl⟩,
      (hfound hentry htarget.1.1).mpr htarget⟩

end Result

/-! ### Two markets -/

/-- A market with a unit exchange rate. -/
def marketAt (price : ℤ) : CtokenInfos where
  risks := ⟨10 ^ 18, 0, 10 ^ 18, 0⟩
  balances := newCtokenBalances
  price := some (.init price 0)

/-- vUSDC and vUSDT at these prices. -/
def twoMarkets (price price' : ℤ) : Dict String CtokenInfos :=
  (Dict.set ∅ vUSDC (marketAt price)).set vUSDT (marketAt price')

/-- An incentive of a tenth, and half of a debt may be repaid. -/
def twoMarketsComet : CometConfigs :=
  ⟨11 * 10 ^ 17, 5 * 10 ^ 17, (Dict.set ∅ vUSDC (8 * 10 ^ 17)).set vUSDT (8 * 10 ^ 17), 0⟩

end CompoundLiquidation
