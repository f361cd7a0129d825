import CompoundLiquidation.Liquidation.Simulation
import Mathlib.Tactic.Positivity

/-!
# Simulated liquidations and the rules of the chain

The chain accepts a liquidation that repays at most the close factor of a debt, and that seizes no
more than there is. The simulation first works out what the repaid amount would seize, caps that by
the collateral and divides back by the seize ratio. All divisions round down, so that the amount
repaid never comes out above the one it started from, and what it seizes on chain never above the
collateral.
-/

namespace CompoundLiquidation

open Python

/-! ## Rounding -/

section Rounding

variable {ratio colAmount repayAmount : ℤ}

theorem mulScalarTruncate_nonneg (hratio : 0 ≤ ratio) (hrepay : 0 ≤ repayAmount) :
    0 ≤ mulScalarTruncate ratio repayAmount :=
  Int.ediv_nonneg (mul_nonneg hratio hrepay) expScale_pos.le

/-- A cap is only reached with a positive ratio. -/
theorem ratio_pos_of_cap (hratio : 0 ≤ ratio) (hcol : 0 < colAmount)
    (hcap : colAmount < mulScalarTruncate ratio repayAmount) : 0 < ratio := by
  refine lt_of_le_of_ne hratio ?_
  rintro rfl
  rw [mulScalarTruncate, zero_mul, Int.zero_ediv] at hcap
  exact hcol.asymm hcap

/-- The amount calculated back is not above the one that would seize too much. -/
theorem repaidOf_le (hratio : 0 ≤ ratio) (hcol : 0 < colAmount) :
    repaidOf ratio colAmount repayAmount ≤ repayAmount := by
  rw [repaidOf]
  split_ifs with hcap
  · have hpos := ratio_pos_of_cap hratio hcol hcap
    rw [Int.fdiv_eq_ediv_of_nonneg _ hpos.le]
    refine Int.ediv_le_of_le_mul hpos ?_
    rw [mul_comm repayAmount]
    exact (Int.le_ediv_iff_mul_le expScale_pos).mp hcap.le
  · exact le_rfl

/-- What is repaid seizes at most the collateral. -/
theorem mulScalarTruncate_repaidOf_le (hratio : 0 ≤ ratio) (hcol : 0 < colAmount) :
    mulScalarTruncate ratio (repaidOf ratio colAmount repayAmount) ≤ colAmount := by
  rw [repaidOf]
  split_ifs with hcap
  · have hpos := ratio_pos_of_cap hratio hcol hcap
    rw [Int.fdiv_eq_ediv_of_nonneg _ hpos.le, mulScalarTruncate]
    refine Int.ediv_le_of_le_mul expScale_pos ?_
    rw [mul_comm ratio]
    -- rounding down on the way back, the ratio cannot seize more than the cap
    exact Int.ediv_mul_le _ hpos.ne'
  · exact not_lt.mp hcap

theorem seizedOf_nonneg (hratio : 0 ≤ ratio) (hcol : 0 < colAmount) (hrepay : 0 ≤ repayAmount) :
    0 ≤ seizedOf ratio colAmount repayAmount := by
  rw [seizedOf]
  split_ifs
  · exact hcol.le
  · exact mulScalarTruncate_nonneg hratio hrepay

theorem seizedOf_le : seizedOf ratio colAmount repayAmount ≤ colAmount := by
  rw [seizedOf]
  split_ifs with hcap
  · exact le_rfl
  · exact not_lt.mp hcap

/-- The treasury takes a part of what is seized, at most all of it. -/
theorem keptOf_bounds {com : CometConfigs} (hincentive : treasuryPercent ≤ com.liqIncentive)
    {seizeTokens : ℤ} (hseize : 0 ≤ seizeTokens) :
    0 ≤ keptOf com seizeTokens ∧ keptOf com seizeTokens ≤ seizeTokens := by
  have htreasury : 0 < treasuryPercent := by decide
  have hpos : 0 < com.liqIncentive := htreasury.trans_le hincentive
  rw [keptOf, Int.fdiv_eq_ediv_of_nonneg _ hpos.le]
  have hpart : 0 ≤ seizeTokens * treasuryPercent / com.liqIncentive :=
    Int.ediv_nonneg (mul_nonneg hseize htreasury.le) hpos.le
  have hall : seizeTokens * treasuryPercent / com.liqIncentive ≤ seizeTokens :=
    Int.ediv_le_of_le_mul hpos (mul_le_mul_of_nonneg_left hincentive hseize)
  exact ⟨by linarith, by linarith⟩

end Rounding

/-! ## Admissible pairs -/

section Admissible

variable (reserves : Dict String CompReserve) (ctk : Dict String CtokenInfos) (com : CometConfigs)

/-- What the chain reports is positive, and the treasury does not take more than the incentive. -/
structure PositiveInput : Prop where
  listed : ∀ entry ∈ reserves.entries, Listed ctk entry.1
  price_pos : ∀ entry ∈ reserves.entries, 0 < priceOf ctk entry.1
  borrowIndex_pos : ∀ entry ∈ reserves.entries, 0 < (risksOf ctk entry.1).borrowIndex
  debtInterest_pos : ∀ entry ∈ reserves.entries, 0 < entry.2.debtAmount → 0 < entry.2.debtInterest
  unitPrice_pos : ∀ entry ∈ reserves.entries, 0 < entry.2.colAmount → 0 < unitPrice ctk entry.1
  clossFactor_pos : 0 < com.clossFactor
  treasuryPercent_le : treasuryPercent ≤ com.liqIncentive

/-- The pair is for the debt and the collateral, and the chain accepts it. -/
structure Admissible (debt col : String × CompReserve) (pair : LiqPairFull) : Prop where
  debtCtoken_eq : pair.debtCtoken = debt.1
  colCtoken_eq : pair.colCtoken = col.1
  repayAmount_le : pair.repayAmount ≤ mulScalarTruncate com.clossFactor (accruedDebt ctk debt)
  seized_le : mulScalarTruncate (ratioOf ctk com debt.1 col.1) pair.repayAmount ≤ col.2.colAmount
  seizeTokens_nonneg : 0 ≤ pair.seizeTokens
  seizeTokens_le : pair.seizeTokens ≤ col.2.colAmount

variable {reserves ctk com}

theorem PositiveInput.collateralSound (h : PositiveInput reserves ctk com) :
    ∀ entry ∈ reserves.entries, CollateralSound ctk com entry := by
  intro entry hentry
  refine ⟨fun _ ↦ h.listed entry hentry, fun hcol ↦ ⟨(h.unitPrice_pos entry hentry hcol).ne', ?_⟩⟩
  have htreasury : 0 < treasuryPercent := by decide
  exact (htreasury.trans_le h.treasuryPercent_le).ne'

theorem PositiveInput.debtSound (h : PositiveInput reserves ctk com) :
    ∀ entry ∈ reserves.entries, DebtSound ctk entry := by
  intro entry hentry
  obtain ⟨infos, hitem, -⟩ := (h.listed entry hentry).item
  exact ⟨⟨infos, hitem⟩, fun _ ↦ h.listed entry hentry,
    fun hdebt ↦ (h.debtInterest_pos entry hentry hdebt).ne'⟩

/-- A pair with a positive debt and a positive collateral is admissible. -/
theorem PositiveInput.admissible_pairOf (h : PositiveInput reserves ctk com)
    {debt col : String × CompReserve} (hdebt : debt ∈ reserves.entries)
    (hdebt_pos : 0 < debt.2.debtAmount) (hcol : col ∈ reserves.entries)
    (hcol_pos : 0 < col.2.colAmount) :
    Admissible ctk com debt col (pairOf ctk com debt.1 (closeAmount ctk com debt) col) := by
  have hincentive : 0 < com.liqIncentive :=
    lt_of_lt_of_le (by decide) h.treasuryPercent_le
  have hunit := h.unitPrice_pos col hcol hcol_pos
  have hratio : 0 ≤ ratioOf ctk com debt.1 col.1 := by
    rw [ratioOf, Int.fdiv_eq_ediv_of_nonneg _ hunit.le]
    refine Int.ediv_nonneg (mul_nonneg (Int.ediv_nonneg ?_ expScale_pos.le) expScale_pos.le)
      hunit.le
    exact mul_nonneg hincentive.le (h.price_pos debt hdebt).le
  have haccrued : 0 ≤ accruedDebt ctk debt := by
    have hindex := h.debtInterest_pos debt hdebt hdebt_pos
    rw [accruedDebt, Int.fdiv_eq_ediv_of_nonneg _ hindex.le]
    exact Int.ediv_nonneg (mul_nonneg hdebt_pos.le (h.borrowIndex_pos debt hdebt).le) hindex.le
  have hclose : 0 ≤ closeAmount ctk com debt :=
    mulScalarTruncate_nonneg h.clossFactor_pos.le haccrued
  -- what is seized lies between zero and the collateral, and so does what the treasury leaves
  have hkept := keptOf_bounds h.treasuryPercent_le
    (@seizedOf_nonneg (ratioOf ctk com debt.1 col.1) col.2.colAmount (closeAmount ctk com debt)
      hratio hcol_pos hclose)
  exact ⟨rfl, rfl, repaidOf_le hratio hcol_pos, mulScalarTruncate_repaidOf_le hratio hcol_pos,
    hkept.1, hkept.2.trans seizedOf_le⟩

/-- **Simulated liquidations are admissible.** On positive data a simulation comes to its end. Each
of its lists is sorted by profit and not empty, and all its pairs are for the debt of the list and
some positive collateral, and admissible. If there is a positive collateral, the debts with a list
are those of at least four fifths of the largest value. -/
theorem liquidationSimulation_admissible (h : PositiveInput reserves ctk com) :
    ∃ d, liquidationSimulation reserves ctk com = .ok d ∧
      (∀ debtCtoken pairs, d.get? debtCtoken = some pairs →
        pairs ≠ [] ∧ pairs.Pairwise (fun pair pair' ↦ pair'.profit ≤ pair.profit) ∧
        ∀ pair ∈ pairs, ∃ debt ∈ reserves.entries, ∃ col ∈ reserves.entries,
          debt.1 = debtCtoken ∧ 0 < debt.2.debtAmount ∧ 0 < col.2.colAmount ∧
          Admissible ctk com debt col pair) ∧
      ((∃ col ∈ reserves.entries, 0 < col.2.colAmount) →
        ∀ debtCtoken, debtCtoken ∈ d.keys ↔
          ∃ debt ∈ reserves.entries, debt.1 = debtCtoken ∧ IsTarget reserves ctk com debt) := by
  obtain ⟨d, hd⟩ := exists_liquidationSimulation_iff.mpr ⟨h.debtSound, fun _ ↦ h.collateralSound⟩
  have hmem := fun debtCtoken pairs ↦
    @mem_liquidationSimulation_iff reserves ctk com d hd h.collateralSound debtCtoken pairs
  refine ⟨d, hd, fun debtCtoken pairs hpairs ↦ ?_, fun ⟨col, hcol, hcol_pos⟩ debtCtoken ↦ ?_⟩
  · obtain ⟨debt, hdebt, htarget, hsome, rfl, rfl⟩ :=
      (hmem debtCtoken pairs).mp (Dict.get?_eq_some_iff.mp hpairs)
    refine ⟨fun hnil ↦ hsome (List.Perm.nil_eq ?_).symm, pairwise_sortedReverse,
      fun pair hpair ↦ ?_⟩
    · rw [← hnil]
      exact perm_sortedReverse
    · obtain ⟨col, hcol, hcol_pos, rfl⟩ := mem_pairsFor_iff.mp (mem_sortedReverse.mp hpair)
      exact ⟨debt, hdebt, col, hcol, rfl, htarget.1, hcol_pos,
        h.admissible_pairOf hdebt htarget.1 hcol hcol_pos⟩
  · rw [Dict.mem_keys_iff]
    simp only [Dict.get?_eq_some_iff, hmem]
    constructor
    · rintro ⟨pairs, debt, hdebt, htarget, -, rfl, -⟩
      exact ⟨debt, hdebt, rfl, htarget⟩
    · rintro ⟨debt, hdebt, rfl, htarget⟩
      refine ⟨_, debt, hdebt, htarget, fun hnil ↦ ?_, rfl, rfl⟩
      have hpair := (@mem_pairsFor_iff reserves ctk com (targetOf ctk com debt) _).mpr
        ⟨col, hcol, hcol_pos, rfl⟩
      rw [hnil] at hpair
      exact absurd hpair List.not_mem_nil

end Admissible

/-- A thousand units of vUSDC for a debt of as many units of vUSDT. -/
theorem liquidationSimulation_admissible_two :
    let reserves := (Dict.set ∅ vUSDC ⟨1000, 1, 0, 0⟩).set vUSDT ⟨0, 0, 1000, 10 ^ 18⟩
    let ctk := twoMarkets (10 ^ 18) (10 ^ 18)
    ∃ d, liquidationSimulation reserves ctk twoMarketsComet = .ok d ∧
      (∀ debtCtoken pairs, d.get? debtCtoken = some pairs →
        pairs ≠ [] ∧ pairs.Pairwise (fun pair pair' ↦ pair'.profit ≤ pair.profit) ∧
        ∀ pair ∈ pairs, ∃ debt ∈ reserves.entries, ∃ col ∈ reserves.entries,
          debt.1 = debtCtoken ∧ 0 < debt.2.debtAmount ∧ 0 < col.2.colAmount ∧
          Admissible ctk twoMarketsComet debt col pair) ∧
      d.keys = [vUSDT] ∧
      ∀ debtCtoken, debtCtoken ∈ d.keys ↔
        ∃ debt ∈ reserves.entries, debt.1 = debtCtoken ∧
          IsTarget reserves ctk twoMarketsComet debt := by
  intro reserves ctk
  have hpositive : PositiveInput reserves ctk twoMarketsComet := by
    refine ⟨?_, ?_, ?_, ?_, ?_, ?_, ?_⟩ <;> decide +kernel
  have hcollateral : ∃ col ∈ reserves.entries, 0 < col.2.colAmount := by decide +kernel
  have hkeys : (liquidationSimulation reserves ctk twoMarketsComet).map Dict.keys
      = .ok [vUSDT] := by decide +kernel
  obtain ⟨d, hd, hpairs, htargets⟩ := liquidationSimulation_admissible hpositive
  rw [hd] at hkeys
  exact ⟨d, hd, hpairs, Except.ok.inj hkeys, htargets hcollateral⟩

end CompoundLiquidation
