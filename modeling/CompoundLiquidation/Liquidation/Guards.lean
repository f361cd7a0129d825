import CompoundLiquidation.Liquidation.Simulation

/-!
# What the health factor lets through

`calculate_health_factor` and `liquidation_simulation` read the same records. The former divides
by the interest index of a debt too, but leaves a debt out whose index is zero; it multiplies by
prices only. The latter divides by the index of every debt and by the unit price of every
collateral, without a guard. A user with such a record has a health factor, and the simulation
raises.
-/

namespace CompoundLiquidation

open Python

section Guards

variable {reserves : Dict String CompReserve} {ctk : Dict String CtokenInfos} {com : CometConfigs}

/-- A health factor needs a price in every market of the user. -/
theorem listed_of_calculateHealthFactor {now vaiRepay : ℤ} {usr : String}
    {result : String × HealthFactor × Dict String CompReserve}
    (h : calculateHealthFactor trueDiv now usr reserves vaiRepay ctk com = .ok result) :
    ∀ entry ∈ reserves.entries, Listed ctk entry.1 := by
  intro entry hentry
  rw [calculateHealthFactor] at h
  rcases hsums : reserves.entries.foldlM (accrueReserve ctk com) (0, 0) with e | sums
  · rw [hsums] at h
    cases h
  -- the loop has looked at the entry, and the first thing it reads is the price
  obtain ⟨before, after, hstep⟩ := exists_step_of_foldlM hsums hentry
  obtain ⟨tokenAddr, reserve⟩ := entry
  rw [accrueReserve] at hstep
  rcases hitem : ctk.item tokenAddr with e | infos
  · rw [hitem] at hstep
    cases hstep
  rcases hprice : infos.priceCurrent with e | price
  · rw [hitem, ok_bind, hprice] at hstep
    cases hstep
  · exact (listed_of_item hitem hprice).1

variable (reserves ctk com) in
/-- Every debt has an index. If the value of some debt is not negative, there is an incentive, and
every positive collateral has a unit price. -/
structure Divisible : Prop where
  indexed : ∀ entry ∈ reserves.entries, 0 < entry.2.debtAmount → entry.2.debtInterest ≠ 0
  priced : (∃ entry ∈ reserves.entries, 0 < entry.2.debtAmount ∧ 0 ≤ closeValue ctk com entry) →
    ∀ entry ∈ reserves.entries, 0 < entry.2.colAmount →
      unitPrice ctk entry.1 ≠ 0 ∧ com.liqIncentive ≠ 0

/-- **What the simulation accepts.** For a user whose health factor can be calculated, the
simulation comes to its end if and only if nothing it divides by is zero. -/
theorem exists_liquidationSimulation_iff_divisible {now vaiRepay : ℤ} {usr : String}
    {result : String × HealthFactor × Dict String CompReserve}
    (h : calculateHealthFactor trueDiv now usr reserves vaiRepay ctk com = .ok result) :
    (∃ d, liquidationSimulation reserves ctk com = .ok d) ↔ Divisible reserves ctk com := by
  have hlisted := listed_of_calculateHealthFactor h
  rw [exists_liquidationSimulation_iff]
  constructor
  · rintro ⟨hdebts, hcollaterals⟩
    exact ⟨fun entry hentry ↦ (hdebts entry hentry).indexed,
      fun hvalue entry hentry ↦ (hcollaterals hvalue entry hentry).pairSound⟩
  · rintro ⟨hindexed, hpriced⟩
    refine ⟨fun entry hentry ↦ ?_, fun hvalue entry hentry ↦ ?_⟩
    · obtain ⟨infos, hitem, -⟩ := (hlisted entry hentry).item
      exact ⟨⟨infos, hitem⟩, fun _ ↦ hlisted entry hentry, hindexed entry hentry⟩
    · exact ⟨fun _ ↦ hlisted entry hentry, hpriced hvalue entry hentry⟩

end Guards

/-! ### Users at a health factor of four fifths -/

/-- A debt without an index and a collateral without a price. Either user has the health factor, and
for either the simulation divides by zero. -/
theorem not_exists_liquidationSimulation :
    (calculateHealthFactor trueDiv 0 ""
        ((Dict.set ∅ vUSDC ⟨1000, 1, 500, 0⟩).set vUSDT ⟨0, 0, 1000, 10 ^ 18⟩) 0
        (twoMarkets (10 ^ 18) (10 ^ 18)) twoMarketsComet
      = .ok ("", ⟨toFloat (4 / 5), 1000, 0⟩,
        (Dict.set ∅ vUSDC ⟨1000, 1, 500, 0⟩).set vUSDT ⟨0, 0, 1000, 10 ^ 18⟩) ∧
      liquidationSimulation ((Dict.set ∅ vUSDC ⟨1000, 1, 500, 0⟩).set vUSDT ⟨0, 0, 1000, 10 ^ 18⟩)
        (twoMarkets (10 ^ 18) (10 ^ 18)) twoMarketsComet = .error .zeroDivisionError) ∧
    calculateHealthFactor trueDiv 0 ""
        ((Dict.set ∅ vUSDC ⟨1000, 1, 1000, 10 ^ 18⟩).set vUSDT ⟨5, 1, 0, 0⟩) 0
        (twoMarkets (10 ^ 18) 0) twoMarketsComet
      = .ok ("", ⟨toFloat (4 / 5), 1000, 0⟩,
        (Dict.set ∅ vUSDC ⟨1000, 1, 1000, 10 ^ 18⟩).set vUSDT ⟨5, 1, 0, 0⟩) ∧
      liquidationSimulation ((Dict.set ∅ vUSDC ⟨1000, 1, 1000, 10 ^ 18⟩).set vUSDT ⟨5, 1, 0, 0⟩)
        (twoMarkets (10 ^ 18) 0) twoMarketsComet = .error .zeroDivisionError := by
  decide +kernel

theorem exists_liquidationSimulation_iff_divisible_two : ∃ d,
    liquidationSimulation ((Dict.set ∅ vUSDC ⟨1000, 1, 0, 0⟩).set vUSDT ⟨0, 0, 1000, 10 ^ 18⟩)
      (twoMarkets (10 ^ 18) (10 ^ 18)) twoMarketsComet = .ok d := by
  have hhealth : calculateHealthFactor trueDiv 0 ""
      ((Dict.set ∅ vUSDC ⟨1000, 1, 0, 0⟩).set vUSDT ⟨0, 0, 1000, 10 ^ 18⟩) 0
      (twoMarkets (10 ^ 18) (10 ^ 18)) twoMarketsComet
      = .ok ("", ⟨toFloat (4 / 5), 1000, 0⟩,
        (Dict.set ∅ vUSDC ⟨1000, 1, 0, 0⟩).set vUSDT ⟨0, 0, 1000, 10 ^ 18⟩) := by
    decide +kernel
  refine (exists_liquidationSimulation_iff_divisible hhealth).mpr ⟨?_, fun _ ↦ ?_⟩
  · decide +kernel
  · decide +kernel

end CompoundLiquidation
