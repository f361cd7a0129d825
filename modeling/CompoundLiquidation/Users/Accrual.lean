import CompoundLiquidation.Users.HealthFactor
import Mathlib.Algebra.Group.Prod

/-!
# What a reserve counts for

One round of the loop in `calculate_health_factor` looks up the market of a reserve, its price and
its collateral factor, and adds one term to each sum. All that later modules ask about the loop is
about these terms: when a term is zero, and how it depends on the market.
-/

namespace CompoundLiquidation

open Python

namespace CompReserve

/-- What is added to `sum_collateral`. -/
def collateralTerm (reserve : CompReserve) (collateralFactor exchangeRate price : ℤ) : ℤ :=
  if reserve.isColLiq ≠ 0 ∧ collateralFactor > 0 ∧ reserve.colAmount > 0 then
    ((collateralFactor * exchangeRate / expScale) * price / expScale) * reserve.colAmount / expScale
  else 0

/-- What is added to `sum_borrow_plus_effects`. -/
def debtTerm (reserve : CompReserve) (borrowIndex price : ℤ) : ℤ :=
  if reserve.debtAmount > 0 ∧ reserve.debtInterest ≠ 0 then
    (reserve.debtAmount * borrowIndex).fdiv reserve.debtInterest * price / expScale
  else 0

end CompReserve

/-- Everything the loop reads of a market. -/
structure MarketReading where
  collateralFactor : ℤ
  exchangeRate : ℤ
  borrowIndex : ℤ
  price : ℤ

/-- The reading of a market. It raises when one of the lookups does. -/
def readMarket (ctk : Dict String CtokenInfos) (comet : CometConfigs) (tokenAddr : String) :
    Except Error MarketReading := do
  let infos ← ctk.item tokenAddr
  let price ← infos.priceCurrent
  let collateralFactor ← collateralFactor comet tokenAddr
  return ⟨collateralFactor, infos.risks.exchangeRate, infos.risks.borrowIndex, price⟩

/-- The terms of a reserve in a market. -/
def CompReserve.terms (reserve : CompReserve) (m : MarketReading) : ℤ × ℤ :=
  (reserve.collateralTerm m.collateralFactor m.exchangeRate m.price,
    reserve.debtTerm m.borrowIndex m.price)

section Accrual

variable {ctk : Dict String CtokenInfos} {comet : CometConfigs}

/-- **One round of the loop.** -/
theorem accrueReserve_eq (sums : ℤ × ℤ) (entry : String × CompReserve) :
    accrueReserve ctk comet sums entry
      = (readMarket ctk comet entry.1).map fun m ↦ sums + entry.2.terms m := by
  obtain ⟨tokenAddr, reserve⟩ := entry
  rw [accrueReserve, readMarket]
  rcases ctk.item tokenAddr with e | infos
  · rfl
  rw [ok_bind, ok_bind]
  rcases infos.priceCurrent with e | price
  · rfl
  rw [ok_bind, ok_bind]
  rcases collateralFactor comet tokenAddr with e | factor
  · rfl
  rw [ok_bind, ok_bind]
  refine congrArg Except.ok (Prod.ext ?_ ?_)
  · simp only [CompReserve.terms, CompReserve.collateralTerm, Prod.fst_add]
    split_ifs
    · rfl
    · exact (add_zero _).symm
  · simp only [CompReserve.terms, CompReserve.debtTerm, Prod.snd_add]
    split_ifs
    · rfl
    · exact (add_zero _).symm

theorem accrueReserve_ok_iff {sums sums' : ℤ × ℤ} {entry : String × CompReserve} :
    accrueReserve ctk comet sums entry = .ok sums' ↔
      ∃ m, readMarket ctk comet entry.1 = .ok m ∧ sums' = sums + entry.2.terms m := by
  rw [accrueReserve_eq]
  rcases readMarket ctk comet entry.1 with e | m
  · exact ⟨fun h ↦ (by cases h), fun ⟨_, h, _⟩ ↦ (by cases h)⟩
  · constructor
    · exact fun h ↦ ⟨m, rfl, (Except.ok.inj h).symm⟩
    · rintro ⟨m', hm', rfl⟩
      rw [← Except.ok.inj hm']
      rfl

/-- The integer sums of collateral and debt. -/
def healthSums (ctk : Dict String CtokenInfos) (comet : CometConfigs)
    (reserves : Dict String CompReserve) : Except Error (ℤ × ℤ) :=
  reserves.entries.foldlM (accrueReserve ctk comet) (0, 0)

/-- The health factor that two sums give. -/
def healthOfSums (div : ℤ → ℤ → Except Error ℚ) (now vaiRepay : ℤ) (sums : ℤ × ℤ) :
    Except Error HealthFactor := do
  let value ← if sums.2 + vaiRepay ≤ 0 then .ok 0 else div sums.1 (sums.2 + vaiRepay)
  return ⟨value, sums.2 + vaiRepay, now⟩

/-- **The calculation.** -/
theorem calculateHealthFactor_eq (div : ℤ → ℤ → Except Error ℚ) (now : ℤ) (usr : String)
    (reserves : Dict String CompReserve) (vaiRepay : ℤ) :
    calculateHealthFactor div now usr reserves vaiRepay ctk comet
      = (healthSums ctk comet reserves >>= healthOfSums div now vaiRepay).map fun hf ↦
          (usr, hf, reserves) := by
  rw [calculateHealthFactor, healthSums]
  rcases reserves.entries.foldlM (accrueReserve ctk comet) (0, 0) with
    e | ⟨sumCollateral, sumBorrow⟩
  · rfl
  rw [ok_bind, ok_bind, healthOfSums]
  dsimp only
  split_ifs
  · rfl
  · rcases div sumCollateral (sumBorrow + vaiRepay) with e | value
    · rfl
    · rfl

/-- The user and the reserves are returned with the health factor. -/
theorem eq_of_calculateHealthFactor {div : ℤ → ℤ → Except Error ℚ} {now : ℤ} {usr : String}
    {reserves : Dict String CompReserve} {vaiRepay : ℤ}
    {result : String × HealthFactor × Dict String CompReserve}
    (h : calculateHealthFactor div now usr reserves vaiRepay ctk comet = .ok result) :
    result = (usr, result.2.1, reserves) := by
  rw [calculateHealthFactor_eq] at h
  rcases hhf : healthSums ctk comet reserves >>= healthOfSums div now vaiRepay with e | hf
  · rw [hhf] at h
    cases h
  · rw [hhf] at h
    rw [← Except.ok.inj h]

/-- The health factor alone. -/
def healthFactorOf (div : ℤ → ℤ → Except Error ℚ) (now : ℤ) (usr : String)
    (reserves : Dict String CompReserve) (vaiRepay : ℤ) (ctk : Dict String CtokenInfos)
    (comet : CometConfigs) : Except Error HealthFactor :=
  (calculateHealthFactor div now usr reserves vaiRepay ctk comet).map fun result ↦ result.2.1

theorem healthFactorOf_eq (div : ℤ → ℤ → Except Error ℚ) (now : ℤ) (usr : String)
    (reserves : Dict String CompReserve) (vaiRepay : ℤ) :
    healthFactorOf div now usr reserves vaiRepay ctk comet
      = healthSums ctk comet reserves >>= healthOfSums div now vaiRepay := by
  rw [healthFactorOf, calculateHealthFactor_eq]
  rcases healthSums ctk comet reserves >>= healthOfSums div now vaiRepay with e | hf
  · rfl
  · rfl

end Accrual

end CompoundLiquidation
