import CompoundLiquidation.Liquidation.Start
import CompoundLiquidation.Python.Decimal

/-!
# Scaling prices and back

An aggregator reports a price with its own count of decimals, and a protocol wants it with another
one. `price_scale` writes zeros behind the text of the price, `price_scale_inverse` divides by
powers of ten again. Each class of signals takes the counts of zeros from its two parameters, cut
off at zero.

`SignalsCompV2` divides by what it has multiplied with. `SignalsCompVenues` works out both counts of
zeros too, but divides by the decimals of the feed instead of the second one, and the two agree for
feeds with nine decimals.
-/

namespace CompoundLiquidation

open Python

/-! ## The program -/

/-- The two divisions of the program: of integers, and of a float by an integer. -/
structure Division where
  ofInts : ℤ → ℤ → Except Error ℚ
  ofFloat : ℚ → ℤ → Except Error ℚ

/-- Division of floats. -/
def Division.rounded : Division where
  ofInts := trueDiv
  ofFloat x b := .ok (toFloat (x / toFloat b))

/-- Division of rational numbers. -/
def Division.exact : Division where
  ofInts a b := if b = 0 then .error .zeroDivisionError else .ok (a / b)
  ofFloat x b := if b = 0 then .error .zeroDivisionError else .ok (x / b)

/-- `SignalsCompV2.price_scale`. -/
def SignalsCompV2.priceScale (price baseUnits repMultiplier : ℤ) : String :=
  let delta := (30 + repMultiplier - baseUnits * 2).toNat
  toString price ++ zfill "" delta

/-- `SignalsCompV2.price_scale_inverse`. -/
def SignalsCompV2.priceScaleInverse (div : Division) (price baseUnits repMultiplier : ℤ) :
    Except Error ℚ :=
  let delta := (30 + repMultiplier - baseUnits * 2).toNat
  div.ofInts price (10 ^ delta)

/-- `SignalsCompVenues.price_scale`. -/
def SignalsCompVenues.priceScale (price underlyingDecimals : ℤ) (feedDecimals : ℕ) : String :=
  let deltaUnderlying := (18 - underlyingDecimals).toNat
  let deltaFeed := (18 - (feedDecimals : ℤ)).toNat
  toString price ++ zfill "" deltaUnderlying ++ zfill "" deltaFeed

/-- `SignalsCompVenues.price_scale_inverse`. It does not use `delta_feed`. -/
def SignalsCompVenues.priceScaleInverse (div : Division) (price underlyingDecimals : ℤ)
    (feedDecimals : ℕ) : Except Error ℚ := do
  let deltaUnderlying := (18 - underlyingDecimals).toNat
  let scaled ← div.ofInts price (10 ^ deltaUnderlying)
  div.ofFloat scaled (10 ^ feedDecimals)

/-- The two classes of signals. -/
inductive SignalsClass where
  | compV2
  | compVenues
deriving DecidableEq

namespace SignalsClass

/-- `price_scale` on `gen_oracle_params`. -/
def priceScale (cls : SignalsClass) (price : ℤ) (feedDecimals : ℕ) (cfg : CtokenConfigs) : String :=
  match cls with
  | compV2 => SignalsCompV2.priceScale price cfg.baseUnits cfg.reporterMultiplier
  | compVenues => SignalsCompVenues.priceScale price cfg.underlyingDecimals feedDecimals

/-- `price_scale_inverse` on `gen_oracle_params`. -/
def priceScaleInverse (cls : SignalsClass) (div : Division) (price : ℤ) (feedDecimals : ℕ)
    (cfg : CtokenConfigs) : Except Error ℚ :=
  match cls with
  | compV2 => SignalsCompV2.priceScaleInverse div price cfg.baseUnits cfg.reporterMultiplier
  | compVenues =>
    SignalsCompVenues.priceScaleInverse div price cfg.underlyingDecimals feedDecimals

/-- `get_oracle_price`. -/
def getOraclePrice (cls : SignalsClass) (price : ℤ) (feedDecimals : ℕ) (cfg : CtokenConfigs) :
    Except Error ℤ :=
  match int10 (cls.priceScale price feedDecimals cfg) with
  | none => .error .valueError
  | some scaled => .ok scaled

end SignalsClass

/-- The price of gas is scaled back in floats. -/
theorem priceScaleInverse_ethereum (price : ℤ) (feedDecimals : ℕ) (cfg : CtokenConfigs) :
    priceScaleInverse .ethereum .v2 price feedDecimals cfg
      = SignalsClass.compV2.priceScaleInverse .rounded price feedDecimals cfg := rfl

theorem priceScaleInverse_bsc (price : ℤ) (feedDecimals : ℕ) (cfg : CtokenConfigs) :
    priceScaleInverse .bsc .venus price feedDecimals cfg
      = SignalsClass.compVenues.priceScaleInverse .rounded price feedDecimals cfg := by
  simp only [priceScaleInverse, SignalsClass.priceScaleInverse, SignalsCompVenues.priceScaleInverse,
    Division.rounded]
  push_cast
  rfl

/-! ## Scaling -/

/-- The count of zeros that a class writes. -/
def SignalsClass.zeros (cls : SignalsClass) (feedDecimals : ℕ) (cfg : CtokenConfigs) : ℕ :=
  match cls with
  | compV2 => (30 + cfg.reporterMultiplier - cfg.baseUnits * 2).toNat
  | compVenues => (18 - cfg.underlyingDecimals).toNat + (18 - (feedDecimals : ℤ)).toNat

private theorem zfill_empty (k : ℕ) : zfill "" k = String.ofList (List.replicate k '0') := by
  rw [zfill]
  simp [zfillChars]

/-- A scaled price is the price times a power of ten. -/
theorem SignalsClass.getOraclePrice_eq (cls : SignalsClass) (price : ℤ) (feedDecimals : ℕ)
    (cfg : CtokenConfigs) :
    cls.getOraclePrice price feedDecimals cfg = .ok (price * 10 ^ cls.zeros feedDecimals cfg) := by
  have htext : cls.priceScale price feedDecimals cfg
      = toString price ++ String.ofList (List.replicate (cls.zeros feedDecimals cfg) '0') := by
    cases cls with
    | compV2 => rw [priceScale, SignalsCompV2.priceScale, zfill_empty, zeros]
    | compVenues =>
      rw [priceScale, SignalsCompVenues.priceScale, zfill_empty, zfill_empty, zeros,
        String.append_assoc, ← String.ofList_append, List.replicate_append_replicate]
  rw [getOraclePrice, htext, int10_append_zeros]

theorem pow_ten_ne_zero (k : ℕ) : (10 ^ k : ℤ) ≠ 0 := pow_ne_zero k (by decide)

theorem SignalsCompV2.priceScaleInverse_exact (price baseUnits repMultiplier : ℤ) :
    priceScaleInverse .exact price baseUnits repMultiplier
      = .ok (price / 10 ^ (30 + repMultiplier - baseUnits * 2).toNat) := by
  simp only [priceScaleInverse, Division.exact, if_neg (pow_ten_ne_zero _)]
  push_cast
  rfl

theorem SignalsCompVenues.priceScaleInverse_exact (price underlyingDecimals : ℤ)
    (feedDecimals : ℕ) :
    priceScaleInverse .exact price underlyingDecimals feedDecimals
      = .ok (price / 10 ^ (18 - underlyingDecimals).toNat / 10 ^ feedDecimals) := by
  simp only [priceScaleInverse, Division.exact, if_neg (pow_ten_ne_zero _), ok_bind]
  push_cast
  rfl

/-- **Scaling back.** The inverse of a class gives back every price that the class has scaled if the
class is `SignalsCompV2`, and otherwise exactly the price zero and the prices with nine decimals. -/
theorem priceScaleInverse_getOraclePrice_iff (cls : SignalsClass) (price : ℤ) (feedDecimals : ℕ)
    (cfg : CtokenConfigs) :
    (∃ scaled, cls.getOraclePrice price feedDecimals cfg = .ok scaled ∧
      cls.priceScaleInverse .exact scaled feedDecimals cfg = .ok (price : ℚ)) ↔
      cls = .compV2 ∨ price = 0 ∨ feedDecimals = 9 := by
  simp only [cls.getOraclePrice_eq, Except.ok.injEq, exists_eq_left']
  have hpow (k : ℕ) : (10 ^ k : ℚ) ≠ 0 := pow_ne_zero k (by norm_num)
  cases cls with
  | compV2 =>
    refine iff_of_true ?_ (.inl rfl)
    rw [SignalsClass.priceScaleInverse, SignalsCompV2.priceScaleInverse_exact, SignalsClass.zeros]
    push_cast
    rw [mul_div_assoc, div_self (hpow _), mul_one]
  | compVenues =>
    simp only [reduceCtorEq, false_or]
    rw [SignalsClass.priceScaleInverse, SignalsCompVenues.priceScaleInverse_exact,
      SignalsClass.zeros, Except.ok.injEq]
    push_cast
    -- the zeros of the underlying token cancel, those of the feed need not
    rw [pow_add, mul_comm (10 ^ _ : ℚ), ← mul_assoc, mul_div_assoc, div_self (hpow _), mul_one,
      div_eq_iff (hpow _), mul_eq_mul_left_iff, Int.cast_eq_zero, or_comm]
    refine or_congr_right ?_
    rw [pow_right_inj₀ (by norm_num) (by norm_num)]
    omega

/-- A price of one with eight decimals comes back as a hundred. -/
theorem not_priceScaleInverse_getOraclePrice :
    ¬ ∃ scaled, SignalsClass.compVenues.getOraclePrice 1 8 ⟨18, 0, 0⟩ = .ok scaled ∧
      SignalsClass.compVenues.priceScaleInverse .exact scaled 8 ⟨18, 0, 0⟩ = .ok 1 := by
  rintro ⟨scaled, hscaled, hback⟩
  have hprice : SignalsClass.compVenues.getOraclePrice 1 8 ⟨18, 0, 0⟩ = .ok (10 ^ 10) := by
    decide +kernel
  have hhundred : SignalsClass.compVenues.priceScaleInverse .exact (10 ^ 10) 8 ⟨18, 0, 0⟩
      = .ok 100 := by
    decide +kernel
  rw [hprice, Except.ok.injEq] at hscaled
  rw [← hscaled, hhundred, Except.ok.injEq] at hback
  exact absurd hback (by decide)

end CompoundLiquidation
