import CompoundLiquidation.Callbacks.Health
import CompoundLiquidation.Python.Collect
import CompoundLiquidation.Users.Accrual
import Mathlib.Algebra.Order.Field.Basic
import Mathlib.Tactic.GCongr
import Mathlib.Tactic.NormNum

/-!
# How a health factor depends on the markets

A signal changes the markets of a few tokens, and the program then looks only at the users that
`users_filtering` finds for these tokens. That is right because the calculation reads nothing but
the markets of the reserves a user has: where two maps agree on these, it does the same.

When the price of one token rises, both sums rise or stay. Each term goes through two or three floor
divisions, and every one of them keeps the order since what the price is multiplied with is not
negative. What the two sums say about their quotient needs the sign of the collateral sum: a larger
debt sum brings a negative quotient closer to zero. A market with a negative price, which a
confirmed event may set, is enough for that.
-/

namespace CompoundLiquidation

open Python

/-! ## Users without a changed market -/

/-- The maps differ at most in the markets of some tokens. -/
def AgreeOff (tokens : List String) (ctk ctk' : Dict String CtokenInfos) : Prop :=
  ∀ tokenAddr ∉ tokens, ctk.get? tokenAddr = ctk'.get? tokenAddr

/-- The reading of a market depends on its entry alone. -/
theorem readMarket_congr {ctk ctk' : Dict String CtokenInfos} {tokenAddr : String}
    (h : ctk.get? tokenAddr = ctk'.get? tokenAddr) (comet : CometConfigs) :
    readMarket ctk comet tokenAddr = readMarket ctk' comet tokenAddr := by
  rw [readMarket, readMarket, Dict.item, Dict.item, h]

/-- The sums depend on the markets of the reserves alone. -/
theorem healthSums_congr {ctk ctk' : Dict String CtokenInfos} {reserves : Dict String CompReserve}
    (h : ∀ tokenAddr ∈ reserves.keys, ctk.get? tokenAddr = ctk'.get? tokenAddr)
    (comet : CometConfigs) : healthSums ctk comet reserves = healthSums ctk' comet reserves := by
  refine foldlM_congr_of_forall (fun entry hentry sums ↦ ?_) (0, 0)
  rw [accrueReserve_eq, accrueReserve_eq,
    readMarket_congr (h entry.1 (List.mem_map_of_mem hentry)) comet]

/-- A user who is not found has no reserve in the tokens. -/
theorem not_mem_usersFiltering {sta : States} {tokensAddr : List String} {usr : String}
    {states : UserStates} (hstates : sta.usersStates.get? usr = some states)
    (h : usr ∉ sta.usersFiltering tokensAddr) :
    ∀ tokenAddr ∈ states.reserves.keys, tokenAddr ∉ tokensAddr := by
  intro tokenAddr hkey htoken
  refine h (Dict.mem_keys_iff.mpr ⟨states, ?_⟩)
  rw [Dict.get?_filter, hstates, Option.filter_eq_some_iff]
  refine ⟨rfl, List.any_eq_true.mpr ⟨tokenAddr, htoken, ?_⟩⟩
  obtain ⟨reserve, hreserve⟩ := Dict.mem_keys_iff.mp hkey
  rw [hreserve, Option.isSome_some]

/-- **The filter is sound.** A user it does not return has the same health factor and debt volume in
both maps. -/
theorem calculateHealthFactor_of_not_mem_usersFiltering {sta : States} {tokensAddr : List String}
    {ctk ctk' : Dict String CtokenInfos} (hagree : AgreeOff tokensAddr ctk ctk') {usr : String}
    {states : UserStates} (hstates : sta.usersStates.get? usr = some states)
    (h : usr ∉ sta.usersFiltering tokensAddr) (div : ℤ → ℤ → Except Error ℚ) (now : ℤ)
    (comet : CometConfigs) :
    calculateHealthFactor div now usr states.reserves states.vaiRepay ctk comet
      = calculateHealthFactor div now usr states.reserves states.vaiRepay ctk' comet := by
  have hmarkets : ∀ tokenAddr ∈ states.reserves.keys,
      ctk.get? tokenAddr = ctk'.get? tokenAddr :=
    fun tokenAddr hkey ↦ hagree tokenAddr (not_mem_usersFiltering hstates h tokenAddr hkey)
  rw [calculateHealthFactor_eq, calculateHealthFactor_eq, healthSums_congr hmarkets comet]

/-- Two markets with the given prices and indices of one. -/
def marketsAt (priceA priceB : ℤ) : Dict String CtokenInfos :=
  ((∅ : Dict String CtokenInfos).set "0xA"
    ⟨⟨expScale, 0, expScale, 0⟩, newCtokenBalances, some (.init priceA 0)⟩).set "0xB"
    ⟨⟨expScale, 0, expScale, 0⟩, newCtokenBalances, some (.init priceB 0)⟩

/-- Both tokens count in full. -/
def fullComet : CometConfigs :=
  ⟨expScale, expScale, ((∅ : Dict String ℤ).set "0xA" expScale).set "0xB" expScale, 0⟩

/-- A unit of the first token as collateral for a debt of a unit of the second. -/
def unitLoan : Dict String CompReserve :=
  ((∅ : Dict String CompReserve).set "0xA" ⟨expScale, 1, 0, 0⟩).set "0xB"
    ⟨0, 0, expScale, expScale⟩

/-- A user of the first market only, and one of both. -/
def twoUsersStates : States :=
  States.new (((∅ : Dict String UserStates).set "0xa"
    ⟨(∅ : Dict String CompReserve).set "0xA" ⟨expScale, 1, 0, 0⟩, newHealthFactor, 3⟩).set "0xb"
    ⟨unitLoan, newHealthFactor, 0⟩) (marketsAt 6 5) 0 ""

theorem marketsAt_agreeOff (priceA priceB priceB' : ℤ) :
    AgreeOff ["0xB"] (marketsAt priceA priceB) (marketsAt priceA priceB') := by
  intro tokenAddr hnot
  rw [List.mem_singleton] at hnot
  rw [marketsAt, marketsAt, Dict.get?_set_of_ne _ _ hnot, Dict.get?_set_of_ne _ _ hnot]

/-- The first user while the price of the second token goes from five to seven. -/
theorem calculateHealthFactor_of_not_mem_usersFiltering_seven :
    calculateHealthFactor trueDiv 100 "0xa"
          ((∅ : Dict String CompReserve).set "0xA" ⟨expScale, 1, 0, 0⟩) 3 (marketsAt 6 5) fullComet
      = calculateHealthFactor trueDiv 100 "0xa"
          ((∅ : Dict String CompReserve).set "0xA" ⟨expScale, 1, 0, 0⟩) 3 (marketsAt 6 7)
          fullComet :=
  @calculateHealthFactor_of_not_mem_usersFiltering twoUsersStates ["0xB"] (marketsAt 6 5)
    (marketsAt 6 7) (marketsAt_agreeOff 6 5 7) "0xa"
    ⟨(∅ : Dict String CompReserve).set "0xA" ⟨expScale, 1, 0, 0⟩, newHealthFactor, 3⟩ rfl
    (by decide) trueDiv 100 fullComet

/-! ## A price that rises -/

/-- The health factor with the exact quotient. -/
def exactHealth (now vaiRepay : ℤ) (sums : ℤ × ℤ) : HealthFactor where
  value := if sums.2 + vaiRepay ≤ 0 then 0 else (sums.1 : ℚ) / (sums.2 + vaiRepay : ℤ)
  debtVolume := sums.2 + vaiRepay
  lastUpdate := now

/-- Nothing is raised for an exact quotient. -/
theorem healthOfSums_exactDiv (now vaiRepay : ℤ) (sums : ℤ × ℤ) :
    healthOfSums exactDiv now vaiRepay sums = .ok (exactHealth now vaiRepay sums) := by
  rw [healthOfSums, exactHealth]
  split_ifs
  · rfl
  · rfl

/-- The health factor of a positive debt. -/
theorem exactHealth_value (now vaiRepay : ℤ) (sums : ℤ × ℤ)
    (h : 0 < (exactHealth now vaiRepay sums).debtVolume) :
    (exactHealth now vaiRepay sums).value
      = sums.1 / (exactHealth now vaiRepay sums).debtVolume :=
  if_neg (not_le.mpr h)

section Price

variable {reserve : CompReserve} {price price' : ℤ}

/-- The collateral of a reserve is worth no less at a higher price. -/
theorem CompReserve.collateralTerm_mono {factor exchangeRate : ℤ} (hrate : 0 ≤ exchangeRate)
    (h : price ≤ price') :
    reserve.collateralTerm factor exchangeRate price
      ≤ reserve.collateralTerm factor exchangeRate price' := by
  rw [collateralTerm, collateralTerm]
  split_ifs with hcol
  · obtain ⟨-, hfactor, hamount⟩ := hcol
    have hscaled : 0 ≤ factor * exchangeRate / expScale :=
      Int.ediv_nonneg (mul_nonneg hfactor.le hrate) expScale_pos.le
    have hvalue : factor * exchangeRate / expScale * price / expScale
        ≤ factor * exchangeRate / expScale * price' / expScale :=
      Int.ediv_le_ediv expScale_pos (mul_le_mul_of_nonneg_left h hscaled)
    exact Int.ediv_le_ediv expScale_pos (mul_le_mul_of_nonneg_right hvalue hamount.le)
  · exact le_rfl

/-- At a price that is not negative, neither is the collateral. -/
theorem CompReserve.collateralTerm_nonneg {factor exchangeRate : ℤ} (hrate : 0 ≤ exchangeRate)
    (h : 0 ≤ price) : 0 ≤ reserve.collateralTerm factor exchangeRate price := by
  have hzero : reserve.collateralTerm factor exchangeRate 0 = 0 := by
    rw [collateralTerm, mul_zero, Int.zero_ediv, zero_mul, Int.zero_ediv, ite_self]
  calc 0 = reserve.collateralTerm factor exchangeRate 0 := hzero.symm
    _ ≤ reserve.collateralTerm factor exchangeRate price := collateralTerm_mono hrate h

/-- The debt of a reserve is worth no less at a higher price. -/
theorem CompReserve.debtTerm_mono {borrowIndex : ℤ} (hindex : 0 ≤ borrowIndex)
    (hinterest : 0 ≤ reserve.debtInterest) (h : price ≤ price') :
    reserve.debtTerm borrowIndex price ≤ reserve.debtTerm borrowIndex price' := by
  rw [debtTerm, debtTerm]
  split_ifs with hdebt
  · obtain ⟨hamount, -⟩ := hdebt
    have haccrued : 0 ≤ (reserve.debtAmount * borrowIndex).fdiv reserve.debtInterest :=
      Int.fdiv_nonneg (mul_nonneg hamount.le hindex) hinterest
    exact Int.ediv_le_ediv expScale_pos (mul_le_mul_of_nonneg_left h haccrued)
  · exact le_rfl

end Price

/-- The maps differ at most in the price of a token, and the second price is no lower. -/
structure PriceRise (token : String) (ctk ctk' : Dict String CtokenInfos) : Prop where
  off : AgreeOff [token] ctk ctk'
  risen : ∃ (infos : CtokenInfos) (price price' : CtokenPrice),
    ctk.get? token = some { infos with price := some price } ∧
      ctk'.get? token = some { infos with price := some price' } ∧
      price.priceCurrent ≤ price'.priceCurrent

/-- The user owes none of the token. -/
def OwesNone (token : String) (reserves : Dict String CompReserve) : Prop :=
  ∀ reserve, reserves.get? token = some reserve → reserve.debtAmount ≤ 0

/-- The token does not count as collateral of the user. -/
def NotCollateral (token : String) (comet : CometConfigs)
    (reserves : Dict String CompReserve) : Prop :=
  ∀ reserve factor, reserves.get? token = some reserve →
    comet.ctokensCollateralFactor.get? token = some factor →
    reserve.isColLiq = 0 ∨ factor ≤ 0 ∨ reserve.colAmount ≤ 0

/-- Exchange rates and borrow indices are not negative. -/
def IndicesNonneg (ctk : Dict String CtokenInfos) : Prop :=
  ∀ token infos, ctk.get? token = some infos →
    0 ≤ infos.risks.exchangeRate ∧ 0 ≤ infos.risks.borrowIndex

/-- Prices are not negative. -/
def PricesNonneg (ctk : Dict String CtokenInfos) : Prop :=
  ∀ token infos price, ctk.get? token = some infos → infos.price = some price →
    0 ≤ price.priceCurrent

/-- The pairs of sums, or of terms, at the lower and at the higher price. -/
structure Reaction (owesNone notCollateral pricesNonneg : Prop) (low high : ℤ × ℤ) : Prop where
  collateral : low.1 ≤ high.1
  debt : low.2 ≤ high.2
  debt_eq : owesNone → low.2 = high.2
  collateral_eq : notCollateral → low.1 = high.1
  collateral_nonneg : pricesNonneg → 0 ≤ low.1

namespace Reaction

variable {owesNone notCollateral pricesNonneg : Prop}

theorem zero : Reaction owesNone notCollateral pricesNonneg (0, 0) (0, 0) :=
  ⟨le_rfl, le_rfl, fun _ ↦ rfl, fun _ ↦ rfl, fun _ ↦ le_rfl⟩

theorem add {low high low' high' : ℤ × ℤ}
    (h : Reaction owesNone notCollateral pricesNonneg low high)
    (h' : Reaction owesNone notCollateral pricesNonneg low' high') :
    Reaction owesNone notCollateral pricesNonneg (low + low') (high + high') where
  collateral := add_le_add h.collateral h'.collateral
  debt := add_le_add h.debt h'.debt
  debt_eq hnone := congrArg₂ (· + ·) (h.debt_eq hnone) (h'.debt_eq hnone)
  collateral_eq hnot := congrArg₂ (· + ·) (h.collateral_eq hnot) (h'.collateral_eq hnot)
  collateral_nonneg hprices :=
    add_nonneg (h.collateral_nonneg hprices) (h'.collateral_nonneg hprices)

end Reaction

section Sums

variable {token : String} {ctk ctk' : Dict String CtokenInfos} {comet : CometConfigs}
  {reserves : Dict String CompReserve}

/-- A market that can be read. -/
theorem readMarket_ok_iff {tokenAddr : String} {m : MarketReading} :
    readMarket ctk comet tokenAddr = .ok m ↔ ∃ infos price, ctk.get? tokenAddr = some infos ∧
      infos.price = some price ∧
      comet.ctokensCollateralFactor.get? tokenAddr = some m.collateralFactor ∧
      m.exchangeRate = infos.risks.exchangeRate ∧ m.borrowIndex = infos.risks.borrowIndex ∧
      m.price = price.priceCurrent := by
  rw [readMarket, Dict.item]
  rcases hinfos : ctk.get? tokenAddr with _ | infos
  · constructor
    · intro h
      cases h
    · rintro ⟨infos', price', hinfos', -⟩
      cases hinfos'
  rcases hprice : infos.price with _ | price
  · constructor
    · intro h
      rw [okOr, ok_bind, CtokenInfos.priceCurrent, hprice] at h
      cases h
    · rintro ⟨infos', price', hinfos', hprice', -⟩
      rw [← Option.some.inj hinfos', hprice] at hprice'
      cases hprice'
  rw [okOr, ok_bind, CtokenInfos.priceCurrent, hprice, Option.map_some, okOr, ok_bind,
    collateralFactor, Dict.item]
  rcases hfactor : comet.ctokensCollateralFactor.get? tokenAddr with _ | factor
  · constructor
    · intro h
      cases h
    · rintro ⟨infos', price', -, -, hfactor', -⟩
      cases hfactor'
  constructor
  · intro h
    obtain rfl := Except.ok.inj h
    exact ⟨infos, price, rfl, hprice, rfl, rfl, rfl, rfl⟩
  · rintro ⟨infos', price', hinfos', hprice', hfactor', hexchange, hborrow, hcurrent⟩
    obtain rfl := Option.some.inj hinfos'
    obtain rfl := Option.some.inj (hprice.symm.trans hprice')
    obtain rfl := Option.some.inj hfactor'
    rw [← hexchange, ← hborrow, ← hcurrent]
    rfl

/-- A market at the higher price: nothing else differs, and only the one token's price does. -/
theorem readMarket_of_priceRise (hrise : PriceRise token ctk ctk') {tokenAddr : String}
    {m : MarketReading} (h : readMarket ctk comet tokenAddr = .ok m) :
    ∃ price', readMarket ctk' comet tokenAddr = .ok { m with price := price' } ∧
      m.price ≤ price' ∧ (tokenAddr ≠ token → price' = m.price) := by
  by_cases htoken : tokenAddr = token
  · subst htoken
    obtain ⟨infos, low, high, hlow, hhigh, hle⟩ := hrise.risen
    obtain ⟨infos', price, hinfos', hprice, hfactor, hexchange, hborrow, hcurrent⟩ :=
      readMarket_ok_iff.mp h
    obtain rfl := Option.some.inj (hlow.symm.trans hinfos')
    obtain rfl := Option.some.inj hprice
    refine ⟨high.priceCurrent, readMarket_ok_iff.mpr
      ⟨_, high, hhigh, rfl, hfactor, hexchange, hborrow, rfl⟩, ?_, fun hne ↦ absurd rfl hne⟩
    rw [hcurrent]
    exact hle
  · have hsame := hrise.off tokenAddr (by rwa [List.mem_singleton])
    exact ⟨m.price, (readMarket_congr hsame comet).symm.trans h, le_rfl, fun _ ↦ rfl⟩

/-- The terms of one reserve. -/
theorem reaction_terms (hindices : IndicesNonneg ctk)
    (hinterest : ∀ tokenAddr reserve, reserves.get? tokenAddr = some reserve →
      0 ≤ reserve.debtInterest)
    {tokenAddr : String} {reserve : CompReserve} (hreserve : reserves.get? tokenAddr = some reserve)
    {m : MarketReading} (h : readMarket ctk comet tokenAddr = .ok m) {price' : ℤ}
    (hle : m.price ≤ price') (hother : tokenAddr ≠ token → price' = m.price) :
    Reaction (OwesNone token reserves) (NotCollateral token comet reserves) (PricesNonneg ctk)
      (reserve.terms m) (reserve.terms { m with price := price' }) := by
  obtain ⟨infos, price, hinfos, hprice, hfactor, hexchange, hborrow, hcurrent⟩ :=
    readMarket_ok_iff.mp h
  obtain ⟨hrate, hindex⟩ := hindices tokenAddr infos hinfos
  rw [← hexchange] at hrate
  rw [← hborrow] at hindex
  refine ⟨CompReserve.collateralTerm_mono hrate hle,
    CompReserve.debtTerm_mono hindex (hinterest tokenAddr reserve hreserve) hle, ?_, ?_, ?_⟩
  · intro hnone
    by_cases htoken : tokenAddr = token
    · have hdebt := hnone reserve (htoken ▸ hreserve)
      simp only [CompReserve.terms, CompReserve.debtTerm]
      rw [if_neg (by omega), if_neg (by omega)]
    · rw [hother htoken]
  · intro hnot
    by_cases htoken : tokenAddr = token
    · have hcol := hnot reserve m.collateralFactor (htoken ▸ hreserve) (htoken ▸ hfactor)
      simp only [CompReserve.terms, CompReserve.collateralTerm]
      rw [if_neg (by omega), if_neg (by omega)]
    · rw [hother htoken]
  · intro hprices
    have hnonneg : 0 ≤ m.price := hcurrent ▸ hprices tokenAddr infos price hinfos hprice
    exact CompReserve.collateralTerm_nonneg hrate hnonneg

/-- The sums over the reserves. -/
theorem healthSums_of_priceRise (hrise : PriceRise token ctk ctk') (hindices : IndicesNonneg ctk)
    (hinterest : ∀ tokenAddr reserve, reserves.get? tokenAddr = some reserve →
      0 ≤ reserve.debtInterest)
    {sums : ℤ × ℤ} (h : healthSums ctk comet reserves = .ok sums) :
    ∃ sums', healthSums ctk' comet reserves = .ok sums' ∧
      Reaction (OwesNone token reserves) (NotCollateral token comet reserves) (PricesNonneg ctk)
        sums sums' := by
  refine foldlM_related (fun entry hentry s t s' hst hs' ↦ ?_) Reaction.zero h
  obtain ⟨m, hm, rfl⟩ := accrueReserve_ok_iff.mp hs'
  obtain ⟨price', hm', hle, hother⟩ := readMarket_of_priceRise hrise hm
  exact ⟨_, accrueReserve_ok_iff.mpr ⟨_, hm', rfl⟩, hst.add
    (reaction_terms hindices hinterest (Dict.get?_eq_some_iff.mpr hentry) hm hle hother)⟩

/-- **What a price that rises does.** Both sums rise or stay. The health factor of a positive debt
does not fall if nothing is owed in the token, and does not rise if the token is no collateral and
the sum of the collateral is not negative. -/
theorem healthFactorOf_of_priceRise (hrise : PriceRise token ctk ctk')
    (hindices : IndicesNonneg ctk)
    (hinterest : ∀ tokenAddr reserve, reserves.get? tokenAddr = some reserve →
      0 ≤ reserve.debtInterest)
    {sums : ℤ × ℤ} (h : healthSums ctk comet reserves = .ok sums) (vaiRepay : ℤ) :
    ∃ sums', healthSums ctk' comet reserves = .ok sums' ∧
      sums.1 ≤ sums'.1 ∧ sums.2 + vaiRepay ≤ sums'.2 + vaiRepay ∧
      (PricesNonneg ctk → 0 ≤ sums.1) ∧
      ∀ now usr, ∃ hf hf',
        healthFactorOf exactDiv now usr reserves vaiRepay ctk comet = .ok hf ∧
        healthFactorOf exactDiv now usr reserves vaiRepay ctk' comet = .ok hf' ∧
        hf.debtVolume = sums.2 + vaiRepay ∧ hf'.debtVolume = sums'.2 + vaiRepay ∧
        (0 < hf.debtVolume → hf.value = sums.1 / hf.debtVolume) ∧
        (0 < hf'.debtVolume → hf'.value = sums'.1 / hf'.debtVolume) ∧
        (0 < hf.debtVolume → OwesNone token reserves → hf.value ≤ hf'.value) ∧
        (0 < hf.debtVolume → NotCollateral token comet reserves → 0 ≤ sums.1 →
          hf'.value ≤ hf.value) := by
  obtain ⟨sums', hsums', hreact⟩ := healthSums_of_priceRise hrise hindices hinterest h
  have hdebt : sums.2 + vaiRepay ≤ sums'.2 + vaiRepay := by
    have := hreact.debt
    omega
  refine ⟨sums', hsums', hreact.collateral, hdebt, hreact.collateral_nonneg, fun now usr ↦
    ⟨exactHealth now vaiRepay sums, exactHealth now vaiRepay sums', ?_, ?_, rfl, rfl,
      exactHealth_value now vaiRepay sums, exactHealth_value now vaiRepay sums', ?_, ?_⟩⟩
  · rw [healthFactorOf_eq, h, ok_bind, healthOfSums_exactDiv]
  · rw [healthFactorOf_eq, hsums', ok_bind, healthOfSums_exactDiv]
  · intro hpos hnone
    have hpos' : 0 < (exactHealth now vaiRepay sums').debtVolume := lt_of_lt_of_le hpos hdebt
    rw [exactHealth_value now vaiRepay sums hpos, exactHealth_value now vaiRepay sums' hpos']
    have hsame : (exactHealth now vaiRepay sums').debtVolume
        = (exactHealth now vaiRepay sums).debtVolume :=
      congrArg (· + vaiRepay) (hreact.debt_eq hnone).symm
    rw [hsame]
    have hcol : (sums.1 : ℚ) ≤ sums'.1 := by exact_mod_cast hreact.collateral
    exact div_le_div_of_nonneg_right hcol (by exact_mod_cast hpos.le)
  · intro hpos hnot hcol
    have hpos' : 0 < (exactHealth now vaiRepay sums').debtVolume := lt_of_lt_of_le hpos hdebt
    rw [exactHealth_value now vaiRepay sums hpos, exactHealth_value now vaiRepay sums' hpos',
      hreact.collateral_eq hnot]
    have hcol' : (0 : ℚ) ≤ sums'.1 := by exact_mod_cast hreact.collateral_eq hnot ▸ hcol
    exact div_le_div_of_nonneg_left hcol' (by exact_mod_cast hpos) (by exact_mod_cast hdebt)

end Sums

theorem marketsAt_priceRise (priceA : ℤ) {priceB priceB' : ℤ} (h : priceB ≤ priceB') :
    PriceRise "0xB" (marketsAt priceA priceB) (marketsAt priceA priceB') :=
  ⟨marketsAt_agreeOff priceA priceB priceB',
    ⟨⟨expScale, 0, expScale, 0⟩, newCtokenBalances, none⟩, .init priceB 0, .init priceB' 0,
    Dict.get?_set_self _ _ _, Dict.get?_set_self _ _ _, h⟩

theorem marketsAt_indicesNonneg (priceA priceB : ℤ) : IndicesNonneg (marketsAt priceA priceB) := by
  intro token infos h
  rw [Dict.get?_eq_some_iff] at h
  have hentries : (marketsAt priceA priceB).entries =
    [("0xA", ⟨⟨expScale, 0, expScale, 0⟩, newCtokenBalances, some (.init priceA 0)⟩),
      ("0xB", ⟨⟨expScale, 0, expScale, 0⟩, newCtokenBalances, some (.init priceB 0)⟩)] := rfl
  rw [hentries, List.mem_cons, List.mem_singleton] at h
  rcases h with h | h
  all_goals
    obtain ⟨-, rfl⟩ := Prod.mk.inj h
    exact ⟨expScale_pos.le, expScale_pos.le⟩

theorem unitLoan_debtInterest : ∀ tokenAddr reserve, unitLoan.get? tokenAddr = some reserve →
    0 ≤ reserve.debtInterest := by
  have hentries : ∀ entry ∈ unitLoan.entries, 0 ≤ entry.2.debtInterest := by decide
  exact fun tokenAddr reserve h ↦ hentries (tokenAddr, reserve) (Dict.get?_eq_some_iff.mp h)

/-- The debt becomes more expensive: the health factor of the loan falls from two to one. -/
theorem healthFactorOf_of_priceRise_twice :
    ∃ sums', healthSums (marketsAt 10 10) fullComet unitLoan = .ok sums' ∧
      (10 : ℤ) ≤ sums'.1 ∧ (5 : ℤ) + 0 ≤ sums'.2 + 0 ∧
      (PricesNonneg (marketsAt 10 5) → (0 : ℤ) ≤ 10) ∧
      ∀ now usr, ∃ hf hf',
        healthFactorOf exactDiv now usr unitLoan 0 (marketsAt 10 5) fullComet = .ok hf ∧
        healthFactorOf exactDiv now usr unitLoan 0 (marketsAt 10 10) fullComet = .ok hf' ∧
        hf.debtVolume = 5 + 0 ∧ hf'.debtVolume = sums'.2 + 0 ∧
        (0 < hf.debtVolume → hf.value = (10 : ℤ) / hf.debtVolume) ∧
        (0 < hf'.debtVolume → hf'.value = sums'.1 / hf'.debtVolume) ∧
        (0 < hf.debtVolume → OwesNone "0xB" unitLoan → hf.value ≤ hf'.value) ∧
        (0 < hf.debtVolume → NotCollateral "0xB" fullComet unitLoan → (0 : ℤ) ≤ 10 →
          hf'.value ≤ hf.value) :=
  healthFactorOf_of_priceRise (marketsAt_priceRise 10 (by decide : (5 : ℤ) ≤ 10))
    (marketsAt_indicesNonneg 10 5) unitLoan_debtInterest
    (by decide +kernel : healthSums (marketsAt 10 5) fullComet unitLoan = .ok (10, 5)) 0

/-- The same rise of the debt, while the collateral has the price `-10`: the health factor rises
from `-2` to `-1`. -/
theorem not_healthFactor_antitone :
    PriceRise "0xB" (marketsAt (-10) 5) (marketsAt (-10) 10) ∧
      IndicesNonneg (marketsAt (-10) 5) ∧ NotCollateral "0xB" fullComet unitLoan ∧
      healthFactorOf exactDiv 100 "0xb" unitLoan 0 (marketsAt (-10) 5) fullComet
        = .ok ⟨-2, 5, 100⟩ ∧
      healthFactorOf exactDiv 100 "0xb" unitLoan 0 (marketsAt (-10) 10) fullComet
        = .ok ⟨-1, 10, 100⟩ ∧
      ¬ (-1 : ℚ) ≤ -2 := by
  refine ⟨marketsAt_priceRise (-10) (by decide), marketsAt_indicesNonneg (-10) 5, ?_,
    by decide +kernel, by decide +kernel, by norm_num⟩
  rintro reserve factor hreserve -
  obtain rfl := Option.some.inj hreserve
  exact .inl rfl

end CompoundLiquidation
