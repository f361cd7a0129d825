import CompoundLiquidation.Chain.Config
import CompoundLiquidation.Signals.CtokenPrice

/-!
# Reserves and cToken data

The records of `configs/tokens.py`. Amounts are integers of either sign: a transfer subtracts from
its sender whether or not the balance is known.
-/

namespace CompoundLiquidation

/-- `CompReserve`: a user's position in one market. -/
structure CompReserve where
  colAmount : ℤ
  isColLiq : ℤ
  debtAmount : ℤ
  debtInterest : ℤ
deriving DecidableEq, Repr

/-- `new_reserve` with its defaults. -/
def newReserve : CompReserve := ⟨0, 0, 0, 0⟩

/-- `CtokenRiskParams`. -/
structure CtokenRiskParams where
  borrowIndex : ℤ
  reserveFactor : ℤ
  exchangeRate : ℤ
  protocolSeized : ℤ
deriving DecidableEq, Repr

/-- `new_ctoken_risks` with its defaults. -/
def newCtokenRisks : CtokenRiskParams := ⟨0, 0, 0, 0⟩

/-- `CtokenBalances`. -/
@[ext] structure CtokenBalances where
  totalReserve : ℤ
  totalBorrow : ℤ
  totalSupply : ℤ
deriving DecidableEq, Repr

/-- `new_ctoken_balances` with its defaults. -/
def newCtokenBalances : CtokenBalances := ⟨0, 0, 0⟩

/-- `CtokenInfos`. The price is `None` until the start-up code fills it in. -/
structure CtokenInfos where
  risks : CtokenRiskParams
  balances : CtokenBalances
  price : Option CtokenPrice := none
deriving DecidableEq, Repr

/-- `infos.price.price_current`. -/
def CtokenInfos.priceCurrent (infos : CtokenInfos) : Except Python.Error ℤ :=
  Python.okOr (infos.price.map CtokenPrice.priceCurrent) .attributeError

end CompoundLiquidation
