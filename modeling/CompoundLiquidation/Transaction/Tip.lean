import CompoundLiquidation.Liquidation.Start
import Mathlib.Algebra.Order.Field.Basic
import Mathlib.Tactic.Linarith
import Mathlib.Tactic.Ring

/-!
# The tip of a bundle

`BnB48Sender.x` turns half of the profits into a gas price for a transfer to itself, the tip that
the validators look at. The cap on the cost is meant to leave a transfer the account can pay for:
the price is a cost divided by 21000, and the transfer has a gas limit of 22000. But the factor is
on the wrong side. The balance is multiplied with 22000 / 21000 where it had to be divided by it, so
that a tip at the cap costs more than the balance by the square of this factor.

The sender calculates in floats (`BnB48Sender.mevGasPrice`). Here the rounding is a parameter, and
the results are about the exact calculation.
-/

namespace CompoundLiquidation

open Python

/-! ## Building the tip -/

/-- The transaction of `create_self_transfer` before it is signed, for the account with this address
and nonce. -/
def createSelfTransfer (gasFee : ℚ) (address : String) (nonce : ℤ) : TxParams :=
  { (createType0Tx (truncate gasFee)).1 with toAddr := address, nonce := nonce }

/-- The most a transaction can cost in gas. -/
def TxParams.maxGasCost (tx : TxParams) : ℤ :=
  match tx.fees with
  | .type0 gasPrice => tx.gas * gasPrice
  | .type2 maxFeePerGas _ => tx.gas * maxFeePerGas

namespace BnB48Sender

variable (s : BnB48Sender)

/-- `mev_gas_price`, with the results of the operations rounded. -/
def mevGasPriceWith (round : ℚ → ℚ) (profits : ℚ) : ℚ :=
  let bnbCost := round (round (1 / 2 * profits) / s.bnbPrice)
  let minBalance := round (s.balance * 22000 / 21000)
  round (min bnbCost minBalance / 21000)

/-- The tip that `x` goes on with; `none` where the gas price is too low. -/
def tipWith (round : ℚ → ℚ) (address : String) (profits : ℚ) : Except Error (Option TxParams) :=
  if s.bnbPrice = 0 then .error .zeroDivisionError
  else if s.mevGasPriceWith round profits < s.bnbGasPrice then .ok none
  else .ok (some (createSelfTransfer (s.mevGasPriceWith round profits) address s.nonce))

/-- The tip, with exact divisions. -/
def tip (address : String) (profits : ℚ) : Except Error (Option TxParams) :=
  s.tipWith id address profits

/-- **The tip of the code.** With floats it is the one of `x`: without a tip the call returns, and
behind the tip it uses the nonce. -/
theorem run_x_eq (address : String) (profits : ℚ) (txs : List BundleTx) (expire : ℤ) :
    (x profits txs expire).run s =
      let handed := s.onSender (Sender.submit (.x profits txs expire))
      match s.tipWith toFloat address profits with
      | .error e => (.error e, handed)
      | .ok none => (.ok (), handed)
      | .ok (some _) => (.error .typeError, handed.nextNonce) := by
  have hgasPrice : (s.onSender (Sender.submit (.x profits txs expire))).mevGasPrice profits
      = s.mevGasPriceWith toFloat profits := rfl
  have hprice : (s.onSender (Sender.submit (.x profits txs expire))).bnbPrice = s.bnbPrice := rfl
  have hlow : (s.onSender (Sender.submit (.x profits txs expire))).bnbGasPrice
      = s.bnbGasPrice := rfl
  rw [x, Proc.run_bind, Proc.run_modify]
  simp only [Proc.run_bind, Proc.run_read, hgasPrice, hprice, hlow]
  by_cases hzero : s.bnbPrice = 0
  · rw [if_pos hzero, tipWith, if_pos hzero]
    rfl
  by_cases hrefused : s.mevGasPriceWith toFloat profits < s.bnbGasPrice
  · rw [if_neg hzero, tipWith, if_neg hzero, if_pos hrefused]
    simp only [if_pos hrefused]
    rfl
  · rw [if_neg hzero, tipWith, if_neg hzero, if_neg hrefused]
    simp only [if_neg hrefused]
    rfl

/-! ## Whether the account can pay for it -/

/-- A gas price with which the transfer costs more than the balance, or that is refused. -/
def tooMuch : ℤ := max s.bnbGasPrice (s.balance / 22000 + 1)

variable {s}

/-- The exact gas price, and when it stays below a bound. -/
theorem mevGasPriceWith_id_lt_iff {profits : ℚ} (hprice : 0 < s.bnbPrice) (bound : ℤ) :
    s.mevGasPriceWith id profits < bound ↔
      profits < 42000 * s.bnbPrice * bound ∨ 22 * s.balance < 441000 * bound := by
  have hcost : 1 / 2 * profits / s.bnbPrice < bound * 21000
      ↔ profits < 42000 * s.bnbPrice * bound := by
    rw [div_lt_iff₀ hprice]
    constructor
    · intro h
      linarith
    · intro h
      linarith
  have hbalance : (s.balance : ℚ) * 22000 / 21000 < bound * 21000
      ↔ 22 * s.balance < 441000 * bound := by
    rw [div_lt_iff₀ (by norm_num), ← @Int.cast_lt ℚ]
    push_cast
    constructor
    · intro h
      linarith
    · intro h
      linarith
  rw [mevGasPriceWith, id, id, id, id, div_lt_iff₀ (by norm_num), min_lt_iff, hcost, hbalance]

/-- With amounts that are not negative, the gas price is not negative. -/
theorem mevGasPriceWith_id_nonneg {profits : ℚ} (hprofits : 0 ≤ profits) (hprice : 0 < s.bnbPrice)
    (hbalance : 0 ≤ s.balance) : 0 ≤ s.mevGasPriceWith id profits := by
  have hcost : 0 ≤ 1 / 2 * profits / s.bnbPrice :=
    div_nonneg (mul_nonneg (by norm_num) hprofits) hprice.le
  have hcap : (0 : ℚ) ≤ s.balance * 22000 / 21000 :=
    div_nonneg (mul_nonneg (by exact_mod_cast hbalance) (by norm_num)) (by norm_num)
  exact div_nonneg (le_min hcost hcap) (by norm_num)

/-- What the transfer costs at a gas price. -/
theorem maxGasCost_createSelfTransfer_le_iff {gasFee : ℚ} (h : 0 ≤ gasFee) (address : String)
    (nonce balance : ℤ) :
    (createSelfTransfer gasFee address nonce).maxGasCost ≤ balance ↔
      gasFee < (balance / 22000 + 1 : ℤ) := by
  have hcost : (createSelfTransfer gasFee address nonce).maxGasCost = 22000 * ⌊gasFee⌋ :=
    congrArg (22000 * ·) (if_pos h)
  rw [hcost, ← Int.floor_lt, Int.lt_add_one_iff, Int.le_ediv_iff_mul_le (by decide), mul_comm]

/-- **When the tip can be paid.** Half of the profits do not reach the first gas price that is too
much, or the cap does not. -/
theorem tip_affordable_iff {profits : ℚ} (hprofits : 0 ≤ profits) (hprice : 0 < s.bnbPrice)
    (hbalance : 0 ≤ s.balance) (address : String) :
    (∀ tx, s.tip address profits = .ok (some tx) → tx.maxGasCost ≤ s.balance) ↔
      profits < 42000 * s.bnbPrice * s.tooMuch ∨ 22 * s.balance < 441000 * s.tooMuch := by
  have hnonneg := mevGasPriceWith_id_nonneg hprofits hprice hbalance
  have haffordable := maxGasCost_createSelfTransfer_le_iff hnonneg address s.nonce s.balance
  rw [← mevGasPriceWith_id_lt_iff hprice, tooMuch, Int.cast_max, lt_max_iff, tip, tipWith,
    if_neg hprice.ne']
  by_cases hrefused : s.mevGasPriceWith id profits < s.bnbGasPrice
  · rw [if_pos hrefused]
    exact iff_of_true (fun tx htx ↦ by cases htx) (.inl hrefused)
  · rw [if_neg hrefused, or_iff_right hrefused, ← haffordable]
    constructor
    · exact fun h ↦ h _ rfl
    · rintro h tx htx
      obtain rfl := Option.some.inj (Except.ok.inj htx)
      exact h

end BnB48Sender

/-- A sender with a balance of one BNB. -/
def oneBnbSender : BnB48Sender :=
  { Sender.init with nonce := 0, balance := 10 ^ 18, bnbPrice := 300, bnbGasPrice := 5 * 10 ^ 9 }

/-- Half of a profit of 400 is two thirds of a BNB. -/
theorem tip_affordable_iff_oneBnb : ∃ tx,
    oneBnbSender.tip "0xa" (400 * 10 ^ 18) = .ok (some tx) ∧ tx.maxGasCost ≤ 10 ^ 18 := by
  have htip : oneBnbSender.tip "0xa" (400 * 10 ^ 18) = .ok (some (createSelfTransfer
      (oneBnbSender.mevGasPriceWith id (400 * 10 ^ 18)) "0xa" 0)) := by decide +kernel
  refine ⟨_, htip, (BnB48Sender.tip_affordable_iff (by norm_num) (by norm_num [oneBnbSender])
    (by norm_num [oneBnbSender]) "0xa").mpr (.inl ?_) _ htip⟩
  norm_num [oneBnbSender, BnB48Sender.tooMuch]

/-- Half of a profit of 1000 is more than the account has, and the tip is capped at more than the
account has. -/
theorem not_tip_affordable_oneBnb : ¬ ∀ tx,
    oneBnbSender.tip "0xa" (1000 * 10 ^ 18) = .ok (some tx) →
      tx.maxGasCost ≤ oneBnbSender.balance := by
  intro h
  have hcost : ¬ (createSelfTransfer (oneBnbSender.mevGasPriceWith id (1000 * 10 ^ 18)) "0xa"
      0).maxGasCost ≤ oneBnbSender.balance := by decide +kernel
  exact hcost (h _ (by decide +kernel))

end CompoundLiquidation
