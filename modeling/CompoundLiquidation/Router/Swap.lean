import CompoundLiquidation.Router.Routs
import Mathlib.Algebra.Order.Ring.Int
import Mathlib.Tactic.Linarith

/-!
# Pools of the second version

`SwapV2` looks a pool up by its pair in the factory and keeps its two reserves with it. A quote asks
what has to be paid in for a wanted amount. It is the constant product formula solved for the amount
paid, rounded down and then raised by one, so that it is enough for the check the pair makes on
chain, and never more than two units above what would be. A twentieth of a reserve is the most that
is quoted for.
-/

namespace CompoundLiquidation

open Python

/-! ## The program -/

/-- What `getReserves` returns of the reserves. -/
structure Reserves where
  reserve0 : ℤ
  reserve1 : ℤ
deriving DecidableEq

/-- `liquidity[i]` for the two indices of a pair. -/
def Reserves.item (liquidity : Reserves) (i : ℕ) : ℤ :=
  if i = 0 then liquidity.reserve0 else liquidity.reserve1

/-- `SwapV2.swap_simulation`. -/
def SwapV2.swapSimulation (pool : Pool Reserves) (amountOut : ℤ) (tokenOutIndex : ℕ) :
    Except Error ℤ :=
  let x := pool.liquidity.item tokenOutIndex
  let y := pool.liquidity.item (1 - tokenOutIndex)
  if x < amountOut * 20 then .ok (-1)
  else do
    let swapTokens ← floorDiv (y * amountOut * 10000) ((x - amountOut) * (10000 - pool.fee))
    return swapTokens + 1

/-- `ADDRESS_ZERO`. -/
def addressZero : String := "0x0000000000000000000000000000000000000000"

/-- What the factory and the pairs answer. The block identifier is fixed. -/
structure V2Chain where
  getPair : String → String → Except Error String
  getReserves : String → Except Error Reserves

/-- `SwapV2.query_max_liq_pool`. -/
def SwapV2.queryMaxLiqPool (chain : V2Chain) (fee : ℤ) (pair : String × String) :
    Except Error (Option (Pool Reserves)) := do
  let pairAddr ← chain.getPair pair.1 pair.2
  if pairAddr = addressZero then return none
  let res ← chain.getReserves pairAddr
  return some ⟨pair, pairAddr, res, fee⟩

/-- A pool that is found. -/
theorem SwapV2.queryMaxLiqPool_eq_some {chain : V2Chain} {fee : ℤ} {pair : String × String}
    {pool : Pool Reserves} (h : queryMaxLiqPool chain fee pair = .ok (some pool)) :
    chain.getPair pair.1 pair.2 = .ok pool.poolAddr ∧ pool.poolAddr ≠ addressZero ∧
      chain.getReserves pool.poolAddr = .ok pool.liquidity ∧ pool.pair = pair := by
  simp only [queryMaxLiqPool] at h
  rcases hpair : chain.getPair pair.1 pair.2 with e | pairAddr
  · rw [hpair] at h
    cases h
  rw [hpair, ok_bind] at h
  by_cases hzero : pairAddr = addressZero
  · rw [if_pos hzero] at h
    cases Except.ok.inj h
  rcases hres : chain.getReserves pairAddr with e | res
  · rw [if_neg hzero, hres] at h
    cases h
  · rw [if_neg hzero, hres] at h
    rw [← Option.some_inj.mp (Except.ok.inj h)]
    exact ⟨rfl, hzero, hres, rfl⟩

/-- `[pair[token0_index], pair[1-token0_index]]` with the index of the key. -/
def sortedPair (tokenA tokenB : Token) : String × String :=
  if (genPoolKey tokenA tokenB).2 = 0 then (tokenA.text, tokenB.text)
  else (tokenB.text, tokenA.text)

/-- `add_liq_pool` of either class, with its `query_max_liq_pool`. -/
def addLiqPool {L : Type} (queryMaxLiqPool : String × String → Except Error (Option (Pool L)))
    (pair : Token × Token) : Proc (Dict String (Option (Pool L))) Error Unit := do
  let pool ← Proc.ofExcept (queryMaxLiqPool (sortedPair pair.1 pair.2))
  Proc.modify fun pools ↦ pools.set (genPoolKey pair.1 pair.2).1 pool

/-- `SwapV2.add_liq_pool`. -/
def SwapV2.addLiqPool (chain : V2Chain) (fee : ℤ) (pair : Token × Token) :
    Proc (Dict String (Option (Pool Reserves))) Error Unit :=
  CompoundLiquidation.addLiqPool (queryMaxLiqPool chain fee) pair

/-! ## The quote -/

/-- The check of a pair with reserves `x` of the token out and `y` of the token in, after `paid` in
and `amountOut` out. -/
def PairAccepts (x y fee amountOut paid : ℤ) : Prop :=
  x * y * 10000 ≤ (y * 10000 + paid * (10000 - fee)) * (x - amountOut)

section Quote

variable {pool : Pool Reserves} {amountOut : ℤ} {i : ℕ}

/-- Too much for the pool. -/
theorem SwapV2.swapSimulation_of_lt (h : pool.liquidity.item i < 20 * amountOut) :
    swapSimulation pool amountOut i = .ok (-1) :=
  if_pos (by rwa [mul_comm] at h)

/-- What is divided by. -/
theorem SwapV2.divisor_pos (hfee : pool.fee < 10000) (hout : 0 < amountOut)
    (h : 20 * amountOut ≤ pool.liquidity.item i) :
    0 < (pool.liquidity.item i - amountOut) * (10000 - pool.fee) :=
  mul_pos (by linarith) (by linarith)

theorem SwapV2.swapSimulation_of_le (hfee : pool.fee < 10000) (hout : 0 < amountOut)
    (h : 20 * amountOut ≤ pool.liquidity.item i) :
    swapSimulation pool amountOut i
      = .ok (pool.liquidity.item (1 - i) * amountOut * 10000
        / ((pool.liquidity.item i - amountOut) * (10000 - pool.fee)) + 1) := by
  have hlarge : ¬ pool.liquidity.item i < amountOut * 20 := by linarith
  simp only [swapSimulation, if_neg hlarge, floorDiv_of_pos (divisor_pos hfee hout h), ok_bind]
  rfl

/-- The check compares what is paid with the quotient that the quote rounds. -/
theorem pairAccepts_iff {x y fee amountOut paid : ℤ} :
    PairAccepts x y fee amountOut paid ↔
      y * amountOut * 10000 ≤ paid * ((x - amountOut) * (10000 - fee)) := by
  rw [PairAccepts]
  constructor
  · intro h
    linarith
  · intro h
    linarith

/-- One unit above the rounded quotient is enough, one below it is not. -/
theorem pairAccepts_quote {x y fee amountOut : ℤ} (hpos : 0 < (x - amountOut) * (10000 - fee)) :
    PairAccepts x y fee amountOut
        (y * amountOut * 10000 / ((x - amountOut) * (10000 - fee)) + 1) ∧
      ¬ PairAccepts x y fee amountOut
        (y * amountOut * 10000 / ((x - amountOut) * (10000 - fee)) + 1 - 2) := by
  have hle := Int.ediv_mul_le (y * amountOut * 10000) hpos.ne'
  have hlt := Int.lt_ediv_add_one_mul_self (y * amountOut * 10000) hpos
  rw [pairAccepts_iff, pairAccepts_iff]
  constructor
  · exact hlt.le
  · rw [not_le]
    linarith

/-- A larger amount costs at least as much. -/
theorem quote_mono {x y fee amountOut amountOut' : ℤ} (hy : 0 < y) (hfee : fee < 10000)
    (hle : amountOut ≤ amountOut') (hout : 0 < amountOut) (hx : amountOut' < x) :
    y * amountOut * 10000 / ((x - amountOut) * (10000 - fee))
      ≤ y * amountOut' * 10000 / ((x - amountOut') * (10000 - fee)) := by
  have hpos : 0 < (x - amountOut') * (10000 - fee) := mul_pos (by linarith) (by linarith)
  have hdivisor : (x - amountOut') * (10000 - fee) ≤ (x - amountOut) * (10000 - fee) :=
    mul_le_mul_of_nonneg_right (by linarith) (by linarith)
  have hdividend : y * amountOut * 10000 ≤ y * amountOut' * 10000 :=
    mul_le_mul_of_nonneg_right (mul_le_mul_of_nonneg_left hle hy.le) (by decide)
  have hnonneg : 0 ≤ y * amountOut * 10000 / ((x - amountOut) * (10000 - fee)) :=
    Int.ediv_nonneg (by positivity) (hpos.le.trans hdivisor)
  rw [Int.le_ediv_iff_mul_le hpos]
  calc y * amountOut * 10000 / ((x - amountOut) * (10000 - fee))
        * ((x - amountOut') * (10000 - fee))
      ≤ y * amountOut * 10000 / ((x - amountOut) * (10000 - fee))
          * ((x - amountOut) * (10000 - fee)) := mul_le_mul_of_nonneg_left hdivisor hnonneg
    _ ≤ y * amountOut * 10000 := Int.ediv_mul_le _ (hpos.trans_le hdivisor).ne'
    _ ≤ y * amountOut' * 10000 := hdividend

/-- **The quote is sufficient and tight.** A quote is refused exactly for more than a twentieth of
the reserve. Otherwise the divisor is positive, the pair accepts what is quoted but not two units
less, and a larger amount is not quoted lower. -/
theorem swapSimulation_quote (hy : 0 < pool.liquidity.item (1 - i)) (hfee : pool.fee < 10000)
    (hout : 0 < amountOut) :
    (SwapV2.swapSimulation pool amountOut i = .ok (-1) ↔
        pool.liquidity.item i < 20 * amountOut) ∧
      (20 * amountOut ≤ pool.liquidity.item i →
        0 < (pool.liquidity.item i - amountOut) * (10000 - pool.fee) ∧
        ∃ paid, SwapV2.swapSimulation pool amountOut i = .ok paid ∧
          PairAccepts (pool.liquidity.item i) (pool.liquidity.item (1 - i)) pool.fee amountOut
            paid ∧
          ¬ PairAccepts (pool.liquidity.item i) (pool.liquidity.item (1 - i)) pool.fee amountOut
            (paid - 2)) ∧
      ∀ amountOut', amountOut ≤ amountOut' → 20 * amountOut' ≤ pool.liquidity.item i →
        ∃ paid paid', SwapV2.swapSimulation pool amountOut i = .ok paid ∧
          SwapV2.swapSimulation pool amountOut' i = .ok paid' ∧ paid ≤ paid' := by
  refine ⟨⟨fun hrefused ↦ ?_, SwapV2.swapSimulation_of_lt⟩, fun hlarge ↦ ?_, ?_⟩
  · by_contra hlarge
    rw [not_lt] at hlarge
    have hpos := SwapV2.divisor_pos hfee hout hlarge
    rw [SwapV2.swapSimulation_of_le hfee hout hlarge, Except.ok.injEq] at hrefused
    have hnonneg : 0 ≤ pool.liquidity.item (1 - i) * amountOut * 10000
        / ((pool.liquidity.item i - amountOut) * (10000 - pool.fee)) :=
      Int.ediv_nonneg (by positivity) hpos.le
    linarith
  · have hpos := SwapV2.divisor_pos hfee hout hlarge
    exact ⟨hpos, _, SwapV2.swapSimulation_of_le hfee hout hlarge, pairAccepts_quote hpos⟩
  · intro amountOut' hle hlarge'
    have hlarge : 20 * amountOut ≤ pool.liquidity.item i := by linarith
    refine ⟨_, _, SwapV2.swapSimulation_of_le hfee hout hlarge,
      SwapV2.swapSimulation_of_le hfee (hout.trans_le hle) hlarge', ?_⟩
    have hmono := quote_mono hy hfee hle hout (show amountOut' < pool.liquidity.item i by linarith)
    linarith

/-- The edge: a twentieth of the reserve, at a fee of a quarter of a percent. -/
theorem swapSimulation_quote_edge :
    (SwapV2.swapSimulation ⟨("", ""), "", ⟨2000, 3000⟩, 25⟩ 100 0 = .ok (-1) ↔
        (2000 : ℤ) < 20 * 100) ∧
      (20 * 100 ≤ (2000 : ℤ) → 0 < ((2000 : ℤ) - 100) * (10000 - 25) ∧
        ∃ paid, SwapV2.swapSimulation ⟨("", ""), "", ⟨2000, 3000⟩, 25⟩ 100 0 = .ok paid ∧
          PairAccepts 2000 3000 25 100 paid ∧ ¬ PairAccepts 2000 3000 25 100 (paid - 2)) ∧
      ∀ amountOut', 100 ≤ amountOut' → 20 * amountOut' ≤ (2000 : ℤ) →
        ∃ paid paid', SwapV2.swapSimulation ⟨("", ""), "", ⟨2000, 3000⟩, 25⟩ 100 0 = .ok paid ∧
          SwapV2.swapSimulation ⟨("", ""), "", ⟨2000, 3000⟩, 25⟩ amountOut' 0 = .ok paid' ∧
          paid ≤ paid' :=
  @swapSimulation_quote ⟨("", ""), "", ⟨2000, 3000⟩, 25⟩ 100 0 (by decide) (by decide) (by decide)

end Quote

end CompoundLiquidation
