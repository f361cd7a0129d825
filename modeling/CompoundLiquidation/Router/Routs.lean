import CompoundLiquidation.Chain.Config
import CompoundLiquidation.Python.Itertools
import CompoundLiquidation.Python.Proc

/-!
# Swap routes

`ROUTS_TOKENS[NETWORK]` is a list at module level, and every route search keeps a reference to it
rather than a copy. Building a search removes its two tokens from that one list, so the list is
state of the program: construction is a step on it, and a search reads it when it runs.

A token is an address. Its text always has the same length, which is what makes the concatenation
`gen_pool_key` builds a key for a pair.
-/

namespace CompoundLiquidation

open Python

/-- A token address. -/
structure Token where
  text : String
  /-- An address is `0x` and forty digits. -/
  length_text : text.length = 42
deriving DecidableEq

/-- `Pool`, for liquidity of any kind. -/
structure Pool (L : Type) where
  pair : String × String
  poolAddr : String
  liquidity : L
  fee : ℤ
deriving DecidableEq

/-- `Path`. -/
structure Path where
  poolAddr : String
  fee : ℤ
  isZeroForOne : ℕ
  token0 : String
  token1 : String
  amountOut : ℤ
deriving DecidableEq

/-! ## Intermediate tokens -/

theorem length_usdc_ethereum : "0xA0b86991c6218b36c1d19D4a2e9Eb0cE3606eB48".length = 42 := by
  decide

theorem length_weth_ethereum : "0xC02aaA39b223FE8D0A0e5C4F27eAD9083C756Cc2".length = 42 := by
  decide

theorem length_usdt_ethereum : "0xdAC17F958D2ee523a2206206994597C13D831ec7".length = 42 := by
  decide

theorem length_wbnb_bsc : "0xbb4CdB9CBd36B01bD1cBaEBF2De08d9173bc095c".length = 42 := by
  decide

theorem length_busd_bsc : "0xe9e7CEA3DedcA5984780Bafc599bD69ADd087D56".length = 42 := by
  decide

theorem length_usdt_bsc : "0x55d398326f99059fF775485246999027B3197955".length = 42 := by
  decide

/-- `ROUTS_TOKENS[NETWORK]` when the module is loaded. There is no entry for Polygon. -/
def routsTokens : Network → Option (List Token)
  | .ethereum => some [
      ⟨"0xA0b86991c6218b36c1d19D4a2e9Eb0cE3606eB48", length_usdc_ethereum⟩,
      ⟨"0xC02aaA39b223FE8D0A0e5C4F27eAD9083C756Cc2", length_weth_ethereum⟩,
      ⟨"0xdAC17F958D2ee523a2206206994597C13D831ec7", length_usdt_ethereum⟩]
  | .polygon => none
  | .bsc => some [
      ⟨"0xbb4CdB9CBd36B01bD1cBaEBF2De08d9173bc095c", length_wbnb_bsc⟩,
      ⟨"0xe9e7CEA3DedcA5984780Bafc599bD69ADd087D56", length_busd_bsc⟩,
      ⟨"0x55d398326f99059fF775485246999027B3197955", length_usdt_bsc⟩]

theorem nodup_routsTokens {net : Network} {tokens : List Token}
    (h : routsTokens net = some tokens) : tokens.Nodup := by
  cases net with
  | ethereum =>
    rw [routsTokens, Option.some_inj] at h
    rw [← h]
    decide
  | polygon => simp [routsTokens] at h
  | bsc =>
    rw [routsTokens, Option.some_inj] at h
    rw [← h]
    decide

/-- `COMPS_NOT_DEBT_COL_AT_SAME[NETWORK]`. -/
def compNotDebtColAtSame : Network → List String
  | .ethereum => [
      "0x0D8775F648430679A709E98d2b0Cb6250d2887EF",
      "0xC02aaA39b223FE8D0A0e5C4F27eAD9083C756Cc2",
      "0x1985365e9f78359a9B6AD760e32412f4a445E862",
      "0xA0b86991c6218b36c1d19D4a2e9Eb0cE3606eB48",
      "0x2260FAC5E5542a773Aa44fBCfeDf7C193bc2C599",
      "0xE41d2489571d322189246DaFA5ebDe1F4699F498",
      "0x89d24A6b4CcB1B6fAA2625fE562bDD9a23260359"]
  | _ => []

/-! ## Construction -/

/-- The attributes of a `Routs` object; `comp` marks the subclass `RoutsCompV2`. The attribute
`rout_tokens` is the shared list and not a field. -/
structure Routs where
  comp : Bool
  tokenIn : Token
  tokenOut : Token
deriving DecidableEq

/-- What `Routs.__init__` leaves of the shared list. -/
def removeEnds (routTokens : List Token) (tokenIn tokenOut : Token) : List Token :=
  (routTokens.erase tokenIn).erase tokenOut

/-- `gen_new_routs`: the new object and the shared list after its construction. -/
def genNewRouts (net : Network) (sel : Selector) (tokenIn tokenOut : Token)
    (routTokens : List Token) : Routs × List Token :=
  (⟨decide (net = .ethereum ∧ sel = .v2), tokenIn, tokenOut⟩,
    removeEnds routTokens tokenIn tokenOut)

/-! ## Search -/

/-- `gen_pool_key`. -/
def genPoolKey (tokenA tokenB : Token) : String × ℕ :=
  if tokenA.text < tokenB.text then (tokenA.text ++ tokenB.text, 0)
  else (tokenB.text ++ tokenA.text, 1)

section Search

variable {L : Type} (pools : Dict String (Option (Pool L)))
  (swapSimulation : Pool L → ℤ → ℕ → Except Error ℤ)

/-- `single_rout_simulation`. A pool may be missing or stored as `None`. -/
def singleRoutSimulation (tokenIn tokenOut : Token) (amountOut : ℤ) : ℤ × Option Path :=
  let (key, tokenInIndex) := genPoolKey tokenIn tokenOut
  let tokenOutIndex := 1 - tokenInIndex
  match (pools.get? key).join with
  | none => (-1, none)
  | some pool =>
    match swapSimulation pool amountOut tokenOutIndex with
    | .error _ => (-1, none)
    | .ok amountIn => (amountIn, some {
        poolAddr := pool.poolAddr
        fee := pool.fee
        isZeroForOne := tokenOutIndex
        token0 := pool.pair.1
        token1 := pool.pair.2
        amountOut := amountOut })

/-- The inner loop of `find_routs` from `tokenOut` along the remaining tokens: the last amount and
the paths collected. A failed hop ends it. -/
def walk (amountOut : ℤ) (pathsTemp : List Path) (tokenOut : Token) : List Token → ℤ × List Path
  | [] => (amountOut, pathsTemp)
  | tokenIn :: path =>
    match singleRoutSimulation pools swapSimulation tokenIn tokenOut amountOut with
    | (amountIn, none) => (amountIn, pathsTemp)
    | (amountIn, some pathInfos) =>
      if amountIn = -1 then (amountIn, pathsTemp)
      else walk amountIn (pathsTemp ++ [pathInfos]) tokenIn path

/-- The body of the search for one arrangement `res` of intermediate tokens. -/
def tryRout (r : Routs) (finalOut : ℤ) (best : ℤ × List Path) (res : List Token) :
    ℤ × List Path :=
  let (finalIn, paths) := best
  let (amountIn, pathsTemp) := walk pools swapSimulation finalOut [] r.tokenOut (res ++ [r.tokenIn])
  if amountIn ≠ -1 ∧ (amountIn < finalIn ∨ finalIn = -1) then (amountIn, pathsTemp)
  else (finalIn, paths)

/-- The arrangements in the order of the search. -/
def arrangements (routTokens : List Token) : List (List Token) :=
  (List.range (routTokens.length + 1)).flatMap fun insert ↦ permutations insert routTokens

/-- `Routs.find_routs`, reading the shared list. -/
def findRoutsBase (routTokens : List Token) (r : Routs) (finalOut : ℤ) : ℤ × List Path :=
  (arrangements routTokens).foldl (tryRout pools swapSimulation r finalOut) (-1, [])

/-- The early exit of `RoutsCompV2.find_routs`. -/
def sameCompToken (net : Network) (r : Routs) : Bool :=
  r.comp && r.tokenOut = r.tokenIn && r.tokenOut.text ∈ compNotDebtColAtSame net

/-- `find_routs` of either class. -/
def findRouts (net : Network) (routTokens : List Token) (r : Routs) (finalOut : ℤ) :
    ℤ × List Path :=
  if sameCompToken net r then (-1, [])
  else findRoutsBase pools swapSimulation routTokens r finalOut

end Search

end CompoundLiquidation
