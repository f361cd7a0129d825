import CompoundLiquidation.Main.Nonces
import CompoundLiquidation.Router.Search

/-!
# Plans

A liquidation passes through many hands before it can be signed: the health factor is calculated,
the liquidation is simulated, a pair and a route are chosen, the transaction is built. A `Plan` is
what all of them have to agree on, on the data that the program has at one moment: the user is at
risk, the pair is one of the simulation, the route leads through the pools from the underlying
token of the debt to that of the collateral and is the cheapest one, the profit is what is left
when its cost and that of the gas are paid, and the transaction carries out that pair on that route.
Every transaction that is built has a plan behind it.
-/

namespace CompoundLiquidation

open Python

/-! ## Plans -/

section Plans

variable {L : Type}

/-- The paths are the cheapest route on which the collateral pays for an amount of the debt, among
all arrangements of some intermediate tokens. -/
def IsRoute (env : MainEnv L) (colCtoken debtCtoken : String) (repayAmount : ℤ)
    (paths : List Path) (swapTokens : ℤ) : Prop :=
  ∃ routs routTokens front res back, routs.tokenIn = env.underlying colCtoken ∧
    routs.tokenOut = env.underlying debtCtoken ∧ arrangements routTokens = front ++ res :: back ∧
    FirstCheapest (selectionCost env.pools env.swapFunc routs repayAmount) front res back
      swapTokens ∧
    Follows env.pools env.swapFunc repayAmount (env.underlying debtCtoken)
      (res ++ [env.underlying colCtoken]) paths swapTokens

/-- The call of `liquidation_start` for a user, with the chosen pair and paths. -/
def MarketData.call (data : MarketData) (env : MainEnv L) (sig : Option SignalInfos)
    (index usr : String) (paths : List Path) (liqPair : LiqPair) : LiqCall where
  index := index
  usr := usr
  ctk := marketsOf env data.ctokens
  blockInfos := data.blockInfos
  paths := paths
  liqPair := liqPair
  sigGasPrice := sig.map SignalInfos.gasPrice
  sendType := env.sendType

/-- What stands behind a transaction. -/
structure Plan (env : MainEnv L) (data : MarketData) where
  usr : String
  reserves : Dict String CompReserve
  healthFactor : HealthFactor
  calculated : IsCalculated data (usr, healthFactor, reserves)
  atRisk : 0 < healthFactor.value ∧ healthFactor.value < 1
  liqPairs : Dict String (List LiqPairFull)
  simulated : liquidationSimulation reserves data.ctokens data.comet = .ok liqPairs
  pair : LiqPairFull
  chosen : ∃ pairs, (pair.debtCtoken, pairs) ∈ liqPairs.entries ∧ pair ∈ pairs
  paths : List Path
  swapTokens : ℤ
  route : IsRoute env pair.colCtoken pair.debtCtoken pair.repayAmount paths swapTokens
  /-- What is seized, less the cost of the route. -/
  revenue : ℤ
  revenue_eq : ∃ infos price, data.ctokens.get? pair.colCtoken = some infos ∧
    infos.priceCurrent = .ok price ∧
    revenue = (pair.seizeTokens * infos.risks.exchangeRate / expScale - swapTokens) * price
      / expScale
  worthwhile : desiredProfitScale ≤ revenue
  index : String
  /-- The signal whose gas price is paid, if any. -/
  sig : Option SignalInfos
  recorded : sig = none ∨ sig = data.signalRecv
  tx : TxParams
  /-- The revenue, less the cost of gas. -/
  profit : ℚ
  builds : (data.call env sig index usr paths { pair.toLiqPair with profit := revenue }).Builds
    env.toLiqEnv tx profit

/-- A planned transaction that an account has signed. -/
structure SignedPlan (env : MainEnv L) (data : MarketData) extends Plan env data where
  key : String
  nonce : ℤ
  signedTxRaw : Bytes
  signed : env.signTransaction key { tx with nonce := nonce } = .ok signedTxRaw

variable {env : MainEnv L} {data : MarketData}

/-! ## From the simulation to the call -/

/-- The pairs of the simulation are listed under their debts. -/
theorem debtCtoken_of_mem_liquidationSimulation {reserves : Dict String CompReserve}
    {ctk : Dict String CtokenInfos} {com : CometConfigs} {d : Dict String (List LiqPairFull)}
    (h : liquidationSimulation reserves ctk com = .ok d) :
    ∀ entry ∈ d.entries, ∀ pair ∈ entry.2, pair.debtCtoken = entry.1 := by
  have hpair : ∀ {debtCtoken : String} {debtPrice repayAmount : ℤ}
      {entry : String × CompReserve} {pair : LiqPairFull},
      collateralPair ctk com debtCtoken debtPrice repayAmount entry = .ok (some pair) →
        pair.debtCtoken = debtCtoken := by
    intro debtCtoken debtPrice repayAmount entry pair h
    rw [collateralPair] at h
    split_ifs at h with hcol
    · obtain ⟨infos, -, h⟩ := exists_of_bind_ok h
      obtain ⟨price, -, h⟩ := exists_of_bind_ok h
      obtain ⟨simulated, hsimulated, h⟩ := exists_of_bind_ok h
      obtain ⟨ratio, -, hsimulated⟩ := exists_of_bind_ok hsimulated
      obtain ⟨amounts, -, hsimulated⟩ := exists_of_bind_ok hsimulated
      obtain ⟨treasury, -, hsimulated⟩ := exists_of_bind_ok hsimulated
      rw [← Option.some_inj.mp (Except.ok.inj h), ← Except.ok.inj hsimulated]
    · cases Except.ok.inj h
  have htarget : ∀ {debtNormalizeMax : ℤ} {target : ℤ × String × ℤ}
      {found : String × List LiqPairFull},
      targetPairs ctk com reserves debtNormalizeMax target = .ok (some found) →
        ∀ pair ∈ found.2, pair.debtCtoken = found.1 := by
    intro debtNormalizeMax target found h pair hpair'
    rw [targetPairs] at h
    obtain ⟨infos, -, h⟩ := exists_of_bind_ok h
    obtain ⟨debtPrice, -, h⟩ := exists_of_bind_ok h
    split_ifs at h with hsmall
    · cases Except.ok.inj h
    obtain ⟨collaterals, hcollaterals, h⟩ := exists_of_bind_ok h
    split_ifs at h with hsome
    · rw [← Option.some_inj.mp (Except.ok.inj h)] at hpair' ⊢
      obtain ⟨entry, -, hentry⟩ := (mem_collect_iff hcollaterals pair).mp
        (perm_sortedReverse.mem_iff.mp hpair')
      exact hpair hentry
    · cases Except.ok.inj h
  intro entry hentry
  obtain ⟨debts, -, hd⟩ := liquidationSimulation_ok h
  split at hd
  · rw [hd] at hentry
    cases hentry
  · obtain ⟨target, -, hfound⟩ := (mem_collect_iff hd entry).mp hentry
    exact htarget hfound

/-- A market among the arguments of the simulation. -/
theorem item_signalEnv {ctokens : Dict String CtokenInfos} {comet : CometConfigs}
    {blockInfos : BlockInfos} {sig : Option SignalInfos} {token : String} {infos : CtokenInfosSwap}
    (h : (env.signalEnv ctokens comet blockInfos sig).ctk.item token = .ok infos) :
    infos.underlying = env.underlying token ∧
      ctokens.get? token = some infos.toCtokenInfos := by
  have hget := Dict.item_eq_ok_iff.mp h
  rw [MainEnv.signalEnv, Dict.get?_mapWithKey] at hget
  obtain ⟨full, hfull, rfl⟩ := Option.map_eq_some_iff.mp hget
  rw [marketsOf, Dict.get?_mapWithKey] at hfull
  obtain ⟨infos', hinfos', rfl⟩ := Option.map_eq_some_iff.mp hfull
  exact ⟨rfl, hinfos'⟩

/-- A search that finds something. -/
theorem isRoute_of_findRouts (hkeyed : PoolsKeyed env.pools) {colCtoken debtCtoken : String}
    {routs : Routs} (hcol : routs.tokenIn = env.underlying colCtoken)
    (hdebt : routs.tokenOut = env.underlying debtCtoken) {net : Network} {routTokens : List Token}
    {repayAmount : ℤ} {found : ℤ × List Path}
    (hfound : findRouts env.pools env.swapFunc net routTokens routs repayAmount = found)
    (hsome : ¬ (found.1 ≤ 0 ∧ found.2.length = 0)) :
    IsRoute env colCtoken debtCtoken repayAmount found.2 found.1 := by
  have hnone : found ≠ (-1, []) := by
    rintro rfl
    exact hsome ⟨by norm_num, rfl⟩
  rw [findRouts] at hfound
  split_ifs at hfound with hsame
  · exact absurd hfound.symm hnone
  obtain ⟨hbase, -⟩ | ⟨front, res, back, cost, paths, hsplit, hfirst, -, hbase, hfollows⟩ :=
    @findRoutsBase_spec L env.pools env.swapFunc routs repayAmount hkeyed routTokens
  · exact absurd (hfound.symm.trans hbase) hnone
  · obtain rfl := hbase.symm.trans hfound
    rw [hcol, hdebt] at hfollows
    exact ⟨routs, routTokens, front, res, back, hcol, hdebt, hsplit, hfirst, hfollows⟩

variable (env data) in
/-- The pair with its route, and the profit on it. -/
def OnRoute (pair : LiqPairFull) (paths : List Path) (revenue : ℤ) : Prop :=
  ∃ swapTokens, IsRoute env pair.colCtoken pair.debtCtoken pair.repayAmount paths swapTokens ∧
    ∃ infos price, data.ctokens.get? pair.colCtoken = some infos ∧
      infos.priceCurrent = .ok price ∧
      revenue = (pair.seizeTokens * infos.risks.exchangeRate / expScale - swapTokens) * price
        / expScale

/-- The simulation works on the market data that the health factors were calculated with. -/
theorem simulationInfos_signalEnv (data : MarketData) (sig : Option SignalInfos) :
    simulationInfos (data.signalEnv env sig).ctk = data.ctokens := by
  rw [simulationInfos, MarketData.signalEnv, MainEnv.signalEnv, marketsOf,
    Dict.mapWithKey_mapWithKey, Dict.mapWithKey_mapWithKey]
  exact Dict.mapWithKey_id data.ctokens

section Simulation

variable {sig : Option SignalInfos}

/-- A pair is considered on the cheapest route. -/
theorem considerPair_ok (hkeyed : PoolsKeyed env.pools)
    {best best' : ℤ × Option (LiqPairFull × List Path)} {pair : LiqPairFull} {s s' : List Token}
    (h : (considerPair (data.signalEnv env sig) pair.debtCtoken best
      pair).run s = (.ok best', s')) :
    best' = best ∨ ∃ profit paths, best'.2 = some ({ pair with profit := profit }, paths) ∧
      OnRoute env data pair paths profit := by
  rw [considerPair] at h
  by_cases hsmall : pair.profit < desiredProfitScale
  · rw [if_pos hsmall] at h
    exact .inl (Except.ok.inj (Prod.mk.inj h).1).symm
  rw [if_neg hsmall] at h
  obtain ⟨colInfos, _, hcol, h⟩ := Proc.run_bind_ok h
  obtain ⟨debtInfos, _, hdebt, h⟩ := Proc.run_bind_ok h
  obtain ⟨routs, _, hrouts, h⟩ := Proc.run_bind_ok h
  obtain ⟨routTokens, _, -, h⟩ := Proc.run_bind_ok h
  dsimp only at h
  split_ifs at h with hnothing
  · exact .inl (Except.ok.inj (Prod.mk.inj h).1).symm
  obtain ⟨price, _, hprice, h⟩ := Proc.run_bind_ok h
  split_ifs at h with hlarger
  swap
  · exact .inl (Except.ok.inj (Prod.mk.inj h).1).symm
  obtain ⟨hcolUnderlying, hcolInfos⟩ := item_signalEnv (Prod.mk.inj hcol).1
  obtain ⟨hdebtUnderlying, -⟩ := item_signalEnv (Prod.mk.inj hdebt).1
  obtain rfl := Except.ok.inj (Prod.mk.inj hrouts).1
  rw [← Except.ok.inj (Prod.mk.inj h).1]
  refine .inr ⟨_, _, rfl, _, ?_, colInfos.toCtokenInfos, price, hcolInfos, (Prod.mk.inj hprice).1,
    rfl⟩
  exact isRoute_of_findRouts hkeyed hcolUnderlying hdebtUnderlying rfl hnothing

/-- What is chosen is one of the pairs, but for its profit. -/
theorem profitSimulation_ok (hkeyed : PoolsKeyed env.pools)
    {liqPairs : Dict String (List LiqPairFull)}
    (hlisted : ∀ entry ∈ liqPairs.entries, ∀ pair ∈ entry.2, pair.debtCtoken = entry.1)
    {s s' : List Token} {pair : LiqPairFull} {paths : List Path}
    (h : (profitSimulation (data.signalEnv env sig) liqPairs).run s
      = (.ok (some (pair, paths)), s')) :
    ∃ entry ∈ liqPairs.entries, ∃ found ∈ entry.2, { found with profit := pair.profit } = pair ∧
      OnRoute env data found paths pair.profit := by
  obtain ⟨best, s₁, hloop, hreturn⟩ := Proc.run_bind_ok h
  have hbest : best.2 = some (pair, paths) := Except.ok.inj (Prod.mk.inj hreturn).1
  let Inv : ℤ × Option (LiqPairFull × List Path) → Prop := fun best ↦
    ∀ pair paths, best.2 = some (pair, paths) →
      ∃ entry ∈ liqPairs.entries, ∃ found ∈ entry.2, { found with profit := pair.profit } = pair ∧
        OnRoute env data found paths pair.profit
  have hstep : ∀ entry ∈ liqPairs.entries, ∀ found ∈ entry.2, ∀ best best' s s', Inv best →
      (considerPair (data.signalEnv env sig) entry.1 best found).run s
        = (.ok best', s') → Inv best' := by
    intro entry hentry found hfound best best' s s' hinv h pair paths hpair
    rw [← hlisted entry hentry found hfound] at h
    obtain rfl | ⟨profit, paths', hnew, hroute⟩ := considerPair_ok hkeyed h
    · exact hinv pair paths hpair
    · obtain ⟨rfl, rfl⟩ := Prod.mk.inj (Option.some_inj.mp (hnew.symm.trans hpair))
      exact ⟨entry, hentry, found, hfound, rfl, hroute⟩
  have hinv : Inv best := by
    refine Proc.run_foldlM_ok (fun best entry hentry s best' s' hinv h ↦ ?_)
      (fun pair paths hnone ↦ (by cases hnone)) hloop
    exact Proc.run_foldlM_ok (fun best found hfound s best' s' ↦
      hstep entry hentry found hfound best best' s s') hinv h
  exact hinv pair paths hbest

/-- The markets of the call are those of the data. -/
theorem fullInfos_signalEnv (data : MarketData) (sig : Option SignalInfos) :
    fullInfos (data.signalEnv env sig).ctk = marketsOf env data.ctokens := by
  rw [fullInfos, MarketData.signalEnv, MainEnv.signalEnv, Dict.mapWithKey_mapWithKey]
  exact Dict.mapWithKey_id _

/-- What `signal_simulate_health_factor` calls is for a user at risk and a pair of the
simulation. -/
theorem signalCall_ok (hkeyed : PoolsKeyed env.pools) {res : SimResult} {call : LiqCall}
    {s s' : List Token}
    (h : (signalCall (data.signalEnv env sig) res).run s = (.ok (some call), s')) :
    (0 < res.newHealthFactor.value ∧ res.newHealthFactor.value < 1) ∧ ∃ liqPairs,
      liquidationSimulation res.reserves data.ctokens data.comet = .ok liqPairs ∧
        ∃ (found : LiqPairFull) (paths : List Path) (revenue : ℤ),
          (∃ pairs, (found.debtCtoken, pairs) ∈ liqPairs.entries ∧ found ∈ pairs) ∧
          OnRoute env data found paths revenue ∧ desiredProfitScale ≤ revenue ∧
          call = data.call env sig res.uniqueId res.usr paths
            { found.toLiqPair with profit := revenue } := by
  rw [signalCall] at h
  by_cases hnorm : res.newHealthFactor.value / hfThreshold < 1 ∧
    0 < res.newHealthFactor.value / hfThreshold
  swap
  · rw [if_pos hnorm] at h
    cases (Prod.mk.inj h).1
  rw [if_neg (not_not.mpr hnorm)] at h
  obtain ⟨liqPairs, _, hfound, h⟩ := Proc.run_bind_ok h
  obtain ⟨hsimulation, rfl⟩ := Prod.mk.inj hfound
  rw [simulationInfos_signalEnv] at hsimulation
  rcases hkeys : liqPairs.keys with _ | ⟨key, keys⟩
  · rw [hkeys] at h
    cases (Prod.mk.inj h).1
  rw [hkeys] at h
  obtain ⟨pairs, _, -, h⟩ := Proc.run_bind_ok h
  obtain ⟨first, s₁, -, h⟩ := Proc.run_bind_ok h
  by_cases hgate : first.profit < desiredProfitScale
  · rw [if_pos hgate] at h
    cases (Prod.mk.inj h).1
  rw [if_neg hgate] at h
  obtain ⟨chosen, s₂, hchosen, h⟩ := Proc.run_bind_ok h
  rcases chosen with _ | ⟨pair, paths⟩
  · cases (Prod.mk.inj h).1
  dsimp only at h
  by_cases hsmall : pair.profit < desiredProfitScale
  · rw [if_pos hsmall] at h
    cases (Prod.mk.inj h).1
  rw [if_neg hsmall] at h
  have hcall := Option.some_inj.mp (Except.ok.inj (Prod.mk.inj h).1)
  have hlisted := debtCtoken_of_mem_liquidationSimulation hsimulation
  obtain ⟨entry, hentry, found, hfound, heq, hroute⟩ := profitSimulation_ok hkeyed hlisted hchosen
  rw [hfThreshold, div_one] at hnorm
  refine ⟨hnorm.symm, liqPairs, hsimulation, found, paths, pair.profit, ⟨entry.2, ?_, hfound⟩,
    hroute, not_lt.mp hsmall, ?_⟩
  · rw [hlisted entry hentry found hfound]
    exact hentry
  · have hpair : { found.toLiqPair with profit := pair.profit } = pair.toLiqPair :=
      congrArg LiqPairFull.toLiqPair heq
    rw [← hcall, fullInfos_signalEnv, MarketData.call, hpair]
    rfl

end Simulation

/-- What is built is planned. -/
theorem Built.exists_plan (hkeyed : PoolsKeyed env.pools) {tx : TxParams} {profit : ℚ}
    (h : Built env data tx profit) :
    ∃ plan : Plan env data, plan.tx = tx ∧ plan.profit = profit := by
  obtain ⟨res, uniqueId, sig, call, s, s', hcalculated, hrecorded, hcall, hbuilds⟩ := h
  obtain ⟨hatRisk, liqPairs, hsimulated, pair, paths, revenue, hchosen, ⟨swapTokens, hroute,
    hrevenue⟩, hworth, rfl⟩ := signalCall_ok hkeyed hcall
  exact ⟨⟨res.1, res.2.2, res.2.1, hcalculated, hatRisk, liqPairs, hsimulated, pair, hchosen,
    paths, swapTokens, hroute, revenue, hrevenue, hworth, uniqueId, sig, hrecorded, tx, profit,
    hbuilds⟩, rfl, rfl⟩

/-- On BSC no plan is ever signed. -/
theorem isEmpty_signedPlan (hnet : env.net = .bsc) (hchecks : ChecksReceiver env.signTransaction) :
    IsEmpty (SignedPlan env data) := by
  refine ⟨fun plan ↦ ?_⟩
  have hrefused : env.signTransaction plan.key { plan.tx with nonce := plan.nonce }
      = .error .typeError := hchecks _ _ (plan.builds.not_isReceiver hnet)
  cases hrefused.symm.trans plan.signed

end Plans

end CompoundLiquidation
