import CompoundLiquidation.Callbacks.Health
import CompoundLiquidation.Comet.Factors
import CompoundLiquidation.Liquidation.Dedup
import CompoundLiquidation.Liquidation.Simulation
import CompoundLiquidation.Router.History

/-!
# The early profit gate

When a signal has arrived, `signal_simulate_health_factor` simulates the liquidation of one user
after the other, looks for the route with the largest actual profit, and starts the liquidation if
that is large enough. Searching routes takes long. So the user is skipped at once if the first pair
of the first debt, which is the debt of the largest value, promises too little, although the search
is about the pairs of all debts.

The pairs of a smaller debt may promise more than those of the largest one. With a cap on the
seizure or without, the difference is due to the divisions only, and it takes a debt on the edge of
the threshold, or a tiny price, to see it.
-/

namespace CompoundLiquidation

open Python

/-! ## The program -/

/-- `DESIRED_PROFIT_SCALE`. -/
def desiredProfitScale : ℤ := 10 * expScale

/-- `CtokenInfosFull` with the `underlying` of its `configs`. -/
structure CtokenInfosSwap extends CtokenInfosFull where
  underlying : Token

/-- What `liquidation_start` reads of the markets. -/
def fullInfos (ctk : Dict String CtokenInfosSwap) : Dict String CtokenInfosFull :=
  ctk.mapWithKey fun _ infos ↦ infos.toCtokenInfosFull

/-- What the simulation reads of the markets. -/
def simulationInfos (ctk : Dict String CtokenInfosSwap) : Dict String CtokenInfos :=
  ctk.mapWithKey fun _ infos ↦ infos.toCtokenInfos

/-- `(usr, new_health_factor, reserves)`, with the `generate_unique_id()` of its turn. -/
structure SimResult where
  usr : String
  newHealthFactor : HealthFactor
  reserves : Dict String CompReserve
  uniqueId : String

/-- The deployment and the other arguments of `signal_simulate_health_factor`. -/
structure SignalEnv (L : Type) extends LiqEnv where
  ctk : Dict String CtokenInfosSwap
  comet : CometConfigs
  blockInfos : BlockInfos
  pools : Dict String (Option (Pool L))
  swapFunc : Pool L → ℤ → ℕ → Except Error ℤ
  sigGasPrice : Option ℤ
  sendType : SendType

/-- What `signal_simulate_health_factor` changes. -/
structure SignalState extends Liquidator where
  /-- `ROUTS_TOKENS[NETWORK]`. -/
  routTokens : List Token

section Program

variable {L : Type} (env : SignalEnv L)

/-- `gen_new_routs` on the shared list. -/
def newRouts (tokenIn tokenOut : Token) : Proc (List Token) Error Routs := do
  let routTokens ← Proc.read
  let (routs, routTokens) := genNewRouts env.net env.sel tokenIn tokenOut routTokens
  Proc.modify fun _ ↦ routTokens
  return routs

/-- The loop body of `profit_simulation` on `max_profit` and `target`. Only the pair that is
returned has its new profit read. -/
def considerPair (debtCtoken : String) (best : ℤ × Option (LiqPairFull × List Path))
    (pair : LiqPairFull) : Proc (List Token) Error (ℤ × Option (LiqPairFull × List Path)) := do
  if pair.profit < desiredProfitScale then return best
  let colInfos ← Proc.ofExcept (env.ctk.item pair.colCtoken)
  let debtInfos ← Proc.ofExcept (env.ctk.item debtCtoken)
  let routs ← newRouts env colInfos.underlying debtInfos.underlying
  let routTokens ← Proc.read
  let (swapTokens, paths) :=
    findRouts env.pools env.swapFunc env.net routTokens routs pair.repayAmount
  -- a search that finds nothing returns `-1` without paths
  if swapTokens ≤ 0 ∧ paths.length = 0 then return best
  let price ← Proc.ofExcept colInfos.priceCurrent
  let seizeTokensUa := pair.seizeTokens * colInfos.risks.exchangeRate / expScale
  let profitActual := (seizeTokensUa - swapTokens) * price / expScale
  if profitActual > best.1 then
    return (profitActual, some ({ pair with profit := profitActual }, paths))
  else return best

/-- `profit_simulation`: the pair with the largest actual profit, and the paths of its route. -/
def profitSimulation (liqPairs : Dict String (List LiqPairFull)) :
    Proc (List Token) Error (Option (LiqPairFull × List Path)) := do
  let best ← liqPairs.entries.foldlM
    (fun best entry ↦ entry.2.foldlM (considerPair env entry.1) best) (0, none)
  return best.2

/-- The part behind the gate: the pair with its route, and the call of `liquidation_start` if the
actual profit is large enough. -/
def callFor (res : SimResult) (liqPairs : Dict String (List LiqPairFull)) :
    Proc (List Token) Error (Option LiqCall) := do
  let pairWithRouts ← profitSimulation env liqPairs
  match pairWithRouts with
  | none => return none
  | some (liqPair, paths) =>
    if liqPair.profit < desiredProfitScale then return none
    return some {
      index := res.uniqueId
      usr := res.usr
      ctk := fullInfos env.ctk
      blockInfos := env.blockInfos
      paths := paths
      liqPair := liqPair.toLiqPair
      sigGasPrice := env.sigGasPrice
      sendType := env.sendType }

/-- The loop body of `signal_simulate_health_factor` up to the call of `liquidation_start`, and
nothing where the user is skipped. -/
def signalCall (res : SimResult) : Proc (List Token) Error (Option LiqCall) := do
  let norm := res.newHealthFactor.value / hfThreshold
  if ¬ (norm < 1 ∧ 0 < norm) then return none
  let liqPairs ←
    Proc.ofExcept (liquidationSimulation res.reserves (simulationInfos env.ctk) env.comet)
  -- only the first pair of the first debt is looked at here
  match liqPairs.keys with
  | [] => return none
  | key :: _ =>
    let pairs ← Proc.ofExcept (liqPairs.item key)
    let first ← Proc.ofOption pairs.head? .indexError
    if first.profit < desiredProfitScale then return none
    callFor env res liqPairs

/-- The loop body of `signal_simulate_health_factor`: the tasks of one user. -/
def signalBody (res : SimResult) : Proc SignalState Error (List SendResult) := do
  let call ← Proc.zoom SignalState.routTokens
    (fun routTokens s ↦ { s with routTokens := routTokens }) (signalCall env res)
  match call with
  | none => return []
  | some call =>
    Proc.zoom SignalState.toLiquidator (fun liquidator s ↦ { s with toLiquidator := liquidator })
      (call.start env.toLiqEnv)

/-- `signal_simulate_health_factor`. -/
def signalSimulateHealthFactor : List SimResult → Proc SignalState Error (List SendResult)
  | [] => return []
  | res :: results => do
    let tasks ← signalBody env res
    let rest ← signalSimulateHealthFactor results
    return tasks ++ rest

end Program

/-! ## The first debt -/

section First

variable {reserves : Dict String CompReserve} {ctk : Dict String CtokenInfos} {com : CometConfigs}

variable (reserves ctk com) in
/-- The debt that comes first: the one of the largest value, and of the largest address if there are
several. -/
def IsLargest (debt : String × CompReserve) : Prop :=
  0 < debt.2.debtAmount ∧ ∀ other ∈ reserves.entries, 0 < other.2.debtAmount →
    debtKey (targetOf ctk com other) ≤ debtKey (targetOf ctk com debt)

variable (reserves ctk com) in
/-- Some collateral promises enough for the first debt. -/
def GateOpen : Prop :=
  ∃ debt ∈ reserves.entries, IsLargest reserves ctk com debt ∧
    ∃ collateral ∈ reserves.entries, 0 < collateral.2.colAmount ∧
      desiredProfitScale ≤ (pairOf ctk com debt.1 (closeAmount ctk com debt) collateral).profit

instance (debt : String × CompReserve) : Decidable (IsLargest reserves ctk com debt) :=
  inferInstanceAs (Decidable (_ ∧ _))

instance : Decidable (GateOpen reserves ctk com) := List.decidableBEx _ reserves.entries

theorem pairsFor_eq_nil_iff {target : ℤ × String × ℤ} :
    pairsFor reserves ctk com target = [] ↔
      ∀ entry ∈ reserves.entries, ¬ 0 < entry.2.colAmount := by
  rw [List.eq_nil_iff_forall_not_mem]
  constructor
  · intro h entry hentry hcol
    exact h _ (mem_pairsFor_iff.mpr ⟨entry, hentry, hcol, rfl⟩)
  · intro h pair hpair
    obtain ⟨entry, hentry, hcol, -⟩ := mem_pairsFor_iff.mp hpair
    exact h entry hentry hcol

/-- There is only one debt that comes first. -/
theorem IsLargest.targetOf_eq {debt debt' : String × CompReserve} (hdebt : debt ∈ reserves.entries)
    (h : IsLargest reserves ctk com debt) (hdebt' : debt' ∈ reserves.entries)
    (h' : IsLargest reserves ctk com debt') : targetOf ctk com debt = targetOf ctk com debt' :=
  toLex.injective ((h'.2 debt hdebt h.1).antisymm (h.2 debt' hdebt' h'.1))

/-- The first debt of a simulation that finds something, with all of its pairs. -/
theorem entries_liquidationSimulation {d : Dict String (List LiqPairFull)}
    (h : liquidationSimulation reserves ctk com = .ok d) (hne : d.entries ≠ []) :
    ∃ debt ∈ reserves.entries, IsLargest reserves ctk com debt ∧
      pairsFor reserves ctk com (targetOf ctk com debt) ≠ [] ∧
      ∃ rest, d.entries = (debt.1, sortedReverse (fun pair : LiqPairFull ↦ pair.profit)
        (pairsFor reserves ctk com (targetOf ctk com debt))) :: rest := by
  obtain ⟨hsound, hcol⟩ := exists_liquidationSimulation_iff.mp ⟨d, h⟩
  obtain ⟨debts, hdebts, hd⟩ := liquidationSimulation_ok h
  have hmem := fun target ↦ @mem_debts_iff reserves ctk com hsound debts hdebts target
  rcases hsorted : sortedReverse debtKey debts with _ | ⟨first, others⟩
  · rw [hsorted] at hd
    exact absurd (congrArg Dict.entries hd) hne
  rw [hsorted] at hd hmem
  obtain ⟨found, hfound⟩ := List.exists_mem_of_ne_nil _ hne
  obtain ⟨target, htarget, hpairs⟩ := (mem_collect_iff hd found).mp hfound
  -- a debt that is kept is not below four fifths of the first one, which is not negative then
  have hlarge := (targetPairs_eq_some hpairs).2
  have hle : (target.1 : ℚ) ≤ first.1 := by exact_mod_cast le_first hsorted htarget
  have hnonneg : (0 : ℚ) ≤ first.1 := by linarith
  -- as its value is not negative, the simulation has gone through the collaterals
  obtain ⟨debt, hdebt, hpos, rfl⟩ := (hmem first).mp List.mem_cons_self
  have hcol' := hcol ⟨debt, hdebt, hpos, by exact_mod_cast hnonneg⟩
  have hlisted {entry : String × CompReserve} (hentry : entry ∈ reserves.entries)
      (hdebt : 0 < entry.2.debtAmount) : Listed ctk entry.1 := (hsound entry hentry).listed hdebt
  -- the pairs are over the same collaterals for each debt: there are some for one debt exactly if
  -- there are some for another
  have hsome : pairsFor reserves ctk com (targetOf ctk com debt) ≠ [] := by
    obtain ⟨entry, hentry, hentry', rfl⟩ := (hmem target).mp htarget
    rw [targetPairs_eq (hlisted hentry hentry') hcol', Except.ok.injEq] at hpairs
    intro hnil
    rw [if_pos (.inr (pairsFor_eq_nil_iff.mpr (pairsFor_eq_nil_iff.mp hnil)))] at hpairs
    exact Option.some_ne_none _ hpairs.symm
  refine ⟨debt, hdebt, ⟨hpos, fun other hother hother' ↦ ?_⟩, hsome, ?_⟩
  · have hmem' := (hmem (targetOf ctk com other)).mpr ⟨other, hother, hother', rfl⟩
    rw [← hsorted, mem_sortedReverse] at hmem'
    exact le_of_sortedReverse_eq_cons hsorted hmem'
  · obtain ⟨found', rest, hfound', -, hentries⟩ := collect_cons_eq_ok hd
    have hkept : ¬ ((targetOf ctk com debt).1 : ℚ) < (targetOf ctk com debt).1 * (4 / 5) := by
      linarith
    rw [targetPairs_eq (hlisted hdebt hpos) hcol', if_neg (not_or.mpr ⟨hkept, hsome⟩),
      Except.ok.injEq] at hfound'
    rw [← hfound'] at hentries
    exact ⟨rest, hentries⟩

/-- **The gate.** The first pair of the first debt promises enough if and only if some collateral
does for that debt. -/
theorem gate_iff {d : Dict String (List LiqPairFull)}
    (h : liquidationSimulation reserves ctk com = .ok d) (hne : d.entries ≠ []) :
    ∃ key pairs rest first others, d.entries = (key, pairs) :: rest ∧ pairs = first :: others ∧
      (desiredProfitScale ≤ first.profit ↔ GateOpen reserves ctk com) := by
  obtain ⟨debt, hdebt, hlargest, hsome, rest, hentries⟩ := entries_liquidationSimulation h hne
  rcases hsorted : sortedReverse (fun pair : LiqPairFull ↦ pair.profit)
    (pairsFor reserves ctk com (targetOf ctk com debt)) with _ | ⟨first, others⟩
  · exact absurd (List.Perm.nil_eq (hsorted ▸ perm_sortedReverse)).symm hsome
  refine ⟨_, _, rest, first, others, hentries, hsorted, fun hfirst ↦ ?_, ?_⟩
  · have hmem : first ∈ pairsFor reserves ctk com (targetOf ctk com debt) :=
      mem_sortedReverse.mp (hsorted ▸ List.mem_cons_self)
    obtain ⟨collateral, hcollateral, hcol, rfl⟩ := mem_pairsFor_iff.mp hmem
    exact ⟨debt, hdebt, hlargest, collateral, hcollateral, hcol, hfirst⟩
  · rintro ⟨debt', hdebt', hlargest', collateral, hcollateral, hcol, hprofit⟩
    have htarget := hlargest'.targetOf_eq hdebt' hdebt hlargest
    have hmem : pairOf ctk com debt'.1 (closeAmount ctk com debt') collateral
        ∈ pairsFor reserves ctk com (targetOf ctk com debt) :=
      mem_pairsFor_iff.mpr ⟨collateral, hcollateral, hcol, by rw [← htarget]; rfl⟩
    exact hprofit.trans (le_of_sortedReverse_eq_cons hsorted hmem)

end First

/-! ## Users -/

section Users

variable {L : Type} {env : SignalEnv L} {res : SimResult} {s : SignalState}

variable (env res s) in
/-- `liquidation_start` is called for the user when the loop comes to it. -/
def Starts : Prop :=
  ∃ call routTokens, (signalCall env res).run s.routTokens = (.ok (some call), routTokens) ∧
    call.usr = res.usr

variable (env res s) in
/-- From the pairs of the user `profit_simulation` selects one with enough actual profit. -/
def Worthwhile : Prop :=
  ∃ liqPairs liqPair paths routTokens,
    liquidationSimulation res.reserves (simulationInfos env.ctk) env.comet = .ok liqPairs ∧
    (profitSimulation env liqPairs).run s.routTokens = (.ok (some (liqPair, paths)), routTokens) ∧
    desiredProfitScale ≤ liqPair.profit

/-- A user for whom there is a call gets the tasks of the call. -/
theorem run_signalBody {call : LiqCall} {routTokens : List Token}
    (h : (signalCall env res).run s.routTokens = (.ok (some call), routTokens)) :
    (signalBody env res).run s = (((call.start env.toLiqEnv).run s.toLiquidator).1,
      ⟨((call.start env.toLiqEnv).run s.toLiquidator).2, routTokens⟩) := by
  rw [signalBody, Proc.run_bind, Proc.run_zoom, h]
  rfl

/-- What is left for a user for whom the simulation has found something. -/
theorem run_signalCall (hvalue : 0 < res.newHealthFactor.value ∧ res.newHealthFactor.value < 1)
    {liqPairs : Dict String (List LiqPairFull)}
    (h : liquidationSimulation res.reserves (simulationInfos env.ctk) env.comet = .ok liqPairs)
    {key : String} {first : LiqPairFull} {others : List LiqPairFull}
    {rest : List (String × List LiqPairFull)}
    (hentries : liqPairs.entries = (key, first :: others) :: rest) (routTokens : List Token) :
    (signalCall env res).run routTokens
      = if first.profit < desiredProfitScale then (.ok none, routTokens)
        else (callFor env res liqPairs).run routTokens := by
  have hnorm : res.newHealthFactor.value / hfThreshold < 1 ∧
      0 < res.newHealthFactor.value / hfThreshold := by
    rw [hfThreshold, div_one]
    exact hvalue.symm
  have hkeys : liqPairs.keys = key :: rest.map Prod.fst := by
    rw [Dict.keys, hentries, List.map_cons]
  have hitem : liqPairs.item key = .ok (first :: others) :=
    Dict.item_eq_ok_iff.mpr (Dict.get?_eq_some_iff.mpr (hentries ▸ List.mem_cons_self))
  rw [signalCall, if_neg (not_not.mpr hnorm), h]
  simp only [Proc.run_bind, Proc.run_ofExcept, hkeys, hitem, List.head?_cons,
    Proc.run_ofOption_some]
  by_cases hsmall : first.profit < desiredProfitScale
  · rw [if_pos hsmall, if_pos hsmall]
    rfl
  · rw [if_neg hsmall, if_neg hsmall]

/-- A user with a worthwhile pair is skipped at the gate or not at all. -/
theorem starts_iff_gateOpen
    (hvalue : 0 < res.newHealthFactor.value ∧ res.newHealthFactor.value < 1)
    (hworth : Worthwhile env res s) :
    Starts env res s ↔ GateOpen res.reserves (simulationInfos env.ctk) env.comet := by
  obtain ⟨liqPairs, liqPair, paths, routTokens, hpairs, hselected, hprofit⟩ := hworth
  -- without any pairs nothing would have been selected
  have hne : liqPairs.entries ≠ [] := by
    intro hnil
    rw [profitSimulation, hnil] at hselected
    cases hselected
  obtain ⟨key, _, rest, first, others, hentries, rfl, hgate⟩ := gate_iff hpairs hne
  rw [← hgate, Starts, run_signalCall hvalue hpairs hentries]
  by_cases hsmall : first.profit < desiredProfitScale
  · rw [if_pos hsmall]
    refine iff_of_false ?_ hsmall.not_ge
    rintro ⟨call, routTokens, hstart, -⟩
    cases hstart
  · rw [if_neg hsmall, callFor, Proc.run_bind, hselected]
    simp only [if_neg hprofit.not_gt]
    exact iff_of_true ⟨_, routTokens, rfl, rfl⟩ (not_lt.mp hsmall)

end Users

/-! ## Lists of users -/

section Lists

variable {L : Type} {env : SignalEnv L}

/-- Users behind others have their turn in the state that these leave. -/
theorem run_signalSimulateHealthFactor_append (before after : List SimResult) {s s' : SignalState}
    {tasks : List SendResult}
    (h : (signalSimulateHealthFactor env (before ++ after)).run s = (.ok tasks, s')) :
    ∃ tasks₁ s₁ tasks₂, (signalSimulateHealthFactor env before).run s = (.ok tasks₁, s₁) ∧
      (signalSimulateHealthFactor env after).run s₁ = (.ok tasks₂, s') ∧
      tasks = tasks₁ ++ tasks₂ := by
  induction before generalizing s tasks with
  | nil => exact ⟨[], s, tasks, rfl, h, rfl⟩
  | cons res before ih =>
    rw [List.cons_append] at h
    obtain ⟨tasks₀, s₀, hbody, hrest⟩ := Proc.run_bind_ok h
    obtain ⟨others, s₁, hothers, hreturn⟩ := Proc.run_bind_ok hrest
    obtain ⟨htasks, rfl⟩ := Prod.mk.inj hreturn
    -- a run without exceptions has none in the turn of `res` nor behind it
    obtain ⟨tasks₁, s₂, tasks₂, hbefore, hafter, rfl⟩ := ih hothers
    refine ⟨tasks₀ ++ tasks₁, s₂, tasks₂, ?_, hafter, ?_⟩
    · rw [signalSimulateHealthFactor, Proc.run_bind_of_ok hbody, Proc.run_bind_of_ok hbefore]
      rfl
    · rw [← Except.ok.inj htasks, List.append_assoc]

/-- **What the gate discards.** In a run without exceptions, a user with a health factor between 0
and 1 and a worthwhile pair has the liquidation started if and only if some collateral promises
enough for the first debt. -/
theorem starts_iff_of_worthwhile {before after : List SimResult} {res : SimResult}
    {s s' : SignalState} {tasks : List SendResult}
    (hrun : (signalSimulateHealthFactor env (before ++ res :: after)).run s = (.ok tasks, s'))
    (hvalue : 0 < res.newHealthFactor.value ∧ res.newHealthFactor.value < 1) :
    ∃ tasks₁ s₁, (signalSimulateHealthFactor env before).run s = (.ok tasks₁, s₁) ∧
      (Worthwhile env res s₁ →
        (Starts env res s₁ ↔ GateOpen res.reserves (simulationInfos env.ctk) env.comet)) := by
  obtain ⟨tasks₁, s₁, -, hbefore, -⟩ := run_signalSimulateHealthFactor_append before _ hrun
  exact ⟨tasks₁, s₁, hbefore, starts_iff_gateOpen hvalue⟩

end Lists

/-! ## Two debts of two hundred dollars -/

/-- A market with a unit exchange rate and its token. -/
def swapMarket (price : ℤ) (underlying : Token) : CtokenInfosSwap :=
  { marketAt price with configs := ⟨18, 0, 0⟩, underlying := underlying }

/-- BNB at 250 dollars, with the only pool, USDT at a dollar, and BUSD at this price. -/
def busdEnv (price : ℤ) : SignalEnv Unit where
  net := .bsc
  sel := .venus
  signTransaction := testSign
  ctk := ((Dict.set ∅ vBNB (swapMarket (250 * 10 ^ 18) wbnb)).set vBUSD (swapMarket price busd)).set
    vUSDT (swapMarket (10 ^ 18) usdt)
  comet := twoMarketsComet
  blockInfos := ⟨0, 5 * 10 ^ 9⟩
  pools := Dict.set ∅ (genPoolKey wbnb usdt).1
    (some ⟨(usdt.text, wbnb.text), "0x16b9a82891338f9bA80E2D6970FddA79D1eb0daE", (), 25⟩)
  swapFunc _ amountOut _ := .ok (amountOut / 250)
  sigGasPrice := none
  sendType := testSendType

/-- A user with BNB. Half of the BUSD debt is 1798 units below two hundred, half of the USDT debt is
two hundred. -/
def busdUser : SimResult where
  usr := testUser
  newHealthFactor := ⟨9 / 10, 8 * 10 ^ 20, 0⟩
  reserves := ((Dict.set ∅ vBNB ⟨36 * 10 ^ 17, 1, 0, 0⟩).set vBUSD
    ⟨0, 0, 4 * 10 ^ 20 - 3596, 10 ^ 18⟩).set vUSDT ⟨0, 0, 4 * 10 ^ 20, 10 ^ 18⟩
  uniqueId := testUser

/-- The USDT debt has been liquidated before, and no token is left for routes. -/
def busdState : SignalState where
  usersToLiquidate := Dict.set ∅ testUser (Dict.set ∅ vUSDT (2 * 10 ^ 20, testUser))
  accounts := []
  routTokens := []

/-- The user's USDT debt is worthwhile: the swap costs what the market does. -/
private theorem worthwhile_busdUser {price : ℤ} {liqPairs : Dict String (List LiqPairFull)}
    (hpairs : liquidationSimulation busdUser.reserves (simulationInfos (busdEnv price).ctk)
      twoMarketsComet = .ok liqPairs)
    (hselected : (profitSimulation (busdEnv price) liqPairs).run [] = (.ok (some (⟨⟨10 ^ 19, vBNB,
      vUSDT, 2 * 10 ^ 20⟩, 84 * 10 ^ 16⟩, [⟨"0x16b9a82891338f9bA80E2D6970FddA79D1eb0daE", 25, 0,
        usdt.text, wbnb.text, 2 * 10 ^ 20⟩])), [])) :
    Worthwhile (busdEnv price) busdUser busdState :=
  ⟨liqPairs, _, _, _, hpairs, hselected, le_rfl⟩

/-- With BUSD nine units above a dollar, the BUSD debt comes first. The divisions cost it the last
units of its ten dollars, and the user is skipped, although the USDT debt pays ten dollars. -/
theorem not_starts_of_worthwhile : ¬ ∀ (L : Type) (env : SignalEnv L)
    (before after : List SimResult) (res : SimResult) (s s' s₁ : SignalState)
    (tasks tasks₁ : List SendResult),
    (signalSimulateHealthFactor env (before ++ res :: after)).run s = (.ok tasks, s') →
    (signalSimulateHealthFactor env before).run s = (.ok tasks₁, s₁) →
    0 < res.newHealthFactor.value ∧ res.newHealthFactor.value < 1 →
    Worthwhile env res s₁ → Starts env res s₁ := by
  intro h
  have hvalue : 0 < busdUser.newHealthFactor.value ∧ busdUser.newHealthFactor.value < 1 := by
    decide +kernel
  have hrun : ((signalSimulateHealthFactor (busdEnv (10 ^ 18 + 9)) [busdUser]).run busdState).1
      = .ok [] := by
    decide +kernel
  have hpairs : liquidationSimulation busdUser.reserves
      (simulationInfos (busdEnv (10 ^ 18 + 9)).ctk) twoMarketsComet
      = .ok ((Dict.set ∅ vBUSD [⟨⟨9999999999999998248, vBNB, vBUSD, 2 * 10 ^ 20 - 1798⟩,
        84 * 10 ^ 16 - 7⟩]).set vUSDT [⟨⟨10 ^ 19, vBNB, vUSDT, 2 * 10 ^ 20⟩, 84 * 10 ^ 16⟩]) := by
    decide +kernel
  have hworth := worthwhile_busdUser hpairs (by decide +kernel)
  have hgate : ¬ GateOpen busdUser.reserves (simulationInfos (busdEnv (10 ^ 18 + 9)).ctk)
      twoMarketsComet := by
    decide +kernel
  exact hgate ((starts_iff_gateOpen hvalue hworth).mp
    (h Unit _ [] [] busdUser busdState _ busdState [] [] (Prod.ext hrun rfl) rfl hvalue hworth))

/-- With BUSD at a dollar, the USDT debt comes first, and the call is made. -/
theorem starts_iff_of_worthwhile_busd : Starts (busdEnv (10 ^ 18)) busdUser busdState := by
  have hrun : ((signalSimulateHealthFactor (busdEnv (10 ^ 18)) [busdUser]).run busdState).1
      = .ok [] := by
    decide +kernel
  have hpairs : liquidationSimulation busdUser.reserves (simulationInfos (busdEnv (10 ^ 18)).ctk)
      twoMarketsComet = .ok ((Dict.set ∅ vUSDT
        [⟨⟨10 ^ 19, vBNB, vUSDT, 2 * 10 ^ 20⟩, 84 * 10 ^ 16⟩]).set vBUSD
        [⟨⟨10 ^ 19 + 48, vBNB, vBUSD, 2 * 10 ^ 20 - 1798⟩, 84 * 10 ^ 16 - 7⟩]) := by
    decide +kernel
  obtain ⟨tasks₁, s₁, hbefore, hstarts⟩ := @starts_iff_of_worthwhile Unit (busdEnv (10 ^ 18)) [] []
    busdUser busdState _ _ (Prod.ext hrun rfl) (by decide +kernel)
  obtain ⟨-, rfl⟩ := Prod.mk.inj hbefore
  exact (hstarts (worthwhile_busdUser hpairs (by decide +kernel))).mpr (by decide +kernel)

end CompoundLiquidation
