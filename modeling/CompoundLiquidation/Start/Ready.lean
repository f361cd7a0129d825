import CompoundLiquidation.Main.Headers
import CompoundLiquidation.Main.Nonces
import CompoundLiquidation.Start.Aggregators

/-!
# The start

Before the tasks run, the program loads the states of its last run, synchronises them, asks the
chain for everything else, and calculates the health factors of all users once. The first
synchronisation stops a hundred blocks behind the chain, and its exceptions are only reported. All
other exceptions end the program before it has begun.

A start that comes to its end leaves behind all that a run of the program relies on.
-/

namespace CompoundLiquidation

open Python

/-- What the program finds when it is started, and what it is answered. -/
structure StartNode where
  queryMarketsList : Except Error (List String)
  files : Files
  /-- The directory of the modules. -/
  path : String
  /-- The node at the three synchronisations. -/
  first : EthNode
  second : EthNode
  third : EthNode
  queryUserVaiRepay : String → Except Error ℤ
  market : MarketNode
  priceClock : String → ℤ
  liquidationIncentiveMantissa : Except Error ℤ
  closeFactorMantissa : Except Error ℤ
  feeds : FeedNode
  /-- Number, time and base fee of the latest block. -/
  getBlock : Except Error (ℕ × ℤ × ℤ)
  /-- `SECRET_KEYS[NETWORK]`. -/
  secretKeys : List String
  getTransactionCount : String → Except Error ℤ
  getBalance : String → Except Error ℤ
  /-- `query_gas_price` of the validators. -/
  queryGasPrice : Except Error ℤ
  chain : V2Chain
  healthClock : String → ℤ
  uniqueId : String → String
  /-- What the clock shows at the list of an aggregator. -/
  listClock : String → ℤ

/-- A computation that has to come to its end. -/
def finish {σ α : Type} (x : Proc σ Error α) (s : σ) : Except Error (α × σ) :=
  match x.run s with
  | (.ok a, s') => .ok (a, s')
  | (.error e, _) => .error e

theorem finish_ok {σ α : Type} {x : Proc σ Error α} {s s' : σ} {a : α}
    (h : finish x s = .ok (a, s')) : x.run s = (.ok a, s') := by
  rw [finish] at h
  rcases hrun : x.run s with ⟨e | b, t⟩
  · rw [hrun] at h
    cases h
  · rw [hrun] at h
    obtain ⟨rfl, rfl⟩ := Prod.mk.inj (Except.ok.inj h)
    rfl

theorem finish_of_run {σ α : Type} {x : Proc σ Error α} {s s' : σ} {a : α}
    (h : x.run s = (.ok a, s')) : finish x s = .ok (a, s') := by
  rw [finish, h]

/-! ## States -/

/-- The VAI debts that have changed, for users who have to be in the states. -/
def refreshVaiRepay (queryUserVaiRepay : String → Except Error ℤ) : Proc States Error Unit := do
  let s ← Proc.read
  match s.plugIn with
  | none => pure ()
  | some plugIn =>
    Proc.forEach plugIn.storage.keys fun usr ↦ do
      let vaiRepay ← Proc.ofExcept (queryUserVaiRepay usr)
      let s ← Proc.read
      let _ ← Proc.ofExcept (s.usersStates.item usr)
      Proc.modify (States.setVaiRepay usr vaiRepay)
    Proc.modify States.clearStorage

/-- `P_ALIAS['vai']`. Only the deployment on BSC has it. -/
def vai : Network → Selector → Option String
  | .bsc, .venus => some "0x004065D34C6b18cE4370ced1CeBDE94865DbFAFE"
  | _, _ => none

/-- `VaiState`, whose address is in the configuration. -/
def initVaiState (net : Network) (sel : Selector) : Except Error VaiState := do
  let _ ← okOr (vai net sel) (.keyError "vai")
  return ⟨∅⟩

/-- The states of the last run, synchronised to the latest block, and the files of this run. -/
def latestStates (env : MainEnv Reserves) (cfg : PAlias) (node : StartNode)
    (reservesInit : List String) : Except Error (States × Files) := do
  let states ← reloadStates cfg reservesInit node.path node.files
  let eventVaiRepay ← initVaiState env.net env.sel
  -- an exception of the first synchronisation is reported, and what has been done stays
  let (_, states) := (plainStates.syncStates env.lib node.first 100).run
    { states with plugIn := some eventVaiRepay }
  let (_, states) ← finish (refreshVaiRepay node.queryUserVaiRepay) states
  let (states, files) := states.cache cfg node.path node.files
  let (_, states) ← finish (plainStates.syncStates env.lib node.second 0) states
  return (states, files)

/-- The three loops over the markets. -/
def completeCtokens (node : StartNode) (ctokens : Dict String CtokenInfos)
    (reservesInit : List String) :
    Except Error (Dict String MarketConfigs × Dict String CtokenInfos) := do
  let configs ← completeCtokensConfigsInfo node.market ctokens reservesInit
  let ctokens ← completeCtokensRisks node.market reservesInit ctokens
  let ctokens ← completeCtokensPriceInfo node.market node.priceClock reservesInit ctokens
  return (configs, ctokens)

/-- `init_comet_configs`. -/
def queryCometConfigs (node : StartNode) (reserves : List String) (blockNum : ℤ) :
    Except Error CometConfigs := do
  let liquidationIncentive ← node.liquidationIncentiveMantissa
  let clossFactor ← node.closeFactorMantissa
  let ctokensCf ← Dict.fill node.market.markets reserves ∅
  return ⟨liquidationIncentive, clossFactor, ctokensCf, blockNum⟩

/-- `init_block_infos`. The gas price comes with the first header. -/
def initBlockInfos (node : StartNode) : Except Error ChainInfos := do
  let (blockNum, blockTime, baseFee) ← node.getBlock
  return ⟨⟨baseFee, 0⟩, blockNum, blockTime⟩

/-! ## Sending -/

/-- `init_accounts`. -/
def initAccounts (address : String → String) (getTransactionCount : String → Except Error ℤ) :
    List String → Except Error (List AccCompound)
  | [] => .ok []
  | sk :: secretKeys => do
    let nonce ← getTransactionCount (address sk)
    let accounts ← initAccounts address getTransactionCount secretKeys
    return ⟨sk, nonce, []⟩ :: accounts

/-- `BnB48Sender.__init__` with what it asks, for the price of the chain's own token. -/
def initSender (bnb48Address : String) (node : StartNode) (ctokens : Dict String CtokenInfos) :
    Except Error BnB48Sender := do
  let infos ← ctokens.item nativeCtoken
  let bnbPrice ← infos.priceCurrent
  let transactionCount ← node.getTransactionCount bnb48Address
  let balance ← node.getBalance bnb48Address
  let gasPrice ← node.queryGasPrice
  return .init transactionCount balance gasPrice bnbPrice

/-- `init_send_type`, with `aggr`. -/
def initSendType : Network → SendType × String
  | .polygon => (⟨500000, 0, .createType0Tx, .createType2Tx, none, 0⟩, "")
  | .bsc => (⟨1500000, 0, .createType0Tx, .createType0Tx, none, 0⟩,
      "0x137924D7C36816E0DcAF016eB617Cc2C92c05782")
  | .ethereum => (⟨1500000, toFloat (4 / 5), .createType2Tx, .createType2Tx, none, 0⟩, "")

/-- The market that the gas is priced with: the first one of the aggregator. -/
def completeSendType (signals : Signals) (sendType : SendType) (aggr : String) :
    Except Error SendType :=
  if aggr = "" then .ok sendType
  else do
    let res ← signals.signalTokenMap.item aggr.toLower
    let infos ← okOr res.head? .indexError
    return { sendType with
      priceToken := some infos.token
      priceDecimals := infos.priceDecimals.toNat }

/-! ## The main module -/

/-- No market: the tasks ask for the markets of the comptroller only. -/
def unlisted : MarketConfigs := newCtokenConfigs addressZero wbnb 18

/-- The surroundings of the tasks, from the markets and the pools. -/
def MainEnv.withMarkets (base : MainEnv Reserves) (reservesInit : List String)
    (configs : Dict String MarketConfigs) (pools : Dict String (Option (Pool Reserves)))
    (sendType : SendType) : MainEnv Reserves :=
  { base with
    reservesInit := reservesInit
    configs := fun token ↦ (configs.getD token unlisted).toCtokenConfigs
    underlying := fun token ↦ (configs.getD token unlisted).underlying
    pools := pools
    swapFunc := SwapV2.swapSimulation
    sendType := sendType }

theorem MainEnv.withMarkets_of_get? {base : MainEnv Reserves} {reservesInit : List String}
    {configs : Dict String MarketConfigs} {pools : Dict String (Option (Pool Reserves))}
    {sendType : SendType} {token : String} {found : MarketConfigs}
    (h : configs.get? token = some found) :
    (base.withMarkets reservesInit configs pools sendType).configs token = found.toCtokenConfigs ∧
      (base.withMarkets reservesInit configs pools sendType).underlying token
        = found.underlying := by
  obtain rfl : configs.getD token unlisted = found := Dict.getD_of_get? h
  exact ⟨rfl, rfl⟩

/-- `complete_states_info`. -/
def completeStatesInfo (clock : String → ℤ) (comet : CometConfigs) (states : States) :
    Except Error (List HfResult × States) := do
  let results ← healthFactors clock comet states states.usersStates.keys
  let (_, states) ← finish (States.writeHealthFactor results) states
  return (results, states)

/-- `pre_set`: what the liquidations at the start leave of the accounts and the attempts. The sender
of this call keeps nothing. -/
def preSet (env : MainEnv Reserves) (uniqueId : String → String)
    (ctokens : Dict String CtokenInfos) (comet : CometConfigs) (blockInfos : BlockInfos)
    (results : List HfResult) (trading : SignalState) :
    Except Error (List SendResult × SignalState) :=
  finish (signalSimulateHealthFactor (env.signalEnv ctokens comet blockInfos none)
    (results.map fun res ↦
      { usr := res.1, newHealthFactor := res.2.1, reserves := res.2.2,
        uniqueId := uniqueId res.1 })) trading

/-- The start up to the lists, with the files that it leaves. -/
def prepared (base : MainEnv Reserves) (node : StartNode) :
    Except Error (MainEnv Reserves × Main HighProfitSates × Files) := do
  let cfg ← okOr (pAlias base.net base.sel) (.keyError "")
  let routTokens ← okOr (routsTokens base.net) (.keyError "")
  let reservesInit ← node.queryMarketsList
  let (states, files) ← latestStates base cfg node reservesInit
  let (configs, ctokens) ← completeCtokens node states.ctokens reservesInit
  let comet ← queryCometConfigs node reservesInit states.lastUpdate
  let (signals, _) ← initSignals node.feeds configs reservesInit
  let blockInfos ← initBlockInfos node
  let accounts ← initAccounts base.address node.getTransactionCount node.secretKeys
  let sender ← initSender base.bnb48Address node ctokens
  let sendType ← completeSendType signals (initSendType base.net).1 (initSendType base.net).2
  let (_, pools) ← finish (initRouterPools (SwapV2.queryMaxLiqPool node.chain 25) configs
    reservesInit) ∅
  let env := base.withMarkets reservesInit configs pools sendType
  let (results, states) ← completeStatesInfo node.healthClock comet
    { states with ctokens := ctokens }
  let (_, trading) ← preSet env node.uniqueId states.ctokens comet blockInfos.toBlockInfos results
    ⟨⟨∅, accounts⟩, routTokens⟩
  return (env, {
    globals := ⟨.new states desiredProfitScale, comet, signals, ∅⟩
    blockInfos := blockInfos
    trading := trading
    sender := sender
    signalRecv := none
    usersPending := []
    prevBlock := 0
    signalTask := none
    idleTask := none
    failures := fun _ ↦ 0 }, files)

/-- The start up to the tasks. -/
def ready (base : MainEnv Reserves) (node : StartNode) :
    Except Error (MainEnv Reserves × Main HighProfitSates × Files) := do
  let (env, m, files) ← prepared base node
  let (_, globals) ← finish (startUp env highProfitSates node.listClock node.third) m.globals
  return (env, { m with globals := globals }, files)

/-! ## What the start leaves behind -/

section Start

variable {L : Type} {env : MainEnv L} {S : Type} {K : StatesClass S}

variable (K) in
/-- The quotes and the settings of the comptroller are the same. -/
def SameMarkets (g g' : Globals S) : Prop :=
  SameQuotes (K.states g.states) (K.states g'.states) ∧ g'.comet = g.comet

theorem SameMarkets.refl (g : Globals S) : SameMarkets K g g := ⟨.refl _, rfl⟩

theorem SameMarkets.trans (g g' g'' : Globals S) (h : SameMarkets K g g')
    (h' : SameMarkets K g' g'') : SameMarkets K g g'' :=
  ⟨SameQuotes.trans _ _ _ h.1 h'.1, h'.2.trans h.2⟩

/-- The lists and the last synchronisation leave the markets alone. -/
theorem sameMarkets_startUp (hK : K.Extends) (clock : String → ℤ) (node : EthNode) :
    Proc.Keeps (SameMarkets K) (startUp env K clock node) := by
  refine Proc.keeps_bind SameMarkets.trans (Proc.keeps_modify .refl) fun _ ↦ ?_
  refine Proc.keeps_bind SameMarkets.trans (Proc.keeps_read .refl) fun g ↦ ?_
  refine Proc.keeps_bind SameMarkets.trans
    (Proc.keeps_forEach .refl SameMarkets.trans _ fun aggr _ ↦ ?_) fun _ g ↦ ?_
  · refine Proc.keeps_bind SameMarkets.trans (Proc.keeps_read .refl) fun g ↦ ?_
    refine Proc.keeps_bind SameMarkets.trans (Proc.keeps_ofExcept .refl _) fun tokens ↦ ?_
    refine Proc.keeps_bind SameMarkets.trans (Proc.keeps_ofExcept .refl _) fun users ↦ ?_
    exact Proc.keeps_modify .refl
  · rw [Proc.run_zoom]
    exact ⟨keeps_syncStates SameQuotes.refl SameQuotes.trans (sameQuotes_updateAll hK env.lib)
      (fun _ _ ↦ .of_ctokens rfl) (fun _ _ _ ↦ .of_ctokens rfl) node 0 g.states, rfl⟩

theorem sameMarkets_of_startUp (hK : K.Extends) {clock : String → ℤ} {node : EthNode}
    {g g' : Globals S} (h : (startUp env K clock node).run g = (.ok (), g')) :
    SameMarkets K g g' := by
  have hkeeps := @sameMarkets_startUp L env S K hK clock node g
  rw [h] at hkeeps
  exact hkeeps

theorem keys_initAccounts {address : String → String}
    {getTransactionCount : String → Except Error ℤ} {secretKeys : List String} :
    ∀ {accounts : List AccCompound},
      initAccounts address getTransactionCount secretKeys = .ok accounts →
      accounts.map AccCompound.key = secretKeys := by
  induction secretKeys with
  | nil =>
    intro accounts h
    rw [← Except.ok.inj h]
    rfl
  | cons sk secretKeys ih =>
    intro accounts h
    obtain ⟨nonce, -, h⟩ := exists_of_bind_ok h
    obtain ⟨rest, hrest, h⟩ := exists_of_bind_ok h
    rw [← Except.ok.inj h, List.map_cons, ih hrest]

/-- The liquidations at the start count the accounts up, and leave their keys. -/
theorem keys_preSet {env : MainEnv Reserves} {uniqueId : String → String}
    {ctokens : Dict String CtokenInfos} {comet : CometConfigs} {blockInfos : BlockInfos}
    {results : List HfResult} {trading trading' : SignalState} {tasks : List SendResult}
    (h : preSet env uniqueId ctokens comet blockInfos results trading = .ok (tasks, trading')) :
    trading'.accounts.map AccCompound.key = trading.accounts.map AccCompound.key := by
  have hwrites : Proc.Writes (fun s ledger s' ↦
      Asks (fun _ _ ↦ True) (env.signalEnv ctokens comet blockInfos none).signTransaction
        s.accounts ledger s'.accounts) Recorded
      (signalSimulateHealthFactor (env.signalEnv ctokens comet blockInfos none)
        (results.map fun res ↦ ⟨res.1, res.2.1, res.2.2, uniqueId res.1⟩)) :=
    writes_signalSimulateHealthFactor fun _ _ _ _ _ _ _ _ _ ↦ trivial
  obtain ⟨ledger, hasks, -⟩ := hwrites trading
  have hrun := finish_ok h
  rw [hrun] at hasks
  exact hasks.keys

theorem exists_init_of_initSignals {feeds : FeedNode} {configs : Dict String MarketConfigs}
    {reserves : List String} {signals : Signals} {eventFilter : List (Dict String String)}
    (h : initSignals feeds configs reserves = .ok (signals, eventFilter)) :
    ∃ sourceTokenMap, signals = .init sourceTokenMap := by
  obtain ⟨found, -, h⟩ := exists_of_bind_ok h
  exact ⟨_, (Prod.mk.inj (Except.ok.inj h)).1.symm⟩

theorem sameQuotes_completeStatesInfo {clock : String → ℤ} {comet : CometConfigs}
    {states states' : States} {results : List HfResult}
    (h : completeStatesInfo clock comet states = .ok (results, states')) :
    SameQuotes states states' := by
  obtain ⟨results', -, h⟩ := exists_of_bind_ok h
  obtain ⟨⟨_, written⟩, hwritten, h⟩ := exists_of_bind_ok h
  obtain ⟨-, rfl⟩ := Prod.mk.inj (Except.ok.inj h)
  have hkeeps := keeps_writeHealthFactor SameQuotes.refl SameQuotes.trans
    (fun _ _ _ ↦ .of_ctokens rfl) results' states
  rw [finish_ok hwritten] at hkeeps
  exact hkeeps

end Start

/-- A run can rely on this. -/
structure Main.Ready (node : StartNode) (env : MainEnv Reserves) (m : Main HighProfitSates) :
    Prop where
  atStart : m.AtStart env highProfitSates
  /-- Every aggregator has a list. -/
  listed : ∀ aggr ∈ m.globals.signals.signalTokenMap.keys, aggr ∈ m.globals.usersPreFiltered.keys
  known : m.Known highProfitSates
  failures : ∀ task, m.failures task = 0
  /-- Each market has the configuration and the collateral factor that the contracts answer. -/
  configured : ∀ reserve ∈ env.reservesInit, ∃ configs collateralFactor,
    queryCtokensConfigs node.market reserve = .ok configs ∧
    env.configs reserve = configs.toCtokenConfigs ∧ env.underlying reserve = configs.underlying ∧
    node.market.markets reserve = .ok collateralFactor ∧
    m.globals.comet.ctokensCollateralFactor.get? reserve = some collateralFactor
  /-- Each market has the price and the exchange rate of the chain. -/
  quoted : ∀ reserve ∈ env.reservesInit, ∃ price exchangeRate,
    node.market.getUnderlyingPrice reserve = .ok price ∧
    node.market.exchangeRateStored reserve = .ok exchangeRate ∧
    m.quote? highProfitSates reserve
      = some ⟨some (.init price (node.priceClock reserve)), exchangeRate⟩
  /-- Any two markets have the pool of the factory for their tokens. -/
  pooled : ∀ a b, [a, b].Sublist env.reservesInit → ∃ pool,
    SwapV2.queryMaxLiqPool node.chain 25 (sortedPair (env.underlying a) (env.underlying b))
      = .ok pool ∧
    env.pools.get? (genPoolKey (env.underlying a) (env.underlying b)).1 = some pool
  keyed : PoolsKeyed env.pools
  keys : m.accountKeys = node.secretKeys
  /-- The other deployments have no address for `VaiState`. -/
  net : env.net = .bsc

theorem Main.Ready.priced {node : StartNode} {env : MainEnv Reserves} {m : Main HighProfitSates}
    (h : m.Ready node env) : m.Priced env highProfitSates := by
  intro reserve hreserve
  obtain ⟨price, exchangeRate, -, -, hquote⟩ := h.quoted reserve hreserve
  exact ⟨_, _, hquote, rfl⟩

theorem completeCtokens_ok {node : StartNode} {ctokens ctokens' : Dict String CtokenInfos}
    {reservesInit : List String} {configs : Dict String MarketConfigs}
    (h : completeCtokens node ctokens reservesInit = .ok (configs, ctokens')) :
    (∀ reserve ∈ reservesInit, ∃ found, queryCtokensConfigs node.market reserve = .ok found ∧
      configs.get? reserve = some found) ∧
    ∀ reserve ∈ reservesInit, ∃ infos price, ctokens'.get? reserve = some infos ∧
      node.market.getUnderlyingPrice reserve = .ok price ∧
      infos.price = some (.init price (node.priceClock reserve)) ∧
      node.market.exchangeRateStored reserve = .ok infos.risks.exchangeRate := by
  obtain ⟨found, hconfigs, h⟩ := exists_of_bind_ok h
  obtain ⟨between, hrisks, h⟩ := exists_of_bind_ok h
  obtain ⟨behind, hprices, h⟩ := exists_of_bind_ok h
  obtain ⟨rfl, rfl⟩ := Prod.mk.inj (Except.ok.inj h)
  refine ⟨fun reserve hreserve ↦ ?_, fun reserve hreserve ↦
    quote_of_complete hrisks hprices hreserve⟩
  obtain ⟨configs, hask, hget⟩ := (Dict.fill_ok hconfigs).1 reserve hreserve
  obtain ⟨configs', hquery, hask⟩ := exists_of_bind_ok hask
  obtain ⟨infos, -, hask⟩ := exists_of_bind_ok hask
  rw [← Except.ok.inj hask] at hget
  exact ⟨configs', hquery, hget⟩

theorem queryCometConfigs_ok {node : StartNode} {reserves : List String} {blockNum : ℤ}
    {comet : CometConfigs} (h : queryCometConfigs node reserves blockNum = .ok comet) :
    ∀ reserve ∈ reserves, ∃ collateralFactor,
      node.market.markets reserve = .ok collateralFactor ∧
      comet.ctokensCollateralFactor.get? reserve = some collateralFactor := by
  obtain ⟨liquidationIncentive, -, h⟩ := exists_of_bind_ok h
  obtain ⟨clossFactor, -, h⟩ := exists_of_bind_ok h
  obtain ⟨ctokensCf, hfill, h⟩ := exists_of_bind_ok h
  rw [← Except.ok.inj h]
  exact (Dict.fill_ok hfill).1

theorem latestStates_ok {env : MainEnv Reserves} {cfg : PAlias} {node : StartNode}
    {reservesInit : List String} {latest : States × Files}
    (h : latestStates env cfg node reservesInit = .ok latest) : env.net = .bsc := by
  obtain ⟨_, -, h⟩ := exists_of_bind_ok h
  obtain ⟨_, hplugIn, -⟩ := exists_of_bind_ok h
  obtain ⟨address, haddress, -⟩ := exists_of_bind_ok hplugIn
  cases hnet : env.net with
  | bsc => rfl
  | ethereum | polygon =>
    rw [hnet] at haddress
    cases haddress

/-- A start that comes to its end. -/
theorem ready_ok {base env : MainEnv Reserves} {node : StartNode} {m : Main HighProfitSates}
    {files : Files} (hready : ready base node = .ok (env, m, files)) : m.Ready node env := by
  obtain ⟨⟨_, prep, _⟩, h, hlists⟩ := exists_of_bind_ok hready
  obtain ⟨⟨_, globals⟩, hstarted, hlists⟩ := exists_of_bind_ok hlists
  obtain ⟨rfl, hout⟩ := Prod.mk.inj (Except.ok.inj hlists)
  obtain ⟨rfl, rfl⟩ := Prod.mk.inj hout
  clear hready hlists hout
  obtain ⟨cfg, -, h⟩ := exists_of_bind_ok h
  obtain ⟨routTokens, -, h⟩ := exists_of_bind_ok h
  obtain ⟨reservesInit, -, h⟩ := exists_of_bind_ok h
  obtain ⟨⟨latest, files'⟩, hlatest, h⟩ := exists_of_bind_ok h
  obtain ⟨⟨configs, ctokens⟩, hctokens, h⟩ := exists_of_bind_ok h
  obtain ⟨comet, hcomet, h⟩ := exists_of_bind_ok h
  obtain ⟨⟨signals, eventFilter⟩, hsignals, h⟩ := exists_of_bind_ok h
  obtain ⟨blockInfos, -, h⟩ := exists_of_bind_ok h
  obtain ⟨accounts, haccounts, h⟩ := exists_of_bind_ok h
  obtain ⟨sender, -, h⟩ := exists_of_bind_ok h
  obtain ⟨sendType, -, h⟩ := exists_of_bind_ok h
  obtain ⟨⟨_, pools⟩, hpools, h⟩ := exists_of_bind_ok h
  obtain ⟨⟨results, states⟩, hstates, h⟩ := exists_of_bind_ok h
  obtain ⟨⟨tasks, trading⟩, htrading, h⟩ := exists_of_bind_ok h
  obtain ⟨henv, hout⟩ := Prod.mk.inj (Except.ok.inj h)
  obtain ⟨rfl, rfl⟩ := Prod.mk.inj hout
  subst henv
  clear h hout
  obtain ⟨hconfigs, hquotes⟩ := completeCtokens_ok hctokens
  obtain ⟨hasked, hpooled⟩ := initRouterPools_ok (finish_ok hpools)
  obtain ⟨sourceTokenMap, rfl⟩ := exists_init_of_initSignals hsignals
  have hextends := HighProfitSates.extends_highProfitSates
  obtain ⟨hsame, hcometSame⟩ := sameMarkets_of_startUp hextends (finish_ok hstarted)
  refine ⟨?atStart, Main.AtStart.listed hextends ?atStart, Main.AtStart.known hextends ?atStart,
    fun _ ↦ rfl, fun reserve hreserve ↦ ?_, fun reserve hreserve ↦ ?_, fun a b hab ↦ ?_, ?_, ?_,
    latestStates_ok hlatest⟩
  case atStart =>
    exact ⟨⟨sourceTokenMap, _, node.listClock, node.third, rfl, finish_ok hstarted⟩, rfl, rfl, rfl⟩
  · obtain ⟨found, hquery, hfound⟩ := hconfigs reserve hreserve
    obtain ⟨collateralFactor, hmarkets, hfactor⟩ := queryCometConfigs_ok hcomet reserve hreserve
    obtain ⟨hconfigs', hunderlying⟩ := MainEnv.withMarkets_of_get? hfound
    refine ⟨found, collateralFactor, hquery, hconfigs', hunderlying, hmarkets, ?_⟩
    exact (congrArg (fun c : CometConfigs ↦ c.ctokensCollateralFactor.get? reserve)
      hcometSame).trans hfactor
  · -- the three loops set the quote, and nothing behind them changes it
    obtain ⟨infos, price, hinfos, hprice, hquote, hrate⟩ := hquotes reserve hreserve
    refine ⟨price, infos.risks.exchangeRate, hprice, hrate, ?_⟩
    calc States.quote? (highProfitSates.states globals.states) reserve
        = States.quote? states reserve := hsame reserve
      _ = States.quote? { latest with ctokens := ctokens } reserve :=
        sameQuotes_completeStatesInfo hstates reserve
      _ = some ⟨some (.init price (node.priceClock reserve)), infos.risks.exchangeRate⟩ := by
        rw [States.quote?, hinfos, Option.map_some, CtokenInfos.quote, hquote]
  · obtain ⟨configs0, configs1, pool, h0, h1, hpool⟩ := hpooled a b hab
    rw [(MainEnv.withMarkets_of_get? h0).2, (MainEnv.withMarkets_of_get? h1).2]
    exact ⟨pool, hasked _ _ pool hpool, hpool⟩
  · exact hasked.keyed fun pair pool hanswer ↦ (SwapV2.queryMaxLiqPool_eq_some hanswer).2.2.2
  · exact (keys_preSet htrading).trans (keys_initAccounts haccounts)

/-- **From the start on.** Behind a start that comes to its end the program is ready, and in every
state of every run everybody is known and looked up without an exception, every market has a price,
and the accounts are those of the secret keys. -/
theorem ready_run {base env : MainEnv Reserves} {node : StartNode} {m : Main HighProfitSates}
    {files : Files} (h : ready base node = .ok (env, m, files)) :
    m.Ready node env ∧ ∀ events : List Event,
      let m' := runFrom (Main.step env highProfitSates) m events
      m'.Known highProfitSates ∧ m'.Answers highProfitSates ∧ m'.Priced env highProfitSates ∧
        m'.accountKeys = node.secretKeys := by
  have hready := ready_ok h
  have hextends := HighProfitSates.extends_highProfitSates
  refine ⟨hready, fun events ↦ ?_⟩
  have hknown := @known_run Reserves env HighProfitSates highProfitSates hextends m hready.known
    events
  exact ⟨hknown, hknown.answers, hready.priced.run hextends events,
    (accountKeys_run m events).trans hready.keys⟩

/-! ## A small start -/

/-- The answers about BNB and USDT. The second oracle is enabled. -/
def smallMarket : MarketNode where
  underlying ctokenAddr :=
    if ctokenAddr = vUSDT then .ok usdt else .error (.exception "no contract")
  symbol _ := .ok "USDT"
  decimals _ := .ok 18
  getTokenConfig _ := .ok (["0x8455EFA4D7Ff63b8BFD96AdD889483Ea7d39B70a",
    "0x1B2103441A0A108daD8848D8F5d790e4D402921F", addressZero], [false, true, false])
  tokenConfigs oracle asset :=
    if oracle ≠ "0x1B2103441A0A108daD8848D8F5d790e4D402921F" then .ok addressZero
    else if asset = nativeAsset then .ok "0x0567F2323251f0Aab15c8dFb1967E4e8A7D42aeE"
    else .ok "0xB97Ad0E74fa7d920791E90258A6E2085088b4320"
  reserveFactorMantissa _ := .ok 0
  exchangeRateStored _ := .ok (10 ^ 18)
  protocolSeizeShareMantissa _ := .error (.exception "no contract")
  getUnderlyingPrice ctokenAddr := if ctokenAddr = vBNB then .ok (300 * 10 ^ 18) else .ok (10 ^ 18)
  markets _ := .ok (8 * 10 ^ 17)

/-- The states of the last run: two users who have borrowed USDT against BNB. -/
def lastStates : States :=
  .new ((Dict.set ∅ testUser
        ⟨(Dict.set ∅ vBNB ⟨170 * 10 ^ 18, 1, 0, 0⟩).set vUSDT ⟨0, 0, 4 * 10 ^ 22, 10 ^ 18⟩,
          newHealthFactor, 0⟩).set testUser'
        ⟨(Dict.set ∅ vBNB ⟨180 * 10 ^ 18, 1, 0, 0⟩).set vUSDT ⟨0, 0, 4 * 10 ^ 22, 10 ^ 18⟩,
          newHealthFactor, 0⟩)
    ((Dict.set ∅ vBNB ⟨⟨10 ^ 18, 0, 10 ^ 18, 0⟩, newCtokenBalances, none⟩).set vUSDT
      ⟨⟨10 ^ 18, 0, 10 ^ 18, 0⟩, newCtokenBalances, none⟩) 100 ""

/-- A start at the block of the files. -/
def smallStart : StartNode where
  queryMarketsList := .ok [vBNB, vUSDT]
  files := (lastStates.cache venusAlias "/configs" ∅).2
  path := "/configs"
  first := smallNode
  second := smallNode
  third := smallNode
  queryUserVaiRepay _ := .ok 0
  market := smallMarket
  priceClock _ := 300
  liquidationIncentiveMantissa := .ok (11 * 10 ^ 17)
  closeFactorMantissa := .ok (5 * 10 ^ 17)
  feeds :=
    { queryAggregator := fun source ↦
        if source = "0x0567F2323251f0Aab15c8dFb1967E4e8A7D42aeE" then
          .ok "0x137924D7C36816E0DcAF016eB617Cc2C92c05782"
        else .ok "0xBE75E0725922D78769e3abF0bcb560d1E2675d5d"
      description := fun source ↦
        if source = "0x0567F2323251f0Aab15c8dFb1967E4e8A7D42aeE" then .ok "BNB / USD"
        else .ok "USDT / USD"
      decimals := fun _ ↦ .ok 8 }
  getBlock := .ok (100, 300, 0)
  secretKeys := [riskyKey, riskyKey']
  getTransactionCount _ := .ok 7
  getBalance _ := .ok (10 ^ 18)
  queryGasPrice := .ok (5 * 10 ^ 9)
  chain :=
    { getPair := fun token0 token1 ↦
        if token0 = usdt.text ∧ token1 = wbnb.text then
          .ok "0x16b9a82891338f9bA80E2D6970FddA79D1eb0daE"
        else .ok addressZero
      getReserves := fun _ ↦ .ok ⟨30000000, 100000⟩ }
  healthClock _ := 300
  uniqueId usr := usr
  listClock _ := 300

def smallBase : MainEnv Reserves :=
  { smallEnv with
    pools := ∅
    swapFunc := SwapV2.swapSimulation
    address := fun key ↦
      if key = riskyKey then "0x9d8A62f656a8d1615C1294fd71e9CFb3E4855A4F"
      else "0xb595B18c88b1f651cA387489067f855b5C8E6720" }

/-- Both users of the small start, as the trimming sees them. -/
def smallFiltered : List (ℚ × String) :=
  [((⟨toFloat (51 / 50), 0, 0⟩ : HealthFactor).norm toFloat, testUser),
    ((⟨toFloat (27 / 25), 0, 0⟩ : HealthFactor).norm toFloat, testUser')]

/-- What the lists are made of: the two aggregators, and both users in range of liquidation in each
market. -/
def SmallPrepared (r : MainEnv Reserves × Main HighProfitSates × Files) : Prop :=
  r.1.pools.keys = [(genPoolKey wbnb usdt).1] ∧
  r.2.1.globals.signals.signalTokenMap.keys = ["0x137924d7c36816e0dcaf016eb617cc2c92c05782",
    "0xbe75e0725922d78769e3abf0bcb560d1e2675d5d"] ∧
  (∀ aggr ∈ ["0x137924d7c36816e0dcaf016eb617cc2c92c05782",
      "0xbe75e0725922d78769e3abf0bcb560d1e2675d5d"],
    (r.2.1.globals.signals.getTokensFromAggr aggr).toOption.any fun tokens ↦
      r.2.1.globals.states.toStates.usersFiltering tokens.1 = [testUser, testUser']) ∧
  usersFiltered toFloat r.2.1.globals.states.toStates (300 + 1200) true [testUser, testUser']
    = .ok smallFiltered ∧
  ((highProfitSates.syncStates r.1.lib smallNode 0).run r.2.1.globals.states).1.toBool

instance : DecidablePred SmallPrepared := fun _ ↦ inferInstanceAs (Decidable (_ ∧ _))

/-- On BSC the gas is priced with BNB. -/
theorem completeSendType_bsc : completeSendType = fun signals sendType aggr ↦
    if aggr = "0x137924D7C36816E0DcAF016eB617Cc2C92c05782" then do
      let res ← signals.signalTokenMap.item "0x137924d7c36816e0dcaf016eb617cc2c92c05782"
      let infos ← okOr res.head? .indexError
      return { sendType with
        priceToken := some infos.token
        priceDecimals := infos.priceDecimals.toNat }
    else completeSendType signals sendType aggr := by
  have hlower : "0x137924D7C36816E0DcAF016eB617Cc2C92c05782".toLower
      = "0x137924d7c36816e0dcaf016eb617cc2c92c05782" := by decide +kernel
  funext signals sendType aggr
  by_cases haggr : aggr = "0x137924D7C36816E0DcAF016eB617Cc2C92c05782"
  · rw [if_pos haggr, completeSendType, if_neg (by rw [haggr]; decide), haggr, hlower]
  · rw [if_neg haggr]

theorem prepared_small : (prepared smallBase smallStart).toOption.any SmallPrepared = true := by
  rw [prepared, completeSendType_bsc]
  decide +kernel

/-- The factory has a pool for the two tokens, and with BNB at 300 dollars both users are in range
of liquidation, the first one closer to it. -/
theorem ready_run_small : ∃ env m files, ready smallBase smallStart = .ok (env, m, files) ∧
    env.pools.keys = [(genPoolKey wbnb usdt).1] ∧
    m.globals.usersPreFiltered.getD "0x137924d7c36816e0dcaf016eb617cc2c92c05782" []
      = [testUser, testUser'] ∧
    m.Ready smallStart env ∧ ∀ events : List Event,
      let m' := runFrom (Main.step env highProfitSates) m events
      m'.Known highProfitSates ∧ m'.Answers highProfitSates ∧ m'.Priced env highProfitSates ∧
        m'.accountKeys = [riskyKey, riskyKey'] := by
  have hsmall := prepared_small
  rcases hprepared : prepared smallBase smallStart with e | ⟨env, m, files⟩
  · rw [hprepared] at hsmall
    cases hsmall
  rw [hprepared] at hsmall
  obtain ⟨hpools, haggrs, htokens, hfiltered, hreturns⟩ := of_decide_eq_true hsmall
  obtain ⟨states, hsync⟩ : ∃ states, (highProfitSates.syncStates env.lib smallNode 0).run
      m.globals.states = (.ok (), states) := by
    rcases hrun : (highProfitSates.syncStates env.lib smallNode 0).run m.globals.states
      with ⟨e | _, states⟩
    · rw [hrun] at hreturns
      cases hreturns
    · exact ⟨states, rfl⟩
  have hlists : ∀ aggr ∈ m.globals.signals.signalTokenMap.keys, ∃ tokensAddr a,
      m.globals.signals.getTokensFromAggr aggr = .ok (tokensAddr, a) ∧
      usersTrimming toFloat (m.globals.states.toStates.usersFiltering tokensAddr)
        m.globals.states.toStates (300 + 1200) true = .ok (smallFiltered.map Prod.snd) := by
    intro aggr haggr
    have husers := htokens aggr (haggrs ▸ haggr)
    rcases hask : m.globals.signals.getTokensFromAggr aggr with e | ⟨tokensAddr, a⟩
    · rw [hask] at husers
      cases husers
    rw [hask] at husers
    have hsorted : smallFiltered.Pairwise fun a b ↦ hfUserLe a b = true := by decide +kernel
    refine ⟨tokensAddr, a, rfl, ?_⟩
    rw [of_decide_eq_true husers, usersTrimming_of_sorted hfiltered hsorted]
  have hready : ready smallBase smallStart = .ok (env, { m with
      globals := { m.globals with
        states := states
        usersPreFiltered := m.globals.signals.signalTokenMap.keys.foldl
          (fun d aggr ↦ d.set aggr (smallFiltered.map Prod.snd)) ∅ } }, files) := by
    have hstart : (startUp env highProfitSates smallStart.listClock smallNode).run m.globals
        = (.ok (), _) := run_startUp (fun _ ↦ smallFiltered.map Prod.snd) hlists hsync
    rw [ready, hprepared, ok_bind]
    exact congrArg (· >>= _) (finish_of_run hstart)
  have hlist : (["0x137924d7c36816e0dcaf016eb617cc2c92c05782",
      "0xbe75e0725922d78769e3abf0bcb560d1e2675d5d"].foldl
        (fun (d : Dict String (List String)) aggr ↦
          d.set aggr (smallFiltered.map Prod.snd)) ∅).getD
          "0x137924d7c36816e0dcaf016eb617cc2c92c05782" [] = [testUser, testUser'] := by
    decide
  rw [← haggrs] at hlist
  exact ⟨env, _, files, hready, hpools, hlist, ready_run hready⟩

end CompoundLiquidation
