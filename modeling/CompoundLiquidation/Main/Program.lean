import CompoundLiquidation.Callbacks.Confirmation
import CompoundLiquidation.Callbacks.Handover
import CompoundLiquidation.Liquidation.Gate

/-!
# The main program

The program runs its callbacks as tasks of one event loop. A task gives up control only where it
waits, so that a callback without an `await` is one step of the loop, and all orders of these steps
are possible. Two callbacks have an `await` in them: `pt`, which works on a pending signal, and
`liquidation_idle_callback` when it has taken users from the queue. Both wait inside of
`send_transactions`, behind everything that is handed over there. So each of them is two steps: the
first one ends with the calculated health factors, the second one writes them back. Other callbacks
may run in between.

`pt` looks at the first twenty users of the list of its aggregator and leaves the others to the
queue. It takes them from the list object after it has waited. As long as the object is still the
one in `users_pre_filtered`, users who are inserted meanwhile are in it.

A task that raises is started again by the loop around it, up to a number of times that is fixed
for each task; then the whole program stops. Left out are the log files, `users_continue`, into
which nothing is put, and `storage` of the sender, which stays empty.
-/

namespace CompoundLiquidation

open Python

/-! ## Blocks -/

/-- `BlockInfos` with the number and the time of the block. -/
structure ChainInfos extends BlockInfos where
  blockNum : ℕ
  blockTime : ℤ

/-- `get_current_timestamp`. -/
def ChainInfos.getCurrentTimestamp (net : Network) (infos : ChainInfos) (currentBlockNum : ℕ) : ℤ :=
  if currentBlockNum = infos.blockNum then infos.blockTime
  else infos.blockTime + intvl net * ((currentBlockNum : ℤ) - infos.blockNum)

/-! ## The state -/

/-- `signal_recv`, as far as it is read. -/
structure SignalInfos extends SignalRecv where
  recvHeight : ℕ
  gasPrice : ℤ

/-- The list object of `pt`: still the one in `users_pre_filtered`, or one that has been replaced
there and is as it was then. -/
inductive HeldList where
  | current (aggr : String)
  | replaced (users : List String)

/-- What `pt` keeps while it waits. -/
structure SignalTask where
  results : List HfResult
  users : HeldList

/-- The tasks that `main` starts, but for the one that follows up sent transactions. That one
catches its exceptions. -/
inductive TaskName where
  | users
  | comet
  | prices
  | liquidations
  | header
  | pending
  | idle
deriving DecidableEq

/-- All of them. -/
def TaskName.all : List TaskName :=
  [.users, .comet, .prices, .liquidations, .header, .pending, .idle]

theorem TaskName.mem_all (task : TaskName) : task ∈ all := by
  cases task with
  | users | comet | prices | liquidations | header | pending | idle => decide

/-- How many exceptions end the program. -/
def TaskName.limit : TaskName → ℕ
  | .users | .comet | .prices | .liquidations => 5
  | .header | .pending => 3
  | .idle => 1

/-- The main module, with the tasks that wait. -/
structure Main (S : Type) where
  globals : Globals S
  blockInfos : ChainInfos
  /-- `users_to_liquidate`, `accounts` and `ROUTS_TOKENS[NETWORK]`. -/
  trading : SignalState
  sender : BnB48Sender
  signalRecv : Option SignalInfos
  usersPending : List (List String)
  /-- `prev_block` of `liquidation_idel`. -/
  prevBlock : ℕ
  signalTask : Option SignalTask
  idleTask : Option (List HfResult)
  /-- The exceptions that have been counted. -/
  failures : TaskName → ℕ

/-- `users` of `pt`. -/
def HeldList.users {S : Type} (g : Globals S) : HeldList → List String
  | .current aggr => g.usersPreFiltered.getD aggr []
  | .replaced users => users

/-- The program has ended. -/
def Main.Stopped {S : Type} (m : Main S) : Prop := ∃ task, TaskName.limit task ≤ m.failures task

instance {S : Type} (m : Main S) : Decidable m.Stopped :=
  decidable_of_iff (∃ task ∈ TaskName.all, task.limit ≤ m.failures task)
    ⟨fun ⟨task, _, h⟩ ↦ ⟨task, h⟩, fun ⟨task, h⟩ ↦ ⟨task, task.mem_all, h⟩⟩

/-- What the tasks are given and what does not change. -/
structure MainEnv (L : Type) extends LiqEnv where
  lib : EthLibs
  cls : SignalsClass
  /-- The product `0.9*local_gasprice`. -/
  ninety : ℤ → ℚ
  /-- `reserves_init`. -/
  reservesInit : List String
  /-- `configs` of the markets, which the start-up code fills in. -/
  configs : String → CtokenConfigs
  underlying : String → Token
  pools : Dict String (Option (Pool L))
  swapFunc : Pool L → ℤ → ℕ → Except Error ℤ
  sendType : SendType
  /-- `from_json_with_validation` and the encoding of the transaction. -/
  rawTransaction : PendingTx → Except Error String
  /-- `get_address` of the account with a key. -/
  address : String → String
  bnb48Address : String
  /-- The text of the exception contains `1006`. -/
  connectionLost : Error → Bool

section Program

variable {L : Type} (env : MainEnv L) {S : Type} (K : StatesClass S)

/-! ## Start -/

/-- The list of one aggregator before the start. -/
def prefilter (currentTime : ℤ) (aggr : String) : Proc (Globals S) Error Unit := do
  let g ← Proc.read
  let (tokensAddr, _) ← Proc.ofExcept (g.signals.getTokensFromAggr aggr)
  let users := (K.states g.states).usersFiltering tokensAddr
  let usersTrim ← Proc.ofExcept
    (usersTrimming toFloat users (K.states g.states) (currentTime + 1200) true)
  Proc.modify fun g ↦ { g with usersPreFiltered := g.usersPreFiltered.set aggr usersTrim }

/-- The last part of the start: the lists, and then the states of the latest block. -/
def startUp (clock : String → ℤ) (node : EthNode) : Proc (Globals S) Error Unit := do
  Proc.modify fun g ↦ { g with usersPreFiltered := ∅ }
  let g ← Proc.read
  Proc.forEach g.signals.signalTokenMap.keys fun aggr ↦ prefilter K (clock aggr) aggr
  Proc.zoom Globals.states (fun s g ↦ { g with states := s }) (K.syncStates env.lib node 0)

/-! ## Markets -/

/-- The markets with their `configs`. -/
def marketsOf (ctokens : Dict String CtokenInfos) : Markets :=
  ctokens.mapWithKey fun token infos ↦ { infos with configs := env.configs token }

/-- A computation on the markets. -/
def onMarkets {α : Type} (x : Proc Markets Error α) : Proc (Globals S) Error α :=
  onStates K <| Proc.zoom (fun s ↦ marketsOf env s.ctokens)
    (fun ctokens s ↦ { s with ctokens := ctokens.mapWithKey fun _ infos ↦ infos.toCtokenInfos }) x

/-- An assignment to a market. -/
def States.onMarket (token : String) (f : CtokenInfos → CtokenInfos) (s : States) : States :=
  { s with ctokens := s.ctokens.modify token f }

/-! ## Liquidating -/

/-- The arguments of `signal_simulate_health_factor`. -/
def MainEnv.signalEnv (ctokens : Dict String CtokenInfos) (comet : CometConfigs)
    (blockInfos : BlockInfos) (sig : Option SignalInfos) : SignalEnv L where
  toLiqEnv := env.toLiqEnv
  ctk := (marketsOf env ctokens).mapWithKey fun token infos ↦
    { infos with underlying := env.underlying token }
  comet := comet
  blockInfos := blockInfos
  pools := env.pools
  swapFunc := env.swapFunc
  sigGasPrice := sig.map SignalInfos.gasPrice
  sendType := env.sendType

/-- A computation on the globals. -/
def onGlobals {α : Type} (x : Proc (Globals S) Error α) : Proc (Main S) Error α :=
  Proc.zoom Main.globals (fun g m ↦ { m with globals := g }) x

/-- `signal_simulate_health_factor` on calculated health factors, and `send_transactions` on its
tasks. The outcome is whether the sender waits. -/
def sendLiquidations (uniqueId : String → String) (results : List HfResult)
    (sig : Option SignalInfos) (signalRecv : Option SignalRecv) : Proc (Main S) Error Bool := do
  let m ← Proc.read
  let coroutines ← Proc.zoom Main.trading (fun trading m ↦ { m with trading := trading })
    (signalSimulateHealthFactor (env.signalEnv (K.states m.globals.states).ctokens m.globals.comet
      m.blockInfos.toBlockInfos sig) (results.map fun res ↦
        { usr := res.1, newHealthFactor := res.2.1, reserves := res.2.2,
          uniqueId := uniqueId res.1 }))
  Proc.zoom Main.sender (fun sender m ↦ { m with sender := sender })
    (BnB48Sender.sendTransactions
      { results := coroutines
        expire := m.blockInfos.getCurrentTimestamp env.net m.blockInfos.blockNum
        signalRecv := signalRecv })
  return !(m.sender.lock && coroutines.length = 0)

variable {env K} in
/-- What the simulation finds is sent. -/
theorem run_sendLiquidations {uniqueId : String → String} {results : List HfResult}
    {sig : Option SignalInfos} {signalRecv : Option SignalRecv} {m : Main S}
    {tasks : List SendResult} {trading : SignalState} {r : Except Error Unit} {sender : BnB48Sender}
    (hsimulate : (signalSimulateHealthFactor (env.signalEnv (K.states m.globals.states).ctokens
      m.globals.comet m.blockInfos.toBlockInfos sig) (results.map fun res ↦
        { usr := res.1, newHealthFactor := res.2.1, reserves := res.2.2,
          uniqueId := uniqueId res.1 })).run m.trading = (.ok tasks, trading))
    (hsent : (BnB48Sender.sendTransactions ⟨tasks,
      m.blockInfos.getCurrentTimestamp env.net m.blockInfos.blockNum, signalRecv⟩).run m.sender
        = (r, sender)) :
    (sendLiquidations env K uniqueId results sig signalRecv).run m
      = (r.map fun _ ↦ !(m.sender.lock && tasks.length = 0),
        { m with trading := trading, sender := sender }) := by
  rw [sendLiquidations, Proc.run_bind_of_ok (Proc.run_read _), Proc.run_bind, Proc.run_zoom,
    hsimulate]
  dsimp only
  rw [Proc.run_bind, Proc.run_zoom, hsent]
  rcases r with e | _
  · rfl
  · rfl

variable {env K} in
/-- An exception of the simulation ends the call. -/
theorem run_sendLiquidations_of_raised {uniqueId : String → String} {results : List HfResult}
    {sig : Option SignalInfos} (signalRecv : Option SignalRecv) {m : Main S} {e : Error}
    {trading : SignalState}
    (hsimulate : (signalSimulateHealthFactor (env.signalEnv (K.states m.globals.states).ctokens
      m.globals.comet m.blockInfos.toBlockInfos sig) (results.map fun res ↦
        { usr := res.1, newHealthFactor := res.2.1, reserves := res.2.2,
          uniqueId := uniqueId res.1 })).run m.trading = (.error e, trading)) :
    (sendLiquidations env K uniqueId results sig signalRecv).run m
      = (.error e, { m with trading := trading }) := by
  rw [sendLiquidations, Proc.run_bind_of_ok (Proc.run_read _), Proc.run_bind, Proc.run_zoom,
    hsimulate]

/-! ## Signals -/

/-- What `time.time()` shows in `pt`: in the rounds of the price loop, and at the calculation for
each user. -/
structure SignalClock where
  atRound : ℕ → ℤ
  atUser : String → ℤ

/-- `pt` behind the `await`. -/
def finishSignal (task : SignalTask) : Proc (Main S) Error Unit := do
  onGlobals (onStates K (States.writeHealthFactor task.results))
  Proc.modify fun m ↦
    { m with usersPending := m.usersPending ++ [(task.users.users m.globals).drop 20] }

/-- `pt` from the prices on, up to the `await`. -/
def handleSignal (clock : SignalClock) (uniqueId : String → String) (sig : SignalInfos)
    (res : List SignalEntry) (aggr : String) : Proc (Main S) Error (Option SignalTask) := do
  let _ ← onGlobals (onMarkets env K (priceLoop env.cls clock.atRound res [] 0))
  let m ← Proc.read
  let users := m.globals.usersPreFiltered.getD aggr []
  if users.length = 0 then return none
  let sortedUsers := users.take 20
  let results ← Proc.ofExcept
    (healthFactors clock.atUser m.globals.comet (K.states m.globals.states) sortedUsers)
  let waits ← sendLiquidations env K uniqueId results (some sig) (some sig.toSignalRecv)
  let task : SignalTask := ⟨results, .current aggr⟩
  if waits then return some task
  finishSignal K task
  return none

/-- `pt` up to the `await`: what is left to do then, if anything. A bad message is reported and
skipped. -/
def pt (clock : SignalClock) (uniqueId : String → String) (message : PendingTx) :
    Proc (Main S) Error (Option SignalTask) := fun m ↦
  match (ptEntries env.ninety message.toTxAttributes m.blockInfos.gasPrice).run
    m.globals.signals with
  | (.error _, signals) => (.ok none, { m with globals := { m.globals with signals := signals } })
  | (.ok (res, aggr), signals) =>
    Proc.run (do
      let (rawTx, gasFee) ← Proc.ofExcept (recordTx env.rawTransaction message)
      let m ← Proc.read
      let sig : SignalInfos := ⟨⟨rawTx⟩, m.blockInfos.blockNum, gasFee⟩
      Proc.modify fun m ↦ { m with signalRecv := some sig }
      handleSignal env K clock uniqueId sig res aggr)
      { m with globals := { m.globals with signals := signals } }

variable {env K} in
/-- What `pt` makes of a message behind its handler. -/
theorem run_pt_of_entries {clock : SignalClock} {uniqueId : String → String} (message : PendingTx)
    {m : Main S} {res : List SignalEntry} {aggr : String} {signals : Signals}
    (hentries : (ptEntries env.ninety message.toTxAttributes m.blockInfos.gasPrice).run
      m.globals.signals = (.ok (res, aggr), signals)) {rawTx : String} {gasFee : ℤ}
    (hrecorded : recordTx env.rawTransaction message = .ok (rawTx, gasFee)) :
    (pt env K clock uniqueId message).run m = (handleSignal env K clock uniqueId
        ⟨⟨rawTx⟩, m.blockInfos.blockNum, gasFee⟩ res aggr).run
      { m with
        globals := { m.globals with signals := signals }
        signalRecv := some ⟨⟨rawTx⟩, m.blockInfos.blockNum, gasFee⟩ } := by
  rw [Proc.run, pt, hentries]
  dsimp only
  rw [Proc.run_bind, hrecorded, Proc.run_ofExcept]
  rfl

variable {env K} in
/-- An exception of the recording ends `pt` before its prices. -/
theorem run_pt_of_unrecorded {clock : SignalClock} {uniqueId : String → String}
    (message : PendingTx) {m : Main S} {res : List SignalEntry} {aggr : String} {signals : Signals}
    (hentries : (ptEntries env.ninety message.toTxAttributes m.blockInfos.gasPrice).run
      m.globals.signals = (.ok (res, aggr), signals)) {e : Error}
    (hrecorded : recordTx env.rawTransaction message = .error e) :
    (pt env K clock uniqueId message).run m
      = (.error e, { m with globals := { m.globals with signals := signals } }) := by
  rw [Proc.run, pt, hentries]
  dsimp only
  rw [Proc.run_bind, hrecorded, Proc.run_ofExcept]

/-! ## Idle -/

/-- A list of `users_pre_filtered` is replaced by a new object. -/
def Main.detach (aggr : String) (m : Main S) : Main S :=
  { m with signalTask := m.signalTask.map fun task ↦
      match task.users with
      | .current aggr' =>
        if aggr' = aggr then { task with users := .replaced (task.users.users m.globals) } else task
      | .replaced _ => task }

/-- Task 3 of `liquidation_idle_callback`. -/
def idlePeriodic (clock : Clock) : Proc (Main S) Error Unit := do
  let m ← Proc.read
  if m.blockInfos.blockNum ≤ m.prevBlock then return
  let update ← Proc.ofExcept (idleUpdate K env.net clock m.blockInfos.blockNum m.globals)
  match update with
  | .preFiltered aggr _ => Proc.modify (Main.detach aggr)
  | _ => pure ()
  onGlobals (performUpdate K update)
  Proc.modify fun m ↦ { m with prevBlock := m.blockInfos.blockNum }

/-- Task 2 of `liquidation_idle_callback` up to its `await`. -/
def idlePending (clock : Clock) (uniqueId : String → String) (users : List String) :
    Proc (Main S) Error (Option (List HfResult)) := do
  let m ← Proc.read
  let results ← Proc.ofExcept
    (healthFactors clock.atUser m.globals.comet (K.states m.globals.states) users)
  let sig := m.signalRecv.filter fun sig ↦ sig.recvHeight = m.blockInfos.blockNum
  let waits ← sendLiquidations env K uniqueId results sig none
  if waits then return some results
  onGlobals (onStates K (States.writeHealthFactor results))
  return none

/-- `liquidation_idle_callback` up to its `await`: the results to be written behind it, if any. An
empty list from the queue is the same as none. -/
def liquidationIdle (clock : Clock) (uniqueId : String → String) :
    Proc (Main S) Error (Option (List HfResult)) := do
  let m ← Proc.read
  let users := m.usersPending.headD []
  Proc.modify fun m ↦ { m with usersPending := m.usersPending.tail }
  if users.length ≠ 0 then idlePending env K clock uniqueId users
  else
    idlePeriodic env K clock
    return none

/-! ## Headers -/

/-- The header of a block. -/
structure BlockHeader where
  miner : String
  number : String
  timestamp : String
  baseFeePerGas : Option String

/-- What `on_message` asks the node. -/
structure HeaderNode where
  gasPrice : Except Error ℤ
  /-- `query_exchange_rate`. -/
  exchangeRateStored : String → Except Error ℤ
  getTransactionCount : String → Except Error ℤ
  getBalance : String → Except Error ℤ

/-- `base_fee`. -/
def baseFeeOf : Option String → Except Error ℤ
  | none => .ok 0
  | some baseFee => if baseFee = "None" then .ok 0 else okOr (int16 baseFee) .valueError

/-- Task 2 of `on_message`: the exchange rate of one market. -/
def refreshExchangeRate (node : HeaderNode) (blockNumber : ℕ) : Proc (Globals S) Error Unit := do
  if env.reservesInit.length = 0 then Proc.raise .zeroDivisionError
  let tokenAddr ← Proc.ofOption env.reservesInit[blockNumber % env.reservesInit.length]? .indexError
  let exchangeRate ← Proc.ofExcept (node.exchangeRateStored tokenAddr)
  let g ← Proc.read
  let _ ← Proc.ofExcept ((K.states g.states).ctokens.item tokenAddr)
  onStates K (Proc.modify (States.onMarket tokenAddr fun infos ↦
    { infos with risks := { infos.risks with exchangeRate := exchangeRate } }))

/-- Task 3 of `on_message` for one market. -/
def revertPrice (clock : String → ℤ) (reserve : String) : Proc (Globals S) Error Unit := do
  let g ← Proc.read
  let infos ← Proc.ofExcept ((K.states g.states).ctokens.item reserve)
  let price ← Proc.ofOption infos.price .attributeError
  onStates K (Proc.modify (States.onMarket reserve fun infos ↦
    { infos with price := some (price.revert env.net (clock reserve)) }))

/-- Task 4 of `on_message`. -/
def resetNonces (node : HeaderNode) : List AccCompound → Except Error Unit × List AccCompound
  | [] => (.ok (), [])
  | acc :: accounts =>
    match node.getTransactionCount (env.address acc.key) with
    | .error e => (.error e, acc :: accounts)
    | .ok count =>
      let (out, rest) := resetNonces node accounts
      (out, { acc with nonce := count } :: rest)

/-- The market whose price is the one of the chain's own token. -/
def nativeCtoken : String := "0xA07c5b74C9B40447a954e1466938b865b6BBea36"

/-- `BnB48Sender.update` with what it asks the node. -/
def updateSender (node : HeaderNode) (bnbPriceWithDecimals : ℤ) : Proc BnB48Sender Error Unit := do
  let count ← Proc.ofExcept (node.getTransactionCount env.bnb48Address)
  Proc.modify fun s ↦ { s with nonce := count }
  let balance ← Proc.ofExcept (node.getBalance env.bnb48Address)
  BnB48Sender.update count balance bnbPriceWithDecimals

/-- `on_message`; `none` is a message without a result. -/
def onMessage (node : HeaderNode) (clock : String → ℤ) (message : Option BlockHeader) :
    Proc (Main S) Error Unit := do
  match message with
  | none => pure ()
  | some result =>
    let _ ← Proc.ofExcept (env.lib.toChecksumAddress result.miner)
    let blockNumber ← Proc.ofOption (int16 result.number) .valueError
    let blockTimestamp ← Proc.ofOption (int16 result.timestamp) .valueError
    let baseFee ← Proc.ofExcept (baseFeeOf result.baseFeePerGas)
    let gasPrice ← Proc.ofExcept node.gasPrice
    Proc.modify fun m ↦
      { m with blockInfos := ⟨⟨baseFee, gasPrice⟩, blockNumber.toNat, blockTimestamp⟩ }
    onGlobals (refreshExchangeRate env K node blockNumber.toNat)
    onGlobals (Proc.forEach env.reservesInit (revertPrice env K clock))
    Proc.zoom (fun m ↦ m.trading.accounts)
      (fun accounts m ↦ { m with trading := { m.trading with accounts := accounts } })
      (resetNonces env node)
    let m ← Proc.read
    let infos ← Proc.ofExcept ((K.states m.globals.states).ctokens.item nativeCtoken)
    let bnbPrice ← Proc.ofExcept infos.priceCurrent
    Proc.zoom Main.sender (fun sender m ↦ { m with sender := sender })
      (updateSender env node bnbPrice)

/-! ## Steps -/

/-- A step of the event loop. -/
inductive Event where
  | users (d : Delivery)
  | comet (response : LogReceiptLight)
  | prices (response : LogReceiptLight)
  | header (node : HeaderNode) (clock : String → ℤ) (message : Option BlockHeader)
  | signal (clock : SignalClock) (uniqueId : String → String) (message : PendingTx)
  | signalDone
  | idle (clock : Clock) (uniqueId : String → String)
  | idleDone
  | receipts (receipts : List Receipt)
  /-- The connection of a task breaks, or its callback does something that is left out here and
  raises. -/
  | lost (task : TaskName) (e : Error)

/-- The loop around a task catches an exception. -/
def Main.fail (task : TaskName) (e : Error) (m : Main S) : Main S :=
  if task = .header ∧ env.connectionLost e then m
  else { m with failures := Function.update m.failures task (m.failures task + 1) }

/-- A callback in its task. -/
def Main.perform (task : TaskName) (x : Proc (Main S) Error Unit) (m : Main S) : Main S :=
  match x.run m with
  | (.ok _, m') => m'
  | (.error e, m') => m'.fail env task e

/-- A step. What a task cannot do, since it is waiting or not waiting, does nothing. -/
def Main.handle (m : Main S) : Event → Main S
  | .users d => m.perform env .users
      (onGlobals (usersSubscribeCallback K env.lib d.node d.clock d.response))
  | .comet response => m.perform env .comet (onGlobals (Proc.zoom Globals.comet
      (fun comet g ↦ { g with comet := comet }) (cometSubscribeCallback env.lib response)))
  | .prices response => m.perform env .prices (onGlobals
      (onMarkets env K (signalsSubscribeCallback env.lib env.cls m.globals.signals response)))
  | .header node clock message => m.perform env .header (onMessage env K node clock message)
  | .signal clock uniqueId message =>
    match m.signalTask with
    | some _ => m
    | none => m.perform env .pending do
      let task ← pt env K clock uniqueId message
      Proc.modify fun m ↦ { m with signalTask := task }
  | .signalDone =>
    match m.signalTask with
    | none => m
    | some task => { m with signalTask := none }.perform env .pending (finishSignal K task)
  | .idle clock uniqueId =>
    match m.idleTask with
    | some _ => m
    | none => m.perform env .idle do
      let results ← liquidationIdle env K clock uniqueId
      Proc.modify fun m ↦ { m with idleTask := results }
  | .idleDone =>
    match m.idleTask with
    | none => m
    | some results => { m with idleTask := none }.perform env .idle
        (onGlobals (onStates K (States.writeHealthFactor results)))
  | .receipts receipts => { m with sender :=
      ((Proc.zoom BnB48Sender.toSender (fun s o ↦ { o with toSender := s })
        (processReceipts receipts)).run m.sender).2 }
  | .lost task e => m.fail env task e

/-- A step of the program, which does nothing once it has ended. -/
def Main.step (m : Main S) (e : Event) : Main S :=
  if m.Stopped then m else m.handle env K e

end Program

end CompoundLiquidation
