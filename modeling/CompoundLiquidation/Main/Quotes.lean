import CompoundLiquidation.Main.Lookups
import CompoundLiquidation.Python.Replay
import CompoundLiquidation.Users.Effects

/-!
# What a market is quoted at

Liquidations are calculated with the price and the exchange rate of the markets. Three callbacks
change these: `pt` puts a pending price in use, an event of the aggregator confirms one, and a
header asks for the exchange rate of one market and takes back the prices that have waited too long.
Which changes an event makes for one market can be read off the event and the state it comes in, as
a list of moves. Every step of the program replays the moves of its event from the front, all of
them unless it raises, and no step makes any other.
-/

namespace CompoundLiquidation

open Python

/-! ## Quotes -/

/-- The price and the exchange rate of a market. -/
structure Quote where
  price : Option CtokenPrice
  exchangeRate : ℤ

/-- What can be done to them. -/
inductive QuoteMove where
  | pending (newPrice time : ℤ)
  | confirmed (newPrice : ℤ)
  | timeout (now : ℤ)
  | rate (exchangeRate : ℤ)

/-- One of them. -/
def Quote.move (net : Network) (q : Quote) : QuoteMove → Quote
  | .pending newPrice time => { q with price := q.price.map (CtokenPrice.update newPrice time) }
  | .confirmed newPrice => { q with price := q.price.map fun p ↦ p.confirmedAt (some newPrice) }
  | .timeout now => { q with price := q.price.map (CtokenPrice.revert net now) }
  | .rate exchangeRate => { q with exchangeRate := exchangeRate }

/-- Nothing happens to a market that is not known. -/
def moveQuote (net : Network) (q : Option Quote) (move : QuoteMove) : Option Quote :=
  q.map fun q ↦ q.move net move

theorem runFrom_moveQuote_some (net : Network) (q : Quote) (moves : List QuoteMove) :
    runFrom (moveQuote net) (some q) moves = some (runFrom (Quote.move net) q moves) := by
  induction moves generalizing q with
  | nil => rfl
  | cons move moves ih => exact ih (q.move net move)

def CtokenInfos.quote (infos : CtokenInfos) : Quote := ⟨infos.price, infos.risks.exchangeRate⟩

/-- The quote of a market. -/
def States.quote? (s : States) (token : String) : Option Quote :=
  (s.ctokens.get? token).map CtokenInfos.quote

def Globals.quote? {S : Type} (g : Globals S) (K : StatesClass S) (token : String) : Option Quote :=
  (K.states g.states).quote? token

/-! ## Moves -/

section Moves

variable {L : Type} (env : MainEnv L) {S : Type}

/-- `get_oracle_price` of an answer. -/
def MainEnv.newPrice (token : String) (answer feedDecimals : ℤ) : ℤ :=
  answer * 10 ^ env.cls.zeros feedDecimals.toNat (env.configs token)

/-- The price loop, whose rounds are counted from `k`. -/
def MainEnv.pendingMoves (clock : ℕ → ℤ) (token : String) (k : ℕ) :
    List SignalEntry → List QuoteMove
  | [] => []
  | r :: res => (if r.tokenAddr = token then
      [.pending (env.newPrice r.tokenAddr r.price r.feedDecimals) (clock k)] else []) ++
        pendingMoves clock token (k + 1) res

/-- One token of an aggregator, with a log of the aggregator. -/
def MainEnv.confirmMoves (token : String) (log : LogReceipt) (info : AggregatorInfos) :
    List QuoteMove :=
  if info.token = token then (log.answer? env.lib).toList.map fun answer ↦
    .confirmed (env.newPrice info.token answer info.priceDecimals)
  else []

/-- `signals_subscribe_callback`. -/
def MainEnv.priceMoves (signals : Signals) (response : LogReceiptLight) (token : String) :
    List QuoteMove :=
  match converter env.lib response with
  | .error _ => []
  | .ok logs => logs.flatMap fun log ↦
      (signals.signalTokenMap.getD log.address.toLower []).flatMap (env.confirmMoves token log)

/-- What `on_message` reads of a header. -/
def MainEnv.headerInfos (node : HeaderNode) (result : BlockHeader) : Except Error ChainInfos := do
  let _ ← env.lib.toChecksumAddress result.miner
  let blockNumber ← okOr (int16 result.number) .valueError
  let blockTimestamp ← okOr (int16 result.timestamp) .valueError
  let baseFee ← baseFeeOf result.baseFeePerGas
  let gasPrice ← node.gasPrice
  return ⟨⟨baseFee, gasPrice⟩, blockNumber.toNat, blockTimestamp⟩

/-- The market whose exchange rate is asked for, if it is the token. -/
def MainEnv.rateMoves (node : HeaderNode) (blockNumber : ℕ) (token : String) : List QuoteMove :=
  if env.reservesInit[blockNumber % env.reservesInit.length]? = some token then
    (node.exchangeRateStored token).toOption.toList.map .rate
  else []

/-- `on_message`. -/
def MainEnv.headerMoves (node : HeaderNode) (clock : String → ℤ) (token : String) :
    Option BlockHeader → List QuoteMove
  | none => []
  | some result =>
    match env.headerInfos node result with
    | .error _ => []
    | .ok infos => env.rateMoves node infos.blockNum token ++ env.reservesInit.flatMap
        fun reserve ↦ if reserve = token then [.timeout (clock token)] else []

variable (K : StatesClass S)

/-- Tasks 1 to 3 of `on_message`. -/
def updateMarkets (node : HeaderNode) (clock : String → ℤ) (infos : ChainInfos) :
    Proc (Main S) Error Unit := do
  Proc.modify fun m ↦ { m with blockInfos := infos }
  onGlobals (refreshExchangeRate env K node infos.blockNum)
  onGlobals (Proc.forEach env.reservesInit (revertPrice env K clock))

/-- Tasks 4 and 5 of `on_message`. -/
def updateAccounts (node : HeaderNode) : Proc (Main S) Error Unit := do
  Proc.zoom (fun m ↦ m.trading.accounts)
    (fun accounts m ↦ { m with trading := { m.trading with accounts := accounts } })
    (resetNonces env node)
  let m ← Proc.read
  let infos ← Proc.ofExcept ((K.states m.globals.states).ctokens.item nativeCtoken)
  let bnbPrice ← Proc.ofExcept infos.priceCurrent
  Proc.zoom Main.sender (fun sender m ↦ { m with sender := sender })
    (updateSender env node bnbPrice)

/-- A header is read, then the markets and then the accounts are updated. -/
theorem run_onMessage (node : HeaderNode) (clock : String → ℤ) (result : BlockHeader) (m : Main S) :
    (onMessage env K node clock (some result)).run m
      = match env.headerInfos node result with
        | .error e => (.error e, m)
        | .ok infos => (updateMarkets env K node clock infos >>= fun _ ↦
            updateAccounts env K node).run m := by
  rw [onMessage, MainEnv.headerInfos, Proc.run_bind, Proc.run_ofExcept]
  rcases env.lib.toChecksumAddress result.miner with e | miner
  · rfl
  dsimp only
  rw [ok_bind, Proc.ofOption, Proc.run_bind, Proc.run_ofExcept]
  rcases okOr (int16 result.number) Error.valueError with e | blockNumber
  · rfl
  dsimp only
  rw [ok_bind, Proc.ofOption, Proc.run_bind, Proc.run_ofExcept]
  rcases okOr (int16 result.timestamp) Error.valueError with e | blockTimestamp
  · rfl
  dsimp only
  rw [ok_bind, Proc.run_bind, Proc.run_ofExcept]
  rcases baseFeeOf result.baseFeePerGas with e | baseFee
  · rfl
  dsimp only
  rw [ok_bind, Proc.run_bind, Proc.run_ofExcept]
  rcases node.gasPrice with e | gasPrice
  · rfl
  dsimp only
  rw [ok_bind]
  change _ = (updateMarkets env K node clock ⟨⟨baseFee, gasPrice⟩, blockNumber.toNat,
    blockTimestamp⟩ >>= fun _ ↦ updateAccounts env K node).run m
  rw [Proc.run_bind, Proc.run_bind, updateMarkets, Proc.run_bind, Proc.run_modify]
  dsimp only
  rw [Proc.run_bind, Proc.run_bind]
  rcases (onGlobals (refreshExchangeRate env K node blockNumber.toNat)).run
    { m with blockInfos := ⟨⟨baseFee, gasPrice⟩, blockNumber.toNat, blockTimestamp⟩ }
    with ⟨e | _, m₁⟩
  · rfl
  dsimp only
  rw [Proc.run_bind]
  rcases (onGlobals (Proc.forEach env.reservesInit (revertPrice env K clock))).run m₁
    with ⟨e | _, m₂⟩
  · rfl
  · rfl

/-- The moves of an event on the quote of a token. -/
def Main.movesOf (m : Main S) (token : String) : Event → List QuoteMove
  | .prices response => env.priceMoves m.globals.signals response token
  | .header node clock message => env.headerMoves node clock token message
  | .signal clock _ message =>
    match m.signalTask with
    | some _ => []
    | none =>
      match ((ptEntries env.ninety message.toTxAttributes m.blockInfos.gasPrice).run
        m.globals.signals).1 with
      | .error _ => []
      | .ok (res, _) => env.pendingMoves clock.atRound token 0 res
  | _ => []

end Moves

/-! ## What leaves the quotes alone -/

section Same

variable {S : Type} {K : StatesClass S}

/-- All quotes are as before. -/
def SameQuotes (s s' : States) : Prop := ∀ token, s'.quote? token = s.quote? token

theorem SameQuotes.refl (s : States) : SameQuotes s s := fun _ ↦ rfl

theorem SameQuotes.trans (s s' s'' : States) (h : SameQuotes s s') (h' : SameQuotes s' s'') :
    SameQuotes s s'' := fun token ↦ (h' token).trans (h token)

theorem SameQuotes.of_ctokens {s s' : States} (h : s'.ctokens = s.ctokens) : SameQuotes s s' :=
  fun token ↦ by rw [States.quote?, States.quote?, h]

/-- Users' events change balances and the data that interest is calculated with. -/
theorem sameQuotes_step (lib : EthLibs) (log : LogReceipt) (s : States) :
    SameQuotes s (s.step lib log) := by
  have hmodify : ∀ (ctk : Dict String CtokenInfos) (reserve token : String)
      (f : CtokenInfos → CtokenInfos), (∀ infos, (f infos).quote = infos.quote) →
      ((ctk.modify reserve f).get? token).map CtokenInfos.quote
        = (ctk.get? token).map CtokenInfos.quote := by
    intro ctk reserve token f hf
    rw [Dict.get?_modify]
    split_ifs
    · rw [Option.map_map]
      exact congrArg (fun f ↦ (ctk.get? token).map f) (funext hf)
    · rfl
  intro token
  rw [States.quote?, States.quote?, States.ctokens_step]
  rcases States.logChange lib log with _ | ⟨reserve, change⟩
  · rfl
  rcases change with ⟨fromUser, toUser, amount⟩ | _ | _ | _ | _
  · simp only [UsersChange.onCtokens]
    split_ifs
    · refine (hmodify _ _ _ _ ?_).trans (hmodify _ _ _ _ ?_)
      all_goals exact fun _ ↦ rfl
    · refine hmodify _ _ _ _ ?_
      exact fun _ ↦ rfl
    · refine hmodify _ _ _ _ ?_
      exact fun _ ↦ rfl
    · rfl
  all_goals
    refine hmodify _ _ _ _ ?_
    exact fun _ ↦ rfl

theorem sameQuotes_updateAll (hK : K.Extends) (lib : EthLibs) (logs : List LogReceipt)
    (users : Dict String ChangeType) (o : S) :
    SameQuotes (K.states o) (K.states ((K.updateAll lib logs users).run o).2) := by
  let R : S → S → Prop := fun o o' ↦ SameQuotes (K.states o) (K.states o')
  have hrefl : ∀ o, R o o := fun o ↦ .refl _
  have htrans : ∀ o o' o'', R o o' → R o' o'' → R o o'' := fun _ _ _ ↦ SameQuotes.trans _ _ _
  have hkeeps : Proc.Keeps R (K.updateAll lib logs users) := by
    induction logs generalizing users with
    | nil => exact Proc.keeps_pure hrefl users
    | cons log logs ih =>
      refine Proc.keeps_bind htrans (fun o ↦ ?_) fun temp ↦ ih (users.update temp)
      exact (sameQuotes_step lib log _).trans _ _ _ (.of_ctokens (hK.ctokens lib log o))
  exact hkeeps o

theorem sameQuotes_usersSubscribeCallback (hK : K.Extends) (lib : EthLibs) (node : UsersNode)
    (clock : UsersClock) (response : LogReceiptLight) :
    Proc.Keeps (AtStates K SameQuotes) (usersSubscribeCallback K lib node clock response) := by
  have hrefl : ∀ g : Globals S, AtStates K SameQuotes g g := fun g ↦ .refl _
  have htrans : ∀ g g' g'' : Globals S, AtStates K SameQuotes g g' → AtStates K SameQuotes g' g'' →
      AtStates K SameQuotes g g'' := fun _ _ _ ↦ SameQuotes.trans _ _ _
  refine Proc.keeps_bind htrans (Proc.keeps_ofExcept hrefl _) fun logs ↦ ?_
  refine Proc.keeps_bind htrans (Proc.keeps_read hrefl) fun g ↦ ?_
  refine Proc.keeps_ite (fun _ ↦ Proc.keeps_pure hrefl ()) fun _ ↦ ?_
  refine Proc.keeps_bind htrans (Proc.keeps_bind htrans (fun g ↦ ?_) fun users ↦ ?_) fun users ↦ ?_
  · exact sameQuotes_updateAll hK lib logs ∅ g.states
  · refine Proc.keeps_bind htrans (fun g ↦ ?_) fun _ ↦ Proc.keeps_pure hrefl _
    refine (keeps_onStates (K := K) (R := SameQuotes) (Proc.keeps_modify ?_) g).1
    exact fun s ↦ .of_ctokens rfl
  · exact keeps_followUp .refl .trans (fun _ _ _ ↦ .of_ctokens rfl) (fun _ _ _ ↦ .of_ctokens rfl)
      (fun _ _ _ ↦ .of_ctokens rfl) (fun _ ↦ .of_ctokens rfl) lib node clock _

theorem sameQuotes_writeHealthFactor (results : List HfResult) :
    Proc.Keeps (AtStates K SameQuotes) (onStates K (States.writeHealthFactor results)) := fun g ↦
  (keeps_onStates (K := K) (keeps_writeHealthFactor SameQuotes.refl SameQuotes.trans
    (fun _ _ _ ↦ .of_ctokens rfl) results) g).1

end Same

/-! ## What the markets are quoted at -/

section Markets

variable {L : Type} {env : MainEnv L}

variable (env) in
/-- The markets with the `configs` of the program. -/
def Configured (d : Markets) : Prop :=
  ∀ token infos, d.get? token = some infos → infos.configs = env.configs token

/-- The quote of a market. -/
def quoteObject (token : String) (d : Markets) : Option Quote :=
  (d.get? token).map fun infos ↦ infos.quote

theorem Configured.modify {d : Markets} (h : Configured env d) (token : String)
    (f : CtokenPrice → CtokenPrice) :
    Configured env (d.modify token (CtokenInfosFull.onPrice f)) := by
  intro token' infos hinfos
  rw [Dict.get?_modify] at hinfos
  split_ifs at hinfos with htoken
  · obtain ⟨infos', hinfos', rfl⟩ := Option.map_eq_some_iff.mp hinfos
    exact h token' infos' hinfos'
  · exact h token' infos hinfos

theorem quoteObject_modify (d : Markets) (token token' : String) (f : CtokenPrice → CtokenPrice) :
    quoteObject token' (d.modify token (CtokenInfosFull.onPrice f)) =
      if token' = token then (quoteObject token d).map fun q ↦ { q with price := q.price.map f }
      else quoteObject token' d := by
  rw [quoteObject, Dict.get?_modify]
  split_ifs with htoken
  · rw [htoken, quoteObject, Option.map_map, Option.map_map]
    rfl
  · rfl

variable (env) in
/-- An assignment to the price of a token is a move of that token. -/
theorem replays_modify (token token' : String) (f : CtokenPrice → CtokenPrice) (move : QuoteMove)
    (hmove : ∀ q : Quote, { q with price := q.price.map f } = q.move env.net move) :
    Proc.Replays (Configured env) (quoteObject token') (moveQuote env.net)
      (if token = token' then [move] else [])
      (Proc.modify fun d ↦ d.modify token (CtokenInfosFull.onPrice f) :
        Proc Markets Error Unit) := by
  intro d hd
  refine ⟨hd.modify token f, Proc.replaysAt_modify ?_⟩
  rw [quoteObject_modify]
  by_cases htoken : token = token'
  · rw [if_pos htoken, if_pos htoken.symm, ← htoken]
    exact congrArg (fun f ↦ (quoteObject token d).map f) (funext hmove)
  · rw [if_neg htoken, if_neg (Ne.symm htoken)]
    rfl

variable (env) in
/-- The price loop of `pt`. -/
theorem replays_priceLoop (clock : ℕ → ℤ) (token : String) (res : List SignalEntry) :
    ∀ (tokensAddr : List String) (deltaMax : ℚ),
      Proc.Replays (Configured env) (quoteObject token) (moveQuote env.net)
        (env.pendingMoves clock token tokensAddr.length res)
        (priceLoop env.cls clock res tokensAddr deltaMax) := by
  induction res with
  | nil => exact fun tokensAddr deltaMax ↦ Proc.replays_pure _
  | cons r res ih =>
    intro tokensAddr deltaMax d hd
    have hrun := @run_priceLoop_cons env.cls clock d r res tokensAddr deltaMax
    rcases hdelta : newPriceAndDelta env.cls d r with e | ⟨newPrice, newDelta⟩
    · rw [hdelta] at hrun
      refine ⟨?_, Proc.replaysAt_of_error hrun⟩
      rw [hrun]
      exact hd
    rw [hdelta] at hrun
    obtain ⟨infos, hinfos, hdelta⟩ := exists_of_bind_ok hdelta
    obtain ⟨price, hprice, hdelta⟩ := exists_of_bind_ok hdelta
    obtain ⟨oldPrice, -, hdelta⟩ := exists_of_bind_ok hdelta
    obtain ⟨quotient, -, hdelta⟩ := exists_of_bind_ok hdelta
    obtain ⟨rfl, -⟩ := Prod.mk.inj (Except.ok.inj hdelta)
    rw [env.cls.getOraclePrice_eq, hd _ infos (Dict.item_eq_ok_iff.mp hinfos)] at hprice
    have hnew : env.newPrice r.tokenAddr r.price r.feedDecimals = price := Except.ok.inj hprice
    have hmodify := replays_modify env r.tokenAddr token
      (CtokenPrice.update price (clock tokensAddr.length))
      (.pending price (clock tokensAddr.length)) fun _ ↦ rfl
    obtain ⟨hconfigured, hreplays⟩ := Proc.replays_bind hmodify (fun _ ↦
      ih (tokensAddr ++ [r.tokenAddr])
        (if |newDelta| > |deltaMax| then newDelta else deltaMax)) d hd
    rw [MainEnv.pendingMoves, hnew]
    rw [List.length_append, List.length_singleton] at hreplays
    refine ⟨?_, Proc.replaysAt_of_run_eq ?_ rfl hreplays⟩
    · rw [hrun]
      exact hconfigured
    · exact hrun

/-- One token of an aggregator. -/
theorem replays_confirmToken (token : String) (log : LogReceipt) (info : AggregatorInfos) :
    Proc.Replays (Configured env) (quoteObject token) (moveQuote env.net)
      (env.confirmMoves token log info) (confirmToken env.lib env.cls log info) := by
  intro d hd
  rcases hobject : priceObject d info.token with _ | price
  · obtain ⟨e, hrun⟩ := @run_confirmToken_of_none env.lib env.cls log d info hobject
    refine ⟨?_, Proc.replaysAt_of_error hrun⟩
    rw [hrun]
    exact hd
  obtain ⟨infos, hinfos, hprice⟩ := Option.bind_eq_some_iff.mp hobject
  have hrun := @run_confirmToken_of_some env.lib env.cls log d info infos price hinfos hprice
  have hstate : ∀ price', quoteObject token (d.modify info.token
      (CtokenInfosFull.onPrice fun _ ↦ price')) = if token = info.token
        then some ⟨some price', infos.risks.exchangeRate⟩ else quoteObject token d := by
    intro price'
    rw [quoteObject_modify, quoteObject, hinfos, Option.map_some, Option.map_some,
      CtokenInfos.quote, hprice]
    rfl
  have hquote : token = info.token →
      quoteObject token d = some ⟨some price, infos.risks.exchangeRate⟩ := by
    rintro rfl
    rw [quoteObject, hinfos, Option.map_some, CtokenInfos.quote, hprice]
  rw [MainEnv.confirmMoves]
  rcases hanswer : log.answer? env.lib with _ | answer
  · -- the price is assigned to itself
    dsimp only at hrun
    rw [confirm_of_no_answer hanswer] at hrun
    refine ⟨?_, ?_⟩
    · rw [hrun]
      exact hd.modify _ _
    · rw [Option.toList_none, List.map_nil, ite_self]
      apply Proc.replaysAt_of_eq
      rw [hrun, hstate]
      split_ifs with htoken
      · exact (hquote htoken).symm
      · rfl
  · have hscale : env.cls.confirmScale (answer, info.priceDecimals.toNat, infos.configs)
        = .ok (env.newPrice info.token answer info.priceDecimals) := by
      rw [SignalsClass.confirmScale, env.cls.getOraclePrice_eq, hd _ infos hinfos]
      rfl
    rw [run_confirm_of_answer hanswer hscale] at hrun
    refine ⟨?_, Proc.replaysAt_of_run_eq (y := Proc.modify fun d ↦ _) hrun rfl ?_⟩
    · rw [hrun]
      exact hd.modify _ _
    · apply Proc.replaysAt_modify
      rw [hstate, Option.toList_some, List.map_singleton]
      by_cases htoken : token = info.token
      · rw [if_pos htoken, if_pos htoken.symm, hquote htoken]
        rfl
      · rw [if_neg htoken, if_neg (Ne.symm htoken)]
        rfl

/-- The events of the aggregators. -/
theorem replays_signalsSubscribeCallback (signals : Signals) (response : LogReceiptLight)
    (token : String) :
    Proc.Replays (Configured env) (quoteObject token) (moveQuote env.net)
      (env.priceMoves signals response token)
      (signalsSubscribeCallback env.lib env.cls signals response) := by
  rw [signalsSubscribeCallback, MainEnv.priceMoves]
  rcases converter env.lib response with e | logs
  · exact fun d hd ↦ ⟨hd, Proc.replaysAt_of_error rfl⟩
  refine Proc.replays_forEach fun log _ ↦ ?_
  rw [Dict.item, Dict.getD]
  rcases signals.signalTokenMap.get? log.address.toLower with _ | infos
  · exact fun d hd ↦ ⟨hd, Proc.replaysAt_of_error rfl⟩
  · exact Proc.replays_forEach fun info _ ↦ replays_confirmToken token log info

end Markets

/-! ## Callbacks -/

section Callbacks

variable {L : Type} {env : MainEnv L} {S : Type} {K : StatesClass S}

/-- The quote of a market in the program. -/
def Main.quote? (K : StatesClass S) (token : String) (m : Main S) : Option Quote :=
  m.globals.quote? K token

theorem configured_marketsOf (ctokens : Dict String CtokenInfos) :
    Configured env (marketsOf env ctokens) := by
  intro token infos hinfos
  rw [marketsOf, Dict.get?_mapWithKey] at hinfos
  obtain ⟨infos', -, rfl⟩ := Option.map_eq_some_iff.mp hinfos
  rfl

theorem quoteObject_marketsOf (s : States) (token : String) :
    quoteObject token (marketsOf env s.ctokens) = s.quote? token := by
  rw [quoteObject, marketsOf, Dict.get?_mapWithKey, Option.map_map]
  rfl

/-- What replays moves on the markets does so on the program. -/
theorem replaysAt_onMarkets {α : Type} {token : String} {moves : List QuoteMove}
    {x : Proc Markets Error α} (h : Proc.Replays (Configured env) (quoteObject token)
      (moveQuote env.net) moves x) (m : Main S) :
    Proc.ReplaysAt (Main.quote? K token) (moveQuote env.net) moves
      (onGlobals (onMarkets env K x)) m := by
  obtain ⟨-, done, hfirst, hquote, hall⟩ := h _ (configured_marketsOf
    (K.states m.globals.states).ctokens)
  refine ⟨done, hfirst, ?_, hall⟩
  rw [quoteObject_marketsOf] at hquote
  refine Eq.trans ?_ hquote
  change (K.states (K.setStates _ _)).quote? token = _
  rw [K.states_setStates, States.quote?, quoteObject]
  change ((Dict.mapWithKey _ _).get? token).map _ = _
  rw [Dict.get?_mapWithKey, Option.map_map]
  rfl

/-- The quote of the token is as before. -/
def SameQuote (K : StatesClass S) (token : String) (m m' : Main S) : Prop :=
  m'.quote? K token = m.quote? K token

theorem SameQuote.refl (token : String) (m : Main S) : SameQuote K token m m := rfl

theorem SameQuote.trans (token : String) (m m' m'' : Main S) (h : SameQuote K token m m')
    (h' : SameQuote K token m' m'') : SameQuote K token m m'' := Eq.trans h' h

theorem SameQuote.of_globals {token : String} {m m' : Main S} (h : m'.globals = m.globals) :
    SameQuote K token m m' := congrArg (Globals.quote? · K token) h

theorem replays_of_keeps {α : Type} {x : Proc (Main S) Error α} {token : String}
    (h : Proc.Keeps (SameQuote K token) x) :
    Proc.Replays (fun _ ↦ True) (Main.quote? K token) (moveQuote env.net) [] x :=
  fun m _ ↦ ⟨trivial, Proc.replaysAt_of_eq (h m)⟩

theorem sameQuote_onGlobals {α : Type} {x : Proc (Globals S) Error α}
    (h : Proc.Keeps (AtStates K SameQuotes) x) (token : String) :
    Proc.Keeps (SameQuote K token) (onGlobals x) := fun m ↦ h m.globals token

/-! ### Headers -/

/-- An assignment to a market. -/
theorem quote?_onMarket (token token' : String) (f : CtokenInfos → CtokenInfos) (m : Main S) :
    Main.quote? K token' ((onGlobals (onStates K (Proc.modify (States.onMarket token f))) :
      Proc (Main S) Error Unit).run m).2 = if token' = token
        then ((K.states m.globals.states).ctokens.get? token).map fun infos ↦ (f infos).quote
        else m.quote? K token' := by
  change (K.states (K.setStates _ _)).quote? token' = _
  rw [K.states_setStates]
  change ((Dict.modify _ token f).get? token').map CtokenInfos.quote = _
  rw [Dict.get?_modify]
  split_ifs with htoken
  · rw [htoken, Option.map_map]
    rfl
  · rfl

/-- Such an assignment is a move. -/
theorem replaysAt_onMarket {m : Main S} {token token' : String} {f : CtokenInfos → CtokenInfos}
    {move : QuoteMove} (hf : ∀ infos, (K.states m.globals.states).ctokens.get? token = some infos →
      (f infos).quote = infos.quote.move env.net move) :
    Proc.ReplaysAt (Main.quote? K token') (moveQuote env.net)
      (if token = token' then [move] else [])
      (onGlobals (onStates K (Proc.modify (States.onMarket token f))) : Proc (Main S) Error Unit)
        m := by
  refine ⟨_, List.prefix_rfl, ?_, fun _ _ ↦ rfl⟩
  rw [quote?_onMarket]
  by_cases htoken : token = token'
  · rw [if_pos htoken, if_pos htoken.symm, runFrom_singleton, ← htoken, Main.quote?,
      Globals.quote?, States.quote?, moveQuote, Option.map_map]
    rcases hinfos : (K.states m.globals.states).ctokens.get? token with _ | infos
    · rfl
    · exact congrArg some (hf infos hinfos)
  · rw [if_neg htoken, if_neg (Ne.symm htoken)]
    rfl

/-- Task 2 raises and changes nothing, or it assigns the answer of the node. -/
theorem run_refreshExchangeRate (node : HeaderNode) (blockNumber : ℕ) (g : Globals S) :
    (∃ e, (refreshExchangeRate env K node blockNumber).run g = (.error e, g)) ∨
    ∃ token exchangeRate, env.reservesInit[blockNumber % env.reservesInit.length]? = some token ∧
      node.exchangeRateStored token = .ok exchangeRate ∧
      (refreshExchangeRate env K node blockNumber).run g
        = (onStates K (Proc.modify (States.onMarket token fun infos ↦
          { infos with risks := { infos.risks with exchangeRate := exchangeRate } }))).run g := by
  rw [refreshExchangeRate]
  by_cases hlen : env.reservesInit.length = 0
  · rw [if_pos hlen]
    exact .inl ⟨_, rfl⟩
  rw [if_neg hlen, Proc.ofOption, Proc.run_bind, Proc.run_ofExcept]
  rcases htoken : env.reservesInit[blockNumber % env.reservesInit.length]? with _ | token
  · exact .inl ⟨_, rfl⟩
  dsimp only [okOr_some]
  rw [Proc.run_bind, Proc.run_ofExcept]
  rcases hrate : node.exchangeRateStored token with e | exchangeRate
  · exact .inl ⟨_, rfl⟩
  dsimp only
  rw [Proc.run_bind, Proc.run_read]
  dsimp only
  rw [Proc.run_bind, Proc.run_ofExcept]
  rcases (K.states g.states).ctokens.item token with e | infos
  · exact .inl ⟨_, rfl⟩
  · exact .inr ⟨token, exchangeRate, rfl, hrate, rfl⟩

variable (env K) in
theorem replays_refreshExchangeRate (node : HeaderNode) (blockNumber : ℕ) (token : String) :
    Proc.Replays (fun _ ↦ True) (Main.quote? K token) (moveQuote env.net)
      (env.rateMoves node blockNumber token)
      (onGlobals (refreshExchangeRate env K node blockNumber)) := by
  intro m _
  refine ⟨trivial, ?_⟩
  obtain ⟨e, hrun⟩ | ⟨token', exchangeRate, htoken, hrate, hrun⟩ :=
    @run_refreshExchangeRate L env S K node blockNumber m.globals
  · refine Proc.replaysAt_of_error (e := e) ?_
    rw [onGlobals, Proc.run_zoom, hrun]
  · rw [MainEnv.rateMoves, htoken]
    have hmove := @replaysAt_onMarket L env S K m token' token (fun infos ↦
      { infos with risks := { infos.risks with exchangeRate := exchangeRate } })
        (.rate exchangeRate) fun _ _ ↦ rfl
    refine Proc.replaysAt_of_run_eq ?_ rfl (y := onGlobals (onStates K (Proc.modify
      (States.onMarket token' fun infos ↦
        { infos with risks := { infos.risks with exchangeRate := exchangeRate } })))) ?_
    · rw [onGlobals, Proc.run_zoom, hrun]
      rfl
    · convert hmove using 1
      by_cases heq : token' = token
      · rw [if_pos heq, if_pos (congrArg some heq), ← heq, hrate]
        rfl
      · rw [if_neg heq, if_neg fun h ↦ heq (Option.some_inj.mp h)]

/-- Task 3 for one market raises and changes nothing, or it assigns the price again. -/
theorem run_revertPrice (clock : String → ℤ) (reserve : String) (g : Globals S) :
    (∃ e, (revertPrice env K clock reserve).run g = (.error e, g)) ∨
    ∃ infos price, (K.states g.states).ctokens.get? reserve = some infos ∧
      infos.price = some price ∧ (revertPrice env K clock reserve).run g
        = (onStates K (Proc.modify (States.onMarket reserve fun infos ↦
          { infos with price := some (price.revert env.net (clock reserve)) }))).run g := by
  rw [revertPrice, Proc.run_bind, Proc.run_read]
  dsimp only
  rw [Proc.run_bind, Proc.run_ofExcept]
  rcases hinfos : (K.states g.states).ctokens.item reserve with e | infos
  · exact .inl ⟨_, rfl⟩
  dsimp only
  rw [Proc.ofOption, Proc.run_bind, Proc.run_ofExcept]
  rcases hprice : infos.price with _ | price
  · exact .inl ⟨_, rfl⟩
  · exact .inr ⟨infos, price, Dict.item_eq_ok_iff.mp hinfos, hprice, rfl⟩

variable (env K) in
theorem replays_revertPrice (clock : String → ℤ) (token reserve : String) :
    Proc.Replays (fun _ ↦ True) (Main.quote? K token) (moveQuote env.net)
      (if reserve = token then [.timeout (clock token)] else [])
      (onGlobals (revertPrice env K clock reserve)) := by
  intro m _
  refine ⟨trivial, ?_⟩
  obtain ⟨e, hrun⟩ | ⟨infos, price, hinfos, hprice, hrun⟩ :=
    @run_revertPrice L env S K clock reserve m.globals
  · refine Proc.replaysAt_of_error (e := e) ?_
    rw [onGlobals, Proc.run_zoom, hrun]
  · have hmove := @replaysAt_onMarket L env S K m reserve token (fun infos ↦
      { infos with price := some (price.revert env.net (clock reserve)) })
      (.timeout (clock reserve)) fun infos' hinfos' ↦ by
        obtain rfl := Option.some_inj.mp (hinfos.symm.trans hinfos')
        rw [CtokenInfos.quote, CtokenInfos.quote, hprice]
        rfl
    refine Proc.replaysAt_of_run_eq ?_ rfl (y := onGlobals (onStates K (Proc.modify
      (States.onMarket reserve fun infos ↦
        { infos with price := some (price.revert env.net (clock reserve)) })))) ?_
    · rw [onGlobals, Proc.run_zoom, hrun]
      rfl
    · convert hmove using 1
      by_cases heq : reserve = token
      · rw [if_pos heq, if_pos heq, heq]
      · rw [if_neg heq, if_neg heq]

theorem onGlobals_bind {α β : Type} (x : Proc (Globals S) Error α)
    (f : α → Proc (Globals S) Error β) :
    (onGlobals (x >>= f) : Proc (Main S) Error β) = onGlobals x >>= fun a ↦ onGlobals (f a) := by
  refine funext fun m ↦ ?_
  change (onGlobals (x >>= f)).run m = (onGlobals x >>= fun a ↦ onGlobals (f a)).run m
  rw [Proc.run_bind, onGlobals, onGlobals, Proc.run_zoom, Proc.run_zoom, Proc.run_bind]
  rcases x.run m.globals with ⟨e | a, g⟩
  · rfl
  · rfl

theorem onGlobals_forEach {α : Type} (l : List α) (f : α → Proc (Globals S) Error Unit) :
    (onGlobals (Proc.forEach l f) : Proc (Main S) Error Unit)
      = Proc.forEach l fun a ↦ onGlobals (f a) := by
  induction l with
  | nil => rfl
  | cons a l ih =>
    rw [Proc.forEach_cons, Proc.forEach_cons, ← ih, onGlobals_bind]

variable (env K) in
theorem replays_updateMarkets (node : HeaderNode) (clock : String → ℤ) (infos : ChainInfos)
    (token : String) :
    Proc.Replays (fun _ ↦ True) (Main.quote? K token) (moveQuote env.net)
      (env.rateMoves node infos.blockNum token ++ env.reservesInit.flatMap fun reserve ↦
        if reserve = token then [.timeout (clock token)] else [])
      (updateMarkets env K node clock infos) := by
  have hfirst : Proc.Replays (fun _ ↦ True) (Main.quote? K token) (moveQuote env.net) []
      (Proc.modify fun m ↦ { m with blockInfos := infos } : Proc (Main S) Error Unit) :=
    replays_of_keeps fun m ↦ .refl token m
  have hrevert : Proc.Replays (fun _ ↦ True) (Main.quote? K token) (moveQuote env.net)
      (env.reservesInit.flatMap fun reserve ↦
        if reserve = token then [.timeout (clock token)] else [])
      (onGlobals (Proc.forEach env.reservesInit (revertPrice env K clock))) := by
    rw [onGlobals_forEach]
    exact Proc.replays_forEach fun reserve _ ↦ replays_revertPrice env K clock token reserve
  have hreplays := Proc.replays_bind hfirst fun _ ↦
    Proc.replays_bind (replays_refreshExchangeRate env K node infos.blockNum token) fun _ ↦ hrevert
  exact hreplays

variable (env K) in
theorem sameQuote_updateAccounts (node : HeaderNode) (token : String) :
    Proc.Keeps (SameQuote K token) (updateAccounts env K node) := by
  have htrans : ∀ m m' m'' : Main S, SameQuote K token m m' → SameQuote K token m' m'' →
      SameQuote K token m m'' := SameQuote.trans token
  refine Proc.keeps_bind htrans (fun m ↦ .refl token m) fun _ ↦ ?_
  refine Proc.keeps_bind htrans (Proc.keeps_read (.refl token)) fun m ↦ ?_
  refine Proc.keeps_bind htrans (Proc.keeps_ofExcept (.refl token) _) fun infos ↦ ?_
  exact Proc.keeps_bind htrans (Proc.keeps_ofExcept (.refl token) _) fun bnbPrice m ↦ .refl token m

theorem replaysAt_onMessage (node : HeaderNode) (clock : String → ℤ) (message : Option BlockHeader)
    (token : String) (m : Main S) :
    Proc.ReplaysAt (Main.quote? K token) (moveQuote env.net)
      (env.headerMoves node clock token message) (onMessage env K node clock message) m := by
  rcases message with _ | result
  · exact Proc.replaysAt_of_eq rfl
  have hrun := run_onMessage env K node clock result m
  rw [MainEnv.headerMoves]
  rcases hinfos : env.headerInfos node result with e | infos
  · rw [hinfos] at hrun
    exact Proc.replaysAt_of_error hrun
  · rw [hinfos] at hrun
    have hreplays := (Proc.replays_bind (replays_updateMarkets env K node clock infos token)
      fun _ ↦ replays_of_keeps (sameQuote_updateAccounts env K node token)) m trivial
    rw [List.append_nil] at hreplays
    exact Proc.replaysAt_of_run_eq hrun rfl hreplays.2

/-! ### Signals -/

theorem sameQuote_finishSignal (task : SignalTask) (token : String) :
    Proc.Keeps (SameQuote K token) (finishSignal K task) :=
  Proc.keeps_bind (SameQuote.trans token)
    (sameQuote_onGlobals (sameQuotes_writeHealthFactor _) token) fun _ ↦
      Proc.keeps_modify fun m ↦ .refl token m

theorem sameQuote_sendLiquidations (uniqueId : String → String) (results : List HfResult)
    (sig : Option SignalInfos) (signalRecv : Option SignalRecv) (token : String) :
    Proc.Keeps (SameQuote K token) (sendLiquidations env K uniqueId results sig signalRecv) :=
  fun m ↦ .of_globals (elsewhere_sendLiquidations env K uniqueId results sig signalRecv m).globals

theorem replaysAt_handleSignal (clock : SignalClock) (uniqueId : String → String)
    (sig : SignalInfos) (res : List SignalEntry) (aggr token : String) (m : Main S) :
    Proc.ReplaysAt (Main.quote? K token) (moveQuote env.net)
      (env.pendingMoves clock.atRound token 0 res)
      (handleSignal env K clock uniqueId sig res aggr) m := by
  have htrans : ∀ m m' m'' : Main S, SameQuote K token m m' → SameQuote K token m' m'' →
      SameQuote K token m m'' := SameQuote.trans token
  have hloop := replaysAt_onMarkets (K := K) (replays_priceLoop env clock.atRound token res [] 0) m
  rw [← List.append_nil (env.pendingMoves clock.atRound token 0 res)]
  refine Proc.replaysAt_bind hloop fun _ m' _ ↦ Proc.replaysAt_of_eq ?_
  -- behind the prices
  rw [Proc.run_bind, Proc.run_read]
  dsimp only
  by_cases hempty : (m'.globals.usersPreFiltered.getD aggr []).length = 0
  · rw [if_pos hempty]
    rfl
  rw [if_neg hempty]
  refine (Proc.keeps_bind htrans (Proc.keeps_ofExcept (.refl token) _) fun results ↦ ?_ :
    Proc.Keeps (SameQuote K token) _) m'
  refine Proc.keeps_bind htrans (sameQuote_sendLiquidations uniqueId results _ _ token) fun _ ↦ ?_
  refine Proc.keeps_ite (fun _ ↦ Proc.keeps_pure (.refl token) _) fun _ ↦ ?_
  exact Proc.keeps_bind htrans (sameQuote_finishSignal _ token) fun _ ↦
    Proc.keeps_pure (.refl token) _

theorem replaysAt_pt (clock : SignalClock) (uniqueId : String → String) (message : PendingTx)
    (token : String) {m : Main S} (hfree : m.signalTask = none) :
    Proc.ReplaysAt (Main.quote? K token) (moveQuote env.net)
      (m.movesOf env token (.signal clock uniqueId message))
      (pt env K clock uniqueId message) m := by
  rw [Main.movesOf, hfree]
  rcases hentries : (ptEntries env.ninety message.toTxAttributes m.blockInfos.gasPrice).run
    m.globals.signals with ⟨e | ⟨res, aggr⟩, signals⟩
  · apply Proc.replaysAt_of_eq
    rw [Proc.run, pt, hentries]
    rfl
  · rcases hrecorded : recordTx env.rawTransaction message with e | ⟨rawTx, gasFee⟩
    · exact Proc.replaysAt_of_run_eq (y := Proc.ofExcept (.error e))
        (run_pt_of_unrecorded message hentries hrecorded) rfl (Proc.replaysAt_of_error rfl)
    exact Proc.replaysAt_of_run_eq (run_pt_of_entries message hentries hrecorded) rfl
      (replaysAt_handleSignal clock uniqueId _ res aggr token _)

/-! ### Idle ticks -/

theorem sameQuote_idlePeriodic (clock : Clock) (token : String) :
    Proc.Keeps (SameQuote K token) (idlePeriodic env K clock) := by
  refine keeps_idlePeriodic (.refl token) (SameQuote.trans token) (fun _ m ↦ .refl token m)
    (fun update ↦ sameQuote_onGlobals ?_ token) (fun m _ ↦ .refl token m) clock
  cases update with
  | nothing => exact Proc.keeps_pure (fun g ↦ .refl _) ()
  | healthFactors results => exact sameQuotes_writeHealthFactor results
  | preFiltered aggr users => exact Proc.keeps_modify fun g ↦ .refl _

theorem sameQuote_liquidationIdle (clock : Clock) (uniqueId : String → String) (token : String) :
    Proc.Keeps (SameQuote K token) (liquidationIdle env K clock uniqueId) := by
  have htrans : ∀ m m' m'' : Main S, SameQuote K token m m' → SameQuote K token m' m'' →
      SameQuote K token m m'' := SameQuote.trans token
  refine Proc.keeps_bind htrans (Proc.keeps_read (.refl token)) fun m ↦ ?_
  refine Proc.keeps_bind htrans (Proc.keeps_modify fun m ↦ .refl token m) fun _ ↦ ?_
  refine Proc.keeps_ite (fun _ ↦ ?_) fun _ ↦ ?_
  · refine Proc.keeps_bind htrans (Proc.keeps_read (.refl token)) fun m ↦ ?_
    refine Proc.keeps_bind htrans (Proc.keeps_ofExcept (.refl token) _) fun results ↦ ?_
    refine Proc.keeps_bind htrans (sameQuote_sendLiquidations uniqueId results _ _ token) fun _ ↦ ?_
    refine Proc.keeps_ite (fun _ ↦ Proc.keeps_pure (.refl token) _) fun _ ↦ ?_
    exact Proc.keeps_bind htrans (sameQuote_onGlobals (sameQuotes_writeHealthFactor results) token)
      fun _ ↦ Proc.keeps_pure (.refl token) _
  · exact Proc.keeps_bind htrans (sameQuote_idlePeriodic clock token) fun _ ↦
      Proc.keeps_pure (.refl token) _

end Callbacks

/-! ## Steps -/

section Steps

variable {L : Type} {env : MainEnv L} {S : Type} {K : StatesClass S}

variable (env K) in
/-- The callback of the event returns: `on_message` without an exception, since one of a lost
connection is not counted, and each other callback without a counted one. -/
def Main.Returns (m : Main S) : Event → Prop
  | .header node clock message => ((onMessage env K node clock message).run m).1 = .ok ()
  | e => (m.step env K e).failures = m.failures

variable (env K) in
/-- What a step may have done to a quote: some of the moves of its event from the front, and all of
them if the callback returns. -/
structure Main.Makes (m : Main S) (token : String) (e : Event) (done : List QuoteMove) : Prop where
  ended : m.Stopped → done = []
  first : done <+: m.movesOf env token e
  all : ¬ m.Stopped → m.Returns env K e → done = m.movesOf env token e

variable (env K) in
/-- No exception is counted in the middle of a callback. -/
theorem failures_pt (clock : SignalClock) (uniqueId : String → String) (message : PendingTx)
    (m : Main S) : ((pt env K clock uniqueId message).run m).2.failures = m.failures := by
  let R : Main S → Main S → Prop := fun m m' ↦ m'.failures = m.failures
  have hrefl : ∀ m, R m m := fun _ ↦ rfl
  have htrans : ∀ m m' m'', R m m' → R m' m'' → R m m'' := fun _ _ _ h h' ↦ h'.trans h
  have hsend : ∀ results sig recv,
      Proc.Keeps R (sendLiquidations env K uniqueId results sig recv) := by
    intro results sig recv
    refine Proc.keeps_bind htrans (Proc.keeps_read hrefl) fun m ↦ ?_
    refine Proc.keeps_bind htrans (fun m ↦ hrefl m) fun _ ↦ ?_
    exact Proc.keeps_bind htrans (fun m ↦ hrefl m) fun _ ↦ Proc.keeps_pure hrefl _
  have hfinish : ∀ task, Proc.Keeps R (finishSignal K task) := fun task ↦
    Proc.keeps_bind htrans (fun m ↦ hrefl m) fun _ ↦ Proc.keeps_modify fun m ↦ hrefl m
  have hhandle : ∀ sig res aggr, Proc.Keeps R (handleSignal env K clock uniqueId sig res aggr) := by
    intro sig res aggr
    refine Proc.keeps_bind htrans (fun m ↦ hrefl m) fun _ ↦ ?_
    refine Proc.keeps_bind htrans (Proc.keeps_read hrefl) fun m ↦ ?_
    refine Proc.keeps_ite (fun _ ↦ Proc.keeps_pure hrefl _) fun _ ↦ ?_
    refine Proc.keeps_bind htrans (Proc.keeps_ofExcept hrefl _) fun results ↦ ?_
    refine Proc.keeps_bind htrans (hsend _ _ _) fun _ ↦ ?_
    refine Proc.keeps_ite (fun _ ↦ Proc.keeps_pure hrefl _) fun _ ↦ ?_
    exact Proc.keeps_bind htrans (hfinish _) fun _ ↦ Proc.keeps_pure hrefl _
  rw [Proc.run, pt]
  rcases (ptEntries env.ninety message.toTxAttributes m.blockInfos.gasPrice).run
    m.globals.signals with ⟨e | ⟨res, aggr⟩, signals⟩
  · rfl
  refine (Proc.keeps_bind htrans (Proc.keeps_ofExcept hrefl _) fun recorded ↦ ?_ : Proc.Keeps R _)
    { m with globals := { m.globals with signals := signals } }
  refine Proc.keeps_bind htrans (Proc.keeps_read hrefl) fun m ↦ ?_
  exact Proc.keeps_bind htrans (Proc.keeps_modify fun m ↦ hrefl m) fun _ ↦ hhandle _ res aggr

theorem sameQuote_fail (task : TaskName) (e : Error) (token : String) (m : Main S) :
    SameQuote K token m (m.fail env task e) := by
  rw [Main.fail]
  split_ifs
  · rfl
  · rfl

variable (env K) in
/-- What the step does to the quote of a token are moves of its event. -/
def Main.Moves (m : Main S) (token : String) (e : Event) : Prop :=
  ∃ done, m.Makes env K token e done ∧ (m.step env K e).quote? K token
    = runFrom (moveQuote env.net) (m.quote? K token) done

theorem moves_of_sameQuote {m : Main S} {token : String} {e : Event}
    (hmoves : m.movesOf env token e = []) (hquote : SameQuote K token m (m.step env K e)) :
    m.Moves env K token e :=
  ⟨[], ⟨fun _ ↦ rfl, List.nil_prefix, fun _ _ ↦ hmoves.symm⟩, hquote⟩

theorem sameQuote_perform {task : TaskName} {x : Proc (Main S) Error Unit} {token : String}
    {m : Main S} (hx : Proc.Keeps (SameQuote K token) x) :
    SameQuote K token m (m.perform env task x) := by
  have hrun : SameQuote K token m (x.run m).2 := hx m
  rw [Main.perform]
  generalize x.run m = r at hrun ⊢
  obtain ⟨e | _, m'⟩ := r
  · exact hrun.trans token m m' _ (sameQuote_fail task e token m')
  · exact hrun

/-- A callback that replays the moves of its event. -/
theorem moves_of_replaysAt {m : Main S} {token : String} {e : Event} {task : TaskName}
    {x : Proc (Main S) Error Unit} (hrunning : ¬ m.Stopped)
    (hstep : m.step env K e = m.perform env task x)
    (hreplays : Proc.ReplaysAt (Main.quote? K token) (moveQuote env.net) (m.movesOf env token e) x
      m)
    (hreturns : m.Returns env K e → (x.run m).1 = .ok ()) : m.Moves env K token e := by
  obtain ⟨done, hfirst, hquote, hall⟩ := hreplays
  refine ⟨done, ⟨fun hstopped ↦ absurd hstopped hrunning, hfirst,
    fun _ h ↦ hall () (hreturns h)⟩, ?_⟩
  rw [hstep, ← hquote, Main.perform]
  rcases x.run m with ⟨e | _, m'⟩
  · exact sameQuote_fail task e token m'
  · rfl

/-- Behind any other task than the header's an exception is counted. -/
theorem returns_of_failures {m : Main S} {task : TaskName} (htask : task ≠ .header)
    {x : Proc (Main S) Error Unit} (hcallback : (x.run m).2.failures = m.failures)
    (hcounted : (m.perform env task x).failures = m.failures) : (x.run m).1 = .ok () := by
  rw [Main.perform] at hcounted
  rcases hrun : x.run m with ⟨e | _, m'⟩
  · rw [hrun] at hcallback hcounted
    have hfail : m'.fail env task e = { m' with
        failures := Function.update m'.failures task (m'.failures task + 1) } :=
      if_neg fun hlost ↦ htask hlost.1
    dsimp only at hcounted
    rw [hfail] at hcounted
    have hone := congrFun hcounted task
    dsimp only at hone
    rw [Function.update_self, ← hcallback] at hone
    exact absurd hone (Nat.succ_ne_self _)
  · rfl

/-! ### Events -/

theorem moves_prices {m : Main S} (hrunning : ¬ m.Stopped) (token : String)
    (response : LogReceiptLight) : m.Moves env K token (.prices response) := by
  have hstep : m.step env K (.prices response) = m.handle env K (.prices response) :=
    if_neg hrunning
  refine moves_of_replaysAt hrunning hstep (replaysAt_onMarkets
    (replays_signalsSubscribeCallback m.globals.signals response token) m) fun hreturns ↦ ?_
  have hcounted : (m.step env K (.prices response)).failures = m.failures := hreturns
  rw [hstep] at hcounted
  exact returns_of_failures (by decide) rfl hcounted

theorem moves_header {m : Main S} (hrunning : ¬ m.Stopped) (token : String) (node : HeaderNode)
    (clock : String → ℤ) (message : Option BlockHeader) :
    m.Moves env K token (.header node clock message) :=
  moves_of_replaysAt hrunning (if_neg hrunning) (replaysAt_onMessage node clock message token m) id

theorem moves_signal {m : Main S} (hrunning : ¬ m.Stopped) (token : String) (clock : SignalClock)
    (uniqueId : String → String) (message : PendingTx) :
    m.Moves env K token (.signal clock uniqueId message) := by
  have hstep : m.step env K (.signal clock uniqueId message)
      = m.handle env K (.signal clock uniqueId message) := if_neg hrunning
  rcases hfree : m.signalTask with _ | task
  · have hhandle : m.step env K (.signal clock uniqueId message) = m.perform env .pending (do
        let task ← pt env K clock uniqueId message
        Proc.modify fun m ↦ { m with signalTask := task }) := by
      rw [hstep, Main.handle, hfree]
    refine moves_of_replaysAt hrunning hhandle ?_ fun hreturns ↦ ?_
    · rw [← List.append_nil (m.movesOf env token _)]
      exact Proc.replaysAt_bind (replaysAt_pt clock uniqueId message token hfree) fun task m' _ ↦
        Proc.replaysAt_of_eq rfl
    · have hcounted : (m.step env K (.signal clock uniqueId message)).failures = m.failures :=
        hreturns
      rw [hhandle] at hcounted
      refine returns_of_failures (by decide) ?_ hcounted
      have hfailures := failures_pt env K clock uniqueId message m
      rw [Proc.run_bind]
      rcases hrun : (pt env K clock uniqueId message).run m with ⟨e | task, m'⟩
      all_goals
        rw [hrun] at hfailures
        exact hfailures
  · -- the task before still waits
    refine moves_of_sameQuote ?_ ?_
    · rw [Main.movesOf, hfree]
    · rw [hstep, Main.handle, hfree]
      rfl

theorem sameQuote_signalDone (m : Main S) (token : String) :
    SameQuote K token m (m.handle env K .signalDone) := by
  rw [Main.handle]
  rcases m.signalTask with _ | task
  · rfl
  · exact sameQuote_perform (m := { m with signalTask := none })
      (sameQuote_finishSignal task token)

theorem sameQuote_idle (m : Main S) (token : String) (clock : Clock) (uniqueId : String → String) :
    SameQuote K token m (m.handle env K (.idle clock uniqueId)) := by
  rw [Main.handle]
  rcases m.idleTask with _ | results
  · exact sameQuote_perform (Proc.keeps_bind (SameQuote.trans token)
      (sameQuote_liquidationIdle clock uniqueId token) fun _ m ↦ .refl token m)
  · rfl

theorem sameQuote_idleDone (m : Main S) (token : String) :
    SameQuote K token m (m.handle env K .idleDone) := by
  rw [Main.handle]
  rcases m.idleTask with _ | results
  · rfl
  · exact sameQuote_perform (m := { m with idleTask := none })
      (sameQuote_onGlobals (sameQuotes_writeHealthFactor results) token)

theorem moves_step (hK : K.Extends) (m : Main S) (token : String) (e : Event) :
    m.Moves env K token e := by
  by_cases hstopped : m.Stopped
  · have hstep : m.step env K e = m := if_pos hstopped
    refine ⟨[], ⟨fun _ ↦ rfl, List.nil_prefix, fun hrunning ↦ absurd hstopped hrunning⟩, ?_⟩
    rw [hstep]
    rfl
  have hsame : m.movesOf env token e = [] → SameQuote K token m (m.handle env K e) →
      m.Moves env K token e := fun hmoves hquote ↦ by
    refine moves_of_sameQuote hmoves ?_
    rw [Main.step, if_neg hstopped]
    exact hquote
  cases e with
  | prices response => exact moves_prices hstopped token response
  | header node clock message => exact moves_header hstopped token node clock message
  | signal clock uniqueId message => exact moves_signal hstopped token clock uniqueId message
  | users d => exact hsame rfl (sameQuote_perform (sameQuote_onGlobals
      (sameQuotes_usersSubscribeCallback hK env.lib d.node d.clock d.response) token))
  | comet response =>
    refine hsame rfl (sameQuote_perform (sameQuote_onGlobals ?_ token))
    exact fun g ↦ SameQuotes.refl (K.states g.states)
  | signalDone => exact hsame rfl (sameQuote_signalDone m token)
  | idle clock uniqueId => exact hsame rfl (sameQuote_idle m token clock uniqueId)
  | idleDone => exact hsame rfl (sameQuote_idleDone m token)
  | receipts receipts => exact hsame rfl rfl
  | lost task error => exact hsame rfl (sameQuote_fail task error token m)

/-! ## Runs -/

variable (env K) in
/-- The moves that the steps of a run make on the quote of a token. -/
inductive Main.History (m : Main S) (token : String) : List Event → List QuoteMove → Prop
  | nil : History m token [] []
  | concat {events : List Event} {moves : List QuoteMove} (history : History m token events moves)
    {e : Event} {done : List QuoteMove}
    (makes : (runFrom (Main.step env K) m events).Makes env K token e done) :
    History m token (events ++ [e]) (moves ++ done)

theorem exists_history (hK : K.Extends) (m : Main S) (token : String) (events : List Event) :
    ∃ moves, m.History env K token events moves ∧
      (runFrom (Main.step env K) m events).quote? K token
        = runFrom (moveQuote env.net) (m.quote? K token) moves := by
  induction events using List.reverseRecOn with
  | nil => exact ⟨[], .nil, rfl⟩
  | append_singleton events e ih =>
    obtain ⟨moves, history, hquote⟩ := ih
    obtain ⟨done, makes, hstep⟩ := @moves_step L env S K hK
      (runFrom (Main.step env K) m events) token e
    refine ⟨moves ++ done, .concat history makes, ?_⟩
    rw [runFrom_concat, hstep, hquote, runFrom_append]

/-- Every move is one of an event. -/
theorem Main.History.exists_event {m : Main S} {token : String} {events : List Event}
    {moves : List QuoteMove} (h : m.History env K token events moves) :
    ∀ move ∈ moves, ∃ before e after, events = before ++ e :: after ∧
      move ∈ (runFrom (Main.step env K) m before).movesOf env token e := by
  induction h with
  | nil => exact nofun
  | @concat events moves history e done makes ih =>
    intro move hmove
    obtain hold | hnew := List.mem_append.mp hmove
    · obtain ⟨before, e', after, heq, hmem⟩ := ih move hold
      refine ⟨before, e', after ++ [e], ?_, hmem⟩
      rw [heq, List.append_assoc, List.cons_append]
    · exact ⟨events, e, [], rfl, makes.first.subset hnew⟩

/-- **Quotes are replayed.** In every run the price and the exchange rate of a market are what they
were at the start after the moves of the run, each of which is one of an event. -/
theorem quotes_replay (hK : K.Extends) (m : Main S) (token : String) (events : List Event) :
    ∃ moves, m.History env K token events moves ∧
      (runFrom (Main.step env K) m events).quote? K token
        = runFrom (moveQuote env.net) (m.quote? K token) moves ∧
      ∀ move ∈ moves, ∃ before e after, events = before ++ e :: after ∧
        move ∈ (runFrom (Main.step env K) m before).movesOf env token e := by
  obtain ⟨moves, history, hquote⟩ := exists_history hK m token events
  exact ⟨moves, history, hquote, history.exists_event⟩

end Steps

theorem quotes_replay_small : ∃ moves,
    smallMain.History smallEnv highProfitSates "0xA" [smallSignal, .signalDone] moves ∧
      (runFrom (Main.step smallEnv highProfitSates) smallMain
        [smallSignal, .signalDone]).quote? highProfitSates "0xA"
          = runFrom (moveQuote smallEnv.net) (smallMain.quote? highProfitSates "0xA") moves ∧
      ∀ move ∈ moves, ∃ before e after, [smallSignal, .signalDone] = before ++ e :: after ∧
        move ∈ (runFrom (Main.step smallEnv highProfitSates) smallMain before).movesOf smallEnv
          "0xA" e :=
  quotes_replay HighProfitSates.extends_highProfitSates smallMain "0xA" _

end CompoundLiquidation
