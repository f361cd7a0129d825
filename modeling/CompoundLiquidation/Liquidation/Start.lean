import CompoundLiquidation.Bots.Gen
import CompoundLiquidation.Chain.Config
import CompoundLiquidation.Python.Float
import CompoundLiquidation.Transaction.Send
import CompoundLiquidation.Users.Tokens

/-!
# Starting a liquidation

`liquidation_start` gets a user with the pair of markets and the route the simulations have chosen.
It asks whether the user has been liquidated before, sets up the transaction, gives up if gas costs
more than the revenue or there is no route, remembers the user and signs with every account. The
table of liquidated users and the nonces of the accounts are all it changes.

The table is written at two places. `set_user_liquidated` is called just before signing. But
`is_user_liquidated`, which is to answer a question, also replaces the amount of an old entry, and
does so in front of all the checks.
-/

namespace CompoundLiquidation

open Python Abi

/-! ## Transactions -/

/-- The entries of a transaction about gas. -/
inductive TxFees where
  | type0 (gasPrice : ℤ)
  | type2 (maxFeePerGas maxPriorityFeePerGas : ℤ)
deriving DecidableEq

/-- `TxParams`. What is set after the creation is blank before. -/
structure TxParams where
  value : ℤ := 0
  gas : ℤ := 22000
  fees : TxFees
  data : Bytes := []
  toAddr : String := ""
  chainId : ℤ := 0
  nonce : ℤ := 0
deriving DecidableEq

/-- `CONNECTION[NETWORK]['chain_id']`. -/
def chainId : Network → Except Error ℤ
  | .ethereum => .ok 1
  | .polygon => .error (.keyError "chain_id")
  | .bsc => .ok 56

/-- `P_ALIAS['contract']`. -/
def contract : Network → Selector → Option String
  | .ethereum, .v2 => some ""
  | .bsc, .venus => some "0x57e0148EBA3eaB22295d668757BBF41a338E9bca"
  | _, _ => none

/-- `create_type0_tx`, with the gas price. -/
def createType0Tx (gasFee : ℤ) : TxParams × ℤ := ({ fees := .type0 gasFee }, gasFee)

/-- `create_type2_tx`, with the largest fee. -/
def createType2Tx (net : Network) (baseFee : ℤ) (mev : ℚ) : Except Error (TxParams × ℤ) := do
  let maxFeePerGas := truncate (toFloat (mev + toFloat (baseFee * 2)))
  let chainId ← chainId net
  return ({ fees := .type2 maxFeePerGas (truncate mev), chainId := chainId }, maxFeePerGas)

/-- The two functions that `map_sig` and `map_net` may be. -/
inductive TxMaker where
  | createType0Tx
  | createType2Tx
deriving DecidableEq

def TxMaker.make (net : Network) (gasFee baseFee : ℤ) (mev : ℚ) :
    TxMaker → Except Error (TxParams × ℤ)
  | .createType0Tx => .ok (CompoundLiquidation.createType0Tx gasFee)
  | .createType2Tx => CompoundLiquidation.createType2Tx net baseFee mev

/-- `SendType`. The token of the gas price is filled in at the start where there is one. -/
structure SendType where
  estimateGas : ℤ
  mevRatio : ℚ
  mapSig : TxMaker
  mapNet : TxMaker
  priceToken : Option String
  priceDecimals : ℕ

/-- `BlockInfos`. -/
structure BlockInfos where
  baseFee : ℤ
  gasPrice : ℤ

/-- `SendType.create_liq_transaction`; `sigGasPrice` is `sig_recv['gas_price']`. -/
def SendType.createLiqTransaction (net : Network) (sendType : SendType) (revenue : ℤ)
    (blockInfos : BlockInfos) (sigGasPrice : Option ℤ) : Except Error (TxParams × ℤ) := do
  let perGas ← trueDiv revenue sendType.estimateGas
  let mev := toFloat (sendType.mevRatio *
    toFloat (toFloat (perGas * 10 ^ 18) - toFloat blockInfos.baseFee))
  match sigGasPrice with
  | some gasFee => sendType.mapSig.make net gasFee blockInfos.baseFee mev
  | none => sendType.mapNet.make net blockInfos.gasPrice blockInfos.baseFee mev

/-! ## The price of gas -/

/-- `CtokenConfigs`. -/
structure CtokenConfigs where
  underlyingDecimals : ℤ
  baseUnits : ℤ
  reporterMultiplier : ℤ

/-- `CtokenInfos` with its `configs`. -/
structure CtokenInfosFull extends CtokenInfos where
  configs : CtokenConfigs

/-- `signals.price_scale_inverse` on `signals.gen_oracle_params`, for the class of signals that the
deployment has. The base class has neither method. -/
def priceScaleInverse (net : Network) (sel : Selector) (price : ℤ) (feedDecimals : ℕ)
    (cfg : CtokenConfigs) : Except Error ℚ :=
  match net, sel with
  | .ethereum, .v2 =>
    trueDiv price (10 ^ (30 + cfg.reporterMultiplier - cfg.baseUnits * 2).toNat)
  | .bsc, .venus => do
    let scaled ← trueDiv price (10 ^ (18 - cfg.underlyingDecimals).toNat)
    return toFloat (scaled / toFloat (10 ^ feedDecimals))
  | _, _ => .error .attributeError

/-- The price of the gas token in the unit of the protocol. -/
def SendType.price (net : Network) (sel : Selector) (sendType : SendType)
    (ctk : Dict String CtokenInfosFull) : Except Error ℚ :=
  match sendType.priceToken with
  | none => .ok 1
  | some ctokenAddr => do
    let infos ← ctk.item ctokenAddr
    let price ← infos.priceCurrent
    let scaled ← priceScaleInverse net sel price sendType.priceDecimals infos.configs
    return toFloat (toFloat (scaled / toFloat (10 ^ sendType.priceDecimals)) * 10 ^ 18)

/-! ## Accounts -/

/-- `AccCompound`, with a record of what the account has been asked to sign. No function reads the
record. -/
structure AccCompound where
  key : String
  nonce : ℤ
  asked : List TxParams := []
deriving DecidableEq

/-- What the signing library takes for a receiver: no address, or one with its prefix. -/
def IsReceiver (toAddr : String) : Prop := toAddr = "" ∨ toAddr.toList.take 2 = ['0', 'x']

instance (toAddr : String) : Decidable (IsReceiver toAddr) := inferInstanceAs (Decidable (_ ∨ _))

/-- The library checks the fields of a transaction before it signs, and raises for any other
receiver. -/
def ChecksReceiver (signTransaction : String → TxParams → Except Error Bytes) : Prop :=
  ∀ key tx, ¬ IsReceiver tx.toAddr → signTransaction key tx = .error .typeError

/-- `P_ALIAS['contract'][2:]` is no receiver on BSC: it lacks the prefix. -/
theorem not_isReceiver_contract {sel : Selector} {address : String}
    (h : contract .bsc sel = some address) : ¬ IsReceiver (strFrom address 2) := by
  cases sel with
  | v2 => cases h
  | venus =>
    obtain rfl := Option.some_inj.mp h
    decide +kernel

/-- `sign_sending_tx_to_tasks` for one transaction, on the accounts. A nonce counts as used when
the account has failed to sign. -/
def signSendingTxToTasks (signTransaction : String → TxParams → Except Error Bytes)
    (index : String) (tx : TxParams) (profit : ℚ) :
    List AccCompound → Except Error (List SendResult) × List AccCompound
  | [] => (.ok [], [])
  | acc :: accounts =>
    let numbered := { tx with nonce := acc.nonce }
    let used := { acc with nonce := acc.nonce + 1, asked := acc.asked ++ [numbered] }
    match signTransaction acc.key numbered with
    | .error e => (.error e, used :: accounts)
    | .ok signedTxRaw =>
      let (coroutines, rest) := signSendingTxToTasks signTransaction index tx profit accounts
      (coroutines.map (⟨index, signedTxRaw, profit⟩ :: ·), used :: rest)

/-! ## The table of liquidated users -/

/-- What `liquidation_start` changes. -/
structure Liquidator where
  /-- `users_to_liquidate`: the amount and the index of the last attempt, by user and debt. -/
  usersToLiquidate : Dict String (Dict String (ℤ × String))
  accounts : List AccCompound

/-- `users_to_liquidate[user][debt]`. -/
def Liquidator.record? (s : Liquidator) (user debt : String) : Option (ℤ × String) :=
  (s.usersToLiquidate.get? user).bind (·.get? debt)

/-- `set_user_liquidated`. -/
def Liquidator.setUserLiquidated (index user debt : String) (debtToCover : ℤ) (s : Liquidator) :
    Liquidator :=
  let records := (s.usersToLiquidate.get? user).getD ∅
  { s with usersToLiquidate := s.usersToLiquidate.set user (records.set debt (debtToCover, index)) }

theorem Liquidator.record?_setUserLiquidated (index user debt : String) (debtToCover : ℤ)
    (s : Liquidator) (u d : String) :
    (s.setUserLiquidated index user debt debtToCover).record? u d
      = if u = user ∧ d = debt then some (debtToCover, index) else s.record? u d := by
  rw [record?, record?, setUserLiquidated, Dict.get?_set]
  by_cases hu : u = user
  · subst hu
    rw [if_pos rfl, Option.bind_some, Dict.get?_set]
    by_cases hd : d = debt
    · rw [if_pos hd, if_pos ⟨rfl, hd⟩]
    · rw [if_neg hd, if_neg fun h ↦ hd h.2]
      rcases s.usersToLiquidate.get? u with _ | records
      · rfl
      · rfl
  · rw [if_neg hu, if_neg fun h ↦ hu h.1]

/-- `abs(debt_to_cover/prev_debt_to_cover-1) < 0.1`. -/
def sameDebt (debtToCover prevDebtToCover : ℤ) : Except Error Bool := do
  let quotient ← trueDiv debtToCover prevDebtToCover
  return decide (|toFloat (quotient - 1)| < toFloat (1 / 10))

/-- `is_user_liquidated`. -/
def isUserLiquidated (user debt : String) (debtToCover : ℤ) : Proc Liquidator Error Bool := do
  let s ← Proc.read
  match s.record? user debt with
  | none => return false
  | some (prevDebtToCover, prevIndex) =>
    let same ← Proc.ofExcept (sameDebt debtToCover prevDebtToCover)
    if same then return true
    else
      Proc.modify (Liquidator.setUserLiquidated prevIndex user debt debtToCover)
      return false

/-! ## The program -/

/-- `LiqPair`. -/
structure LiqPair where
  profit : ℤ
  colCtoken : String
  debtCtoken : String
  repayAmount : ℤ
deriving DecidableEq

/-- The arguments of `liquidation_start`. -/
structure LiqCall where
  index : String
  usr : String
  ctk : Dict String CtokenInfosFull
  blockInfos : BlockInfos
  paths : List Path
  liqPair : LiqPair
  sigGasPrice : Option ℤ
  sendType : SendType

/-- The deployment, and the signing of the accounts. -/
structure LiqEnv where
  net : Network
  sel : Selector
  signTransaction : String → TxParams → Except Error Bytes

namespace LiqCall

/-- The middle part of `liquidation_start`: the transaction with its profit, and nothing where the
liquidation is given up. -/
def transaction (env : LiqEnv) (call : LiqCall) : Except Error (Option (TxParams × ℚ)) := do
  let revenue := call.liqPair.profit
  let (tx, gasFee) ← call.sendType.createLiqTransaction env.net revenue call.blockInfos
    call.sigGasPrice
  let price ← call.sendType.price env.net env.sel call.ctk
  let gasUnits ← trueDiv gasFee (10 ^ 18)
  let cost := toFloat (gasUnits * toFloat call.sendType.estimateGas)
  let profit := toFloat (toFloat revenue - toFloat (cost * price))
  if profit < 0 then return none
  if call.paths.length = 0 then return none
  let intput := BSCVenusPancakeV2.gen call.usr call.liqPair.debtCtoken call.liqPair.colCtoken
    call.paths
  let data ← bytesFromPrefixed intput
  let contract ← okOr (contract env.net env.sel) (.keyError "contract")
  let chainId ← chainId env.net
  return some ({ tx with data := data, toAddr := strFrom contract 2, chainId := chainId }, profit)

/-- `liquidation_start`. -/
def start (env : LiqEnv) (call : LiqCall) : Proc Liquidator Error (List SendResult) := do
  let res ← isUserLiquidated call.usr call.liqPair.debtCtoken call.liqPair.repayAmount
  if res then return []
  let transaction ← Proc.ofExcept (call.transaction env)
  match transaction with
  | none => return []
  | some (tx, profit) =>
    Proc.modify (Liquidator.setUserLiquidated call.index call.usr call.liqPair.debtCtoken
      call.liqPair.repayAmount)
    Proc.zoom Liquidator.accounts (fun accounts s ↦ { s with accounts := accounts })
      (signSendingTxToTasks env.signTransaction call.index tx profit)

end LiqCall

/-! ## The data of a transaction -/

/-- The selector of `swap` and its arguments. -/
def swapData (borrower debtCtoken colCtoken : String) (paths : List Path) : Bytes :=
  [0x5c, 0xf6, 0x71, 0xa6] ++ (swapArgs borrower debtCtoken colCtoken paths.reverse).encode

/-- The text of the encoder reads as bytes. -/
theorem bytesFromPrefixed_gen {borrower debtCtoken colCtoken : String} {paths : List Path}
    (hborrower : IsAddress borrower) (hdebt : IsAddress debtCtoken) (hcol : IsAddress colCtoken)
    (hpaths : ∀ path ∈ paths, path.Valid) (hlen : paths.length < 2 ^ 256) :
    bytesFromPrefixed (BSCVenusPancakeV2.gen borrower debtCtoken colCtoken paths)
      = .ok (swapData borrower debtCtoken colCtoken paths) := by
  have htext : BSCVenusPancakeV2.gen borrower debtCtoken colCtoken paths
      = hexBytesHex (swapData borrower debtCtoken colCtoken paths) := by
    apply String.toList_injective
    rw [BSCVenusPancakeV2.toList_gen hborrower hdebt hcol hpaths hlen, hexBytesHex, swapData,
      String.toList_append, toList_hexOf, hexChars_append]
    rfl
  rw [htext, bytesFromPrefixed_hexBytesHex]

/-- What a transaction stands for: the fees of its creation, the revenue less the price of the gas,
which is no loss, a route, and the call of the contract that carries it out. -/
def LiqCall.Builds (env : LiqEnv) (call : LiqCall) (tx : TxParams) (profit : ℚ) : Prop :=
  ∃ (created : TxParams) (gasFee id : ℤ) (price gasUnits : ℚ) (address : String) (data : Bytes),
    call.sendType.createLiqTransaction env.net call.liqPair.profit call.blockInfos
      call.sigGasPrice = .ok (created, gasFee) ∧
    call.sendType.price env.net env.sel call.ctk = .ok price ∧
    trueDiv gasFee (10 ^ 18) = .ok gasUnits ∧
    profit = toFloat (toFloat call.liqPair.profit - toFloat (toFloat (gasUnits *
      toFloat call.sendType.estimateGas) * price)) ∧
    0 ≤ profit ∧ call.paths ≠ [] ∧
    bytesFromPrefixed (BSCVenusPancakeV2.gen call.usr call.liqPair.debtCtoken
      call.liqPair.colCtoken call.paths) = .ok data ∧
    contract env.net env.sel = some address ∧ chainId env.net = .ok id ∧
    tx = { created with data := data, toAddr := strFrom address 2, chainId := id }

/-- A transaction is only built with a route, and if it pays. -/
theorem LiqCall.transaction_eq_some_iff {env : LiqEnv} {call : LiqCall} {tx : TxParams}
    {profit : ℚ} : call.transaction env = .ok (some (tx, profit)) ↔ call.Builds env tx profit := by
  constructor
  · intro h
    rw [transaction] at h
    obtain ⟨⟨created, gasFee⟩, hcreate, h⟩ := exists_of_bind_ok h
    obtain ⟨price, hprice, h⟩ := exists_of_bind_ok h
    obtain ⟨gasUnits, hgas, h⟩ := exists_of_bind_ok h
    dsimp only at h
    split_ifs at h with hcost hroute
    · cases Except.ok.inj h
    · cases Except.ok.inj h
    obtain ⟨data, hdata, h⟩ := exists_of_bind_ok h
    obtain ⟨address, haddress, h⟩ := exists_of_bind_ok h
    obtain ⟨id, hid, h⟩ := exists_of_bind_ok h
    obtain ⟨rfl, rfl⟩ := Prod.mk.inj (Option.some_inj.mp (Except.ok.inj h))
    have hcontract : contract env.net env.sel = some address := by
      rcases hfound : contract env.net env.sel with _ | found
      · rw [hfound] at haddress
        cases haddress
      · rw [hfound] at haddress
        exact congrArg some (Except.ok.inj haddress)
    exact ⟨created, gasFee, id, price, gasUnits, address, data, hcreate, hprice, hgas, rfl,
      not_lt.mp hcost, fun hnil ↦ hroute (List.length_eq_zero_iff.mpr hnil), hdata, hcontract, hid,
      rfl⟩
  · rintro ⟨created, gasFee, id, price, gasUnits, address, data, hcreate, hprice, hgas, rfl, hpays,
      hroute, hdata, hcontract, hid, rfl⟩
    have hlength : ¬ call.paths.length = 0 := fun h ↦ hroute (List.length_eq_zero_iff.mp h)
    simp only [transaction, hcreate, hprice, hgas, ok_bind, if_neg hpays.not_gt, if_neg hlength,
      hdata, hcontract, hid, okOr_some]
    rfl

/-- On BSC the receiver is none that the library takes. -/
theorem LiqCall.Builds.not_isReceiver {env : LiqEnv} (hnet : env.net = .bsc) {call : LiqCall}
    {tx : TxParams} {profit : ℚ} (h : call.Builds env tx profit) : ¬ IsReceiver tx.toAddr := by
  obtain ⟨_, _, _, _, _, address, _, -, -, -, -, -, -, -, hcontract, -, rfl⟩ := h
  rw [hnet] at hcontract
  exact not_isReceiver_contract hcontract

end CompoundLiquidation
