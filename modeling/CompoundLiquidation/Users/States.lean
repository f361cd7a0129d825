import CompoundLiquidation.Chain.Logs
import CompoundLiquidation.Users.HealthFactor

/-!
# The state of the users

`States` keeps every user's position in every market and the data of the cTokens, and follows both
by log records. A record is first read (`usersChange`), which depends on the record alone, and then
applied (`applyChange`). Reading may raise and then nothing has happened. Applying may raise too,
when the record belongs to a market that is not in `ctokens`, and by then some assignments have
been made.
-/

namespace CompoundLiquidation

open Python

/-! ## The VAI plug-in -/

/-- The events in `EVENT_ABI` of the plug-in. -/
inductive VaiEvent where
  | mintVAI
  | repayVAI
deriving DecidableEq, Repr

/-- `EVENT_ABI.get(topic)` of the plug-in. -/
def vaiEventAbi (topic : String) : Option VaiEvent :=
  if topic = "0x002e68ab1600fc5e7290e2ceaa79e2f86b4dbaca84a48421e167e0b40409218a" then
    some .mintVAI
  else if topic = "0x1db858e6f7e1a0d5e92c10c6507d42b3dabfe0a4867fe90c5a14d9963662ef7e" then
    some .repayVAI
  else none

/-- `VaiState`: the users whose VAI debt has to be read again. -/
structure VaiState where
  storage : Dict String ℤ
deriving DecidableEq

/-- The user a log adds to the storage; `none` for a log that `State.update` ignores. -/
def vaiChange (lib : EthLibs) (log : LogReceipt) : Except Error (Option String) :=
  if log.removed then .ok none
  else do
    let topic ← log.topic0
    match vaiEventAbi topic with
    | none => .ok none
    | some .mintVAI => do
      let argsData ← (log.decodeData lib [.address, .uint256]).mapError fun _ ↦
        .exception "update failed"
      .ok (some argsData.1)
    | some .repayVAI => do
      let argsData ← (log.decodeData lib [.address, .address, .uint256]).mapError fun _ ↦
        .exception "update failed"
      .ok (some argsData.2.1)

/-- `plug_in.storage.update(plug_in.update(log))`, with the result of the latter given. -/
def VaiState.store (change : Option String) (vai : VaiState) : VaiState :=
  match change with
  | none => vai
  | some user => { vai with storage := vai.storage.set user 1 }

/-! ## Reading a log -/

/-- The events in `EVENT_ABI` of the users. -/
inductive UsersEvent where
  | repayBorrow
  | borrow
  | transfer
  | mint
  | redeem
  | reservesAdded
  | reservesReduced
  | accrueInterest
  | accrueInterestDelegate
  | newReserveFactor
deriving DecidableEq, Repr

/-- `EVENT_ABI.get(topic)` of the users. The key of the last entry was never filled in. -/
def usersEventAbi (topic : String) : Option UsersEvent :=
  if topic = "0x1a2a22cb034d26d1854bdc6666a5b91fe25efbbb5dcad3b0355478d6f5c362a1" then
    some .repayBorrow
  else if topic = "0x13ed6866d4e1ee6da46f845c46d7e54120883d75c5ea9a2dacc1c4ca8984ab80" then
    some .borrow
  else if topic = "0xddf252ad1be2c89b69c2b068fc378daa952ba7f163c4a11628f55a4df523b3ef" then
    some .transfer
  else if topic = "0x4c209b5fc8ad50758f13e2e1088ba56a560dff690a1c6fef26394f4c03821c4f" then
    some .mint
  else if topic = "0xe5b754fb1abb7f01b499791d0b820ae3b6af3424ac1c59768edb53f4ec31a929" then
    some .redeem
  else if topic = "0xa91e67c5ea634cd43a12c5a482724b03de01e85ca68702a53d0c2f45cb7c1dc5" then
    some .reservesAdded
  else if topic = "0x3bad0c59cf2f06e7314077049f48a93578cd16f5ef92329f1dab1420a99c177e" then
    some .reservesReduced
  else if topic = "0x875352fb3fadeb8c0be7cbbe8ff761b308fa7033470cd0287f02f3436fd76cb9" then
    some .accrueInterest
  else if topic = "0x4dec04e750ca11537cabcd8a9eab06494de08da3735bc8871cd41250e190bc04" then
    some .accrueInterestDelegate
  else if topic = "" then some .newReserveFactor
  else none

/-- What a log asks for in its market. Repayments and borrowings both report the debt that results
from them. -/
inductive UsersChange where
  | transfer (fromUser toUser : String) (amount : ℤ)
  | debt (borrower : String) (amount totalBorrow : ℤ)
  | accrueInterest (interestAccumulated borrowIndex totalBorrow : ℤ)
  | totalReserve (new : ℤ)
  | reserveFactor (new : ℤ)
deriving DecidableEq

/-- `log['topics'][i][12:].hex()`. -/
def LogReceipt.topicAddress (log : LogReceipt) (i : ℕ) : Except Error String :=
  okOr (log.topics[i]?.map fun topic ↦ hexBytesHex (topic.drop 12)) .indexError

/-- The data of a log, with the exception `update` raises when it cannot be decoded. -/
def LogReceipt.usersData (lib : EthLibs) (log : LogReceipt) (ts : List AbiType) :
    Except Error (AbiTuple ts) :=
  (log.decodeData lib ts).mapError fun _ ↦ .exception "user balances update failed"

/-- The market of a log and what the log asks for; `none` for a log that `update` ignores. -/
def usersChange (lib : EthLibs) (log : LogReceipt) : Except Error (Option (String × UsersChange)) :=
  if log.removed then .ok none
  else do
    let topic ← log.topic0
    match usersEventAbi topic with
    | none => .ok none
    | some .transfer => do
      let argsData ← log.usersData lib [.uint256]
      let reserve ← lib.toChecksumAddress log.address
      let fromUser ← log.topicAddress 1
      let toUser ← log.topicAddress 2
      let amount : ℕ := argsData.1
      .ok (some (reserve, .transfer fromUser toUser amount))
    | some .repayBorrow => do
      let argsData ← log.usersData lib [.address, .address, .uint256, .uint256, .uint256]
      let reserve ← lib.toChecksumAddress log.address
      let borrower : String := argsData.2.1
      let amount : ℕ := argsData.2.2.2.1
      let totalBorrow : ℕ := argsData.2.2.2.2.1
      .ok (some (reserve, .debt borrower amount totalBorrow))
    | some .borrow => do
      let argsData ← log.usersData lib [.address, .uint256, .uint256, .uint256]
      let reserve ← lib.toChecksumAddress log.address
      let borrower : String := argsData.1
      let amount : ℕ := argsData.2.2.1
      let totalBorrow : ℕ := argsData.2.2.2.1
      .ok (some (reserve, .debt borrower amount totalBorrow))
    | some .accrueInterest => do
      let argsData ← log.usersData lib [.uint256, .uint256, .uint256]
      let reserve ← lib.toChecksumAddress log.address
      let interestAccumulated : ℕ := argsData.1
      let borrowIndex : ℕ := argsData.2.1
      let totalBorrow : ℕ := argsData.2.2.1
      .ok (some (reserve, .accrueInterest interestAccumulated borrowIndex totalBorrow))
    | some .accrueInterestDelegate => do
      let argsData ← log.usersData lib [.uint256, .uint256, .uint256, .uint256]
      let reserve ← lib.toChecksumAddress log.address
      let interestAccumulated : ℕ := argsData.2.1
      let borrowIndex : ℕ := argsData.2.2.1
      let totalBorrow : ℕ := argsData.2.2.2.1
      .ok (some (reserve, .accrueInterest interestAccumulated borrowIndex totalBorrow))
    | some .reservesAdded => do
      let argsData ← log.usersData lib [.address, .uint256, .uint256]
      let reserve ← lib.toChecksumAddress log.address
      let new : ℕ := argsData.2.2.1
      .ok (some (reserve, .totalReserve new))
    | some .reservesReduced => do
      let argsData ← log.usersData lib [.address, .uint256, .uint256]
      let reserve ← lib.toChecksumAddress log.address
      let new : ℕ := argsData.2.2.1
      .ok (some (reserve, .totalReserve new))
    | some .newReserveFactor => do
      let argsData ← log.usersData lib [.uint256, .uint256]
      let reserve ← lib.toChecksumAddress log.address
      let new : ℕ := argsData.2.1
      .ok (some (reserve, .reserveFactor new))
    -- decoded and ignored: a transfer comes with each of them
    | some .mint => do
      let _ ← log.usersData lib [.address, .uint256, .uint256]
      let _ ← lib.toChecksumAddress log.address
      .ok none
    | some .redeem => do
      let _ ← log.usersData lib [.address, .uint256, .uint256]
      let _ ← lib.toChecksumAddress log.address
      .ok none

/-! ## Applying a log -/

/-- `change_type` of a user: already there, or newly added. -/
inductive ChangeType where
  /-- 1 -/
  | exists
  /-- 2 -/
  | added
deriving DecidableEq, Repr

/-- `States`. -/
structure States where
  usersStates : Dict String UserStates
  ctokens : Dict String CtokenInfos
  lastUpdate : ℤ
  blockHash : String
  plugIn : Option VaiState
deriving DecidableEq

/-- `States.__init__`. -/
def States.new (usersStates : Dict String UserStates) (ctokensInfos : Dict String CtokenInfos)
    (lastUpdate : ℤ) (blockHash : String) : States :=
  ⟨usersStates, ctokensInfos, lastUpdate, blockHash, none⟩

/-- An assignment to a record of the users. -/
def States.onReserve (user reserve : String) (f : CompReserve → CompReserve) (s : States) :
    States :=
  { s with usersStates := s.usersStates.modify user fun states ↦
      { states with reserves := states.reserves.modify reserve f } }

/-- An assignment to the data of a cToken. -/
def States.onCtoken (reserve : String) (f : CtokenInfos → CtokenInfos) (s : States) : States :=
  { s with ctokens := s.ctokens.modify reserve f }

namespace States

/-- The first test of `check_user_and_reserve`. -/
def addUser (user : String) (s : States) : States :=
  match s.usersStates.get? user with
  | none => { s with usersStates := s.usersStates.set user newUserStates }
  | some _ => s

/-- The second test of `check_user_and_reserve`. -/
def addReserve (user reserve : String) (s : States) : States :=
  { s with usersStates := s.usersStates.modify user fun states ↦
      match states.reserves.get? reserve with
      | none => { states with reserves := states.reserves.set reserve newReserve }
      | some _ => states }

/-- `check_user_and_reserve`. -/
def checkUserAndReserve (user reserve : String) : Proc States Error ChangeType := do
  let s ← Proc.read
  Proc.modify (addUser user)
  Proc.modify (addReserve user reserve)
  match (s.usersStates.get? user).bind (·.reserves.get? reserve) with
  | none => return .added
  | some _ => return .exists

/-- `ctokens[reserve]`. -/
def ctoken (reserve : String) : Proc States Error CtokenInfos := do
  let s ← Proc.read
  Proc.ofExcept (s.ctokens.item reserve)

/-- `balances.total_supply += amount`. -/
def addSupply (reserve : String) (amount : ℤ) : Proc States Error Unit := do
  let _ ← ctoken reserve
  Proc.modify (onCtoken reserve fun infos ↦
    { infos with balances.totalSupply := infos.balances.totalSupply + amount })

/-- A transfer from the market itself mints its tokens, a transfer to it redeems them. -/
def moveSupply (reserve fromUser toUser : String) (amount : ℤ) : Proc States Error Unit := do
  if fromUser = reserve.toLower then addSupply reserve amount
  if toUser = reserve.toLower then addSupply reserve (-amount)

/-- The branch of `update` for transfers. -/
def applyTransfer (reserve fromUser toUser : String) (amount : ℤ) :
    Proc States Error (Dict String ChangeType) := do
  let changeType1 ← checkUserAndReserve fromUser reserve
  let changeType2 ← checkUserAndReserve toUser reserve
  moveSupply reserve fromUser toUser amount
  Proc.modify (onReserve fromUser reserve fun r ↦ { r with colAmount := r.colAmount - amount })
  Proc.modify (onReserve toUser reserve fun r ↦ { r with colAmount := r.colAmount + amount })
  return (Dict.set ∅ fromUser changeType1).set toUser changeType2

/-- The branches of `update` for repayments and borrowings. -/
def applyDebt (reserve borrower : String) (amount totalBorrow : ℤ) :
    Proc States Error (Dict String ChangeType) := do
  let changeType ← checkUserAndReserve borrower reserve
  Proc.modify (onReserve borrower reserve fun r ↦ { r with debtAmount := amount })
  let infos ← ctoken reserve
  Proc.modify (onReserve borrower reserve fun r ↦
    { r with debtInterest := infos.risks.borrowIndex })
  Proc.modify (onCtoken reserve fun infos ↦
    { infos with balances.totalBorrow := totalBorrow })
  return Dict.set ∅ borrower changeType

/-- What `update` does with a log it does not ignore. -/
def applyChange (reserve : String) : UsersChange → Proc States Error (Dict String ChangeType)
  | .transfer fromUser toUser amount => applyTransfer reserve fromUser toUser amount
  | .debt borrower amount totalBorrow => applyDebt reserve borrower amount totalBorrow
  | .accrueInterest interestAccumulated borrowIndex totalBorrow => do
    let _ ← ctoken reserve
    Proc.modify (onCtoken reserve fun infos ↦
      { infos with
        risks.borrowIndex := borrowIndex
        balances.totalBorrow := totalBorrow
        balances.totalReserve := infos.balances.totalReserve
          + infos.risks.reserveFactor * interestAccumulated / expScale })
    return ∅
  | .totalReserve new => do
    let _ ← ctoken reserve
    Proc.modify (onCtoken reserve fun infos ↦ { infos with balances.totalReserve := new })
    return ∅
  | .reserveFactor new => do
    let _ ← ctoken reserve
    Proc.modify (onCtoken reserve fun infos ↦ { infos with risks.reserveFactor := new })
    return ∅

/-- The first lines of `update`. -/
def updatePlugIn (lib : EthLibs) (log : LogReceipt) : Proc States Error Unit := do
  let s ← Proc.read
  match s.plugIn with
  | none => pure ()
  | some _ =>
    let change ← Proc.ofExcept (vaiChange lib log)
    Proc.modify fun s ↦ { s with plugIn := s.plugIn.map (VaiState.store change) }

/-- `States.update`. -/
def update (lib : EthLibs) (log : LogReceipt) : Proc States Error (Dict String ChangeType) := do
  updatePlugIn lib log
  let change ← Proc.ofExcept (usersChange lib log)
  match change with
  | none => return ∅
  | some (reserve, change) => applyChange reserve change

/-! ## Cached health factors -/

/-- The cached health factor of a user. -/
def cachedHf (sta : States) (u : String) : ℚ :=
  (sta.usersStates.getD u newUserStates).healthFactor.value

/-- Users in ascending order of the cached health factors. -/
def Ascending (sta : States) (users : List String) : Prop :=
  users.Pairwise fun u v ↦ sta.cachedHf u ≤ sta.cachedHf v

instance (sta : States) (users : List String) : Decidable (sta.Ascending users) :=
  inferInstanceAs (Decidable (users.Pairwise fun u v ↦ sta.cachedHf u ≤ sta.cachedHf v))

theorem cachedHf_of_get? {sta : States} {u : String} {states : UserStates}
    (h : sta.usersStates.get? u = some states) : sta.cachedHf u = states.healthFactor.value := by
  rw [cachedHf, Dict.getD_of_get? h]

end States

end CompoundLiquidation
