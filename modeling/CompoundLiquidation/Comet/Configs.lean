import CompoundLiquidation.Chain.Logs

/-!
# Risk parameters of the comptroller

`CometConfigs` is filled once from the chain and then follows two events. What an event asks for is
read off the log alone (`cometChange`); applying it cannot fail. A log that does not decode stops
the callback, and what the logs in front of it changed stays.
-/

namespace CompoundLiquidation

open Python

/-- `CometConfigs`. -/
structure CometConfigs where
  liqIncentive : ℤ
  clossFactor : ℤ
  ctokensCollateralFactor : Dict String ℤ
  lastUpdate : ℤ
deriving DecidableEq

/-- The events of the comptroller. -/
inductive CometEvent where
  | newLiquidationIncentive
  | newCollateralFactor
deriving DecidableEq, Repr

/-- `EVENT_ABI.get(topic)` of the comptroller. -/
def cometEventAbi (topic : String) : Option CometEvent :=
  if topic = "0xaeba5a6c40a8ac138134bff1aaa65debf25971188a58804bad717f82f0ec1316" then
    some .newLiquidationIncentive
  else if topic = "0x70483e6592cd5182d45ac970e05bc62cdcc90e9d8ef2c2dbe686cf383bcd7fc5" then
    some .newCollateralFactor
  else none

/-- What a log asks for. -/
inductive CometChange where
  | liquidationIncentive (new : ℤ)
  | collateralFactor (reserve : String) (new : ℤ)
deriving DecidableEq

/-- The change a log carries; `none` for a log that `update` ignores. -/
def cometChange (lib : EthLibs) (log : LogReceipt) : Except Error (Option CometChange) :=
  if log.removed then .ok none
  else do
    let topic ← log.topic0
    match cometEventAbi topic with
    | none => .ok none
    | some .newLiquidationIncentive => do
      let argsData ← (log.decodeData lib [.uint256, .uint256]).mapError fun _ ↦
        .exception "comet update failed"
      let new : ℕ := argsData.2.1
      .ok (some (.liquidationIncentive new))
    | some .newCollateralFactor => do
      let argsData ← (log.decodeData lib [.address, .uint256, .uint256]).mapError fun _ ↦
        .exception "comet update failed"
      let reserve : String := argsData.1
      let new : ℕ := argsData.2.2.1
      .ok (some (.collateralFactor reserve new))

namespace CometConfigs

/-- The assignments of `update`. -/
def apply (blockNumber : ℤ) (change : Option CometChange) (comet : CometConfigs) : CometConfigs :=
  match change with
  | none => comet
  | some (.liquidationIncentive new) =>
    { comet with liqIncentive := new, lastUpdate := blockNumber }
  | some (.collateralFactor reserve new) =>
    { comet with
      ctokensCollateralFactor := comet.ctokensCollateralFactor.set reserve new
      lastUpdate := blockNumber }

/-- `CometConfigs.update`. -/
def update (lib : EthLibs) (log : LogReceipt) : Proc CometConfigs Error Unit := do
  let change ← Proc.ofExcept (cometChange lib log)
  Proc.modify (apply log.blockNumber change)

end CometConfigs

/-- `init_comet_configs`, when the comptroller answers with these values; `markets` is the second
component of its answer for a cToken. -/
def initCometConfigs (liquidationIncentive clossFactor : ℤ) (markets : String → ℤ)
    (reserves : List String) (blockNum : ℤ) : CometConfigs where
  liqIncentive := liquidationIncentive
  clossFactor := clossFactor
  ctokensCollateralFactor :=
    reserves.foldl (fun ctokensCf ctokenAddr ↦ ctokensCf.set ctokenAddr (markets ctokenAddr)) ∅
  lastUpdate := blockNum

/-- `comet_subscribe_callback`. -/
def cometSubscribeCallback (lib : EthLibs) (response : LogReceiptLight) :
    Proc CometConfigs Error Unit := do
  let logs ← Proc.ofExcept (converter lib response)
  let comet ← Proc.read
  if response.blockNumber < comet.lastUpdate then pure ()
  else do
    Proc.forEach logs (CometConfigs.update lib)
    Proc.modify fun comet ↦ { comet with lastUpdate := response.blockNumber }

end CompoundLiquidation
