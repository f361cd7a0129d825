import CompoundLiquidation.Chain.Logs
import CompoundLiquidation.Python.Float
import Mathlib.Data.List.Sort

/-!
# Sending liquidations

There are three senders with a common base class. The base class holds the lock that is meant to
stop all sending after five failed transactions: `process_receipts` sets it while reading receipts,
and each `send_transactions` looks at it first.

What a sender hands to its submission step is not kept by the source. It is recorded here in a
field of its own, `submitted`, so that runs can be compared by it. Prices and profits are floats,
and balances and prices are small enough to be turned into floats. The callbacks only write to the
log and are left out. A call does all of its handing over in front of its first `await`, so that
calls do not interleave.
-/

namespace CompoundLiquidation

open Python

/-- `[index, signed_tx_raw, profit]`, an entry of a result list. -/
structure SendResult where
  index : String
  signedTxRaw : Bytes
  profit : ℚ
deriving DecidableEq

/-- The entry of `signal_recv` that a sender reads. -/
structure SignalRecv where
  rawTx : String
deriving DecidableEq

/-- A transaction in a bundle: a hex text or the raw bytes. -/
inductive BundleTx where
  | text (hex : String)
  | bytes (raw : Bytes)
deriving DecidableEq

/-- A call of one of the submission steps. -/
inductive Submission where
  | sendTxTask (signedTxRaw : Bytes)
  | x (profits : ℚ) (txs : List BundleTx) (expire : ℤ)
  | simulate (bundle : List BundleTx) (targetBlockNumber : String)
deriving DecidableEq

/-- `Sender`. -/
structure Sender where
  lock : Bool
  counter : ℤ
  /-- Everything handed to a submission step so far. -/
  submitted : List Submission
deriving DecidableEq

/-- `Sender.__init__`. -/
def Sender.init : Sender := ⟨false, 0, []⟩

/-- Hand something to a submission step. -/
def Sender.submit (submission : Submission) (s : Sender) : Sender :=
  { s with submitted := s.submitted ++ [submission] }

/-! ## Receipts -/

/-- The entry of a receipt that `process_receipts` reads. -/
structure Receipt where
  status : Option String
deriving DecidableEq

/-- The body of the loop over receipts. -/
def processReceipt (receipt : Receipt) : Proc Sender Error Unit := do
  let status ← Proc.ofOption receipt.status (.keyError "status")
  let value ← Proc.ofOption (int16 status) .valueError
  if value = 0 then Proc.modify fun s ↦ { s with counter := s.counter + 1 }
  let s ← Proc.read
  if s.counter ≥ 5 then Proc.modify fun s ↦ { s with lock := true }

/-- `process_receipts`. -/
def processReceipts (receipts : List Receipt) : Proc Sender Error Unit :=
  Proc.forEach receipts processReceipt

/-! ## WsSender -/

/-- `WsSender.send_transactions`. The tasks run in the order of their creation. -/
def WsSender.sendTransactions (results : List SendResult) : Proc Sender Error Unit := do
  let s ← Proc.read
  if s.lock ∧ results.length = 0 then return
  Proc.forEach results fun res ↦ Proc.modify (Sender.submit (.sendTxTask res.signedTxRaw))

/-! ## BnB48Sender -/

/-- `BnB48Sender`. Its `storage` is created empty and nothing adds to it. -/
structure BnB48Sender extends Sender where
  /-- `bnb48.acc.nonce`. -/
  nonce : ℤ
  balance : ℤ
  bnbPrice : ℚ
  bnbGasPrice : ℤ
deriving DecidableEq

/-- `BnB48Sender.__init__`, with the answers of the node and the validators. -/
def BnB48Sender.init (transactionCount balance gasPrice bnbPriceWithDecimals : ℤ) : BnB48Sender :=
  { Sender.init with
    nonce := transactionCount
    balance := balance
    bnbPrice := toFloat (bnbPriceWithDecimals / 10 ^ 18)
    bnbGasPrice := gasPrice }

/-- A step on the fields of the base class. -/
def BnB48Sender.onSender (f : Sender → Sender) (s : BnB48Sender) : BnB48Sender :=
  { s with toSender := f s.toSender }

/-- `nonce += 1`. -/
def BnB48Sender.nextNonce (s : BnB48Sender) : BnB48Sender := { s with nonce := s.nonce + 1 }

/-- `mev_gas_price`. -/
def BnB48Sender.mevGasPrice (s : BnB48Sender) (profits : ℚ) : ℚ :=
  let bnbCost := toFloat (toFloat (1 / 2 * profits) / s.bnbPrice)
  let minBalance := toFloat (s.balance * 22000 / 21000)
  toFloat (min bnbCost minBalance / 21000)

/-- `x`. The bid is the text of a signed transaction, and a text cannot be concatenated with the
list of transactions: behind the gas price check the call always raises, with the nonce used. -/
def BnB48Sender.x (profits : ℚ) (txs : List BundleTx) (expire : ℤ) :
    Proc BnB48Sender Error Unit := do
  Proc.modify (onSender (Sender.submit (.x profits txs expire)))
  let s ← Proc.read
  if s.bnbPrice = 0 then Proc.raise .zeroDivisionError
  if s.mevGasPrice profits < s.bnbGasPrice then return
  Proc.modify nextNonce
  Proc.raise .typeError

/-- The body of the loop that keeps the first result of each index. For bnb48 one signer is
enough. -/
def dedupResult (acc : Dict String ℤ × List (ℚ × Bytes)) (res : SendResult) :
    Dict String ℤ × List (ℚ × Bytes) :=
  match acc.1.get? res.index with
  | some _ => acc
  | none => (acc.1.set res.index 1, acc.2 ++ [(res.profit, res.signedTxRaw)])

/-- `results_new`. -/
def dedupResults (results : List SendResult) : List (ℚ × Bytes) :=
  (results.foldl dedupResult (∅, [])).2

/-- Lists compare entry by entry: first the profit, then the bytes. -/
def txGe (a b : ℚ × Bytes) : Bool := b.1 < a.1 || (b.1 = a.1 && b.2 ≤ a.2)

/-- `sorted(results_new, reverse=True)`. -/
def sortedTxsLiq (results : List SendResult) : List (ℚ × Bytes) :=
  (dedupResults results).insertionSort fun a b ↦ txGe a b

/-- The arguments of `BnB48Sender.send_transactions` and `FlashSender.send_transactions`. -/
structure SendArgs where
  results : List SendResult
  expire : ℤ
  signalRecv : Option SignalRecv
deriving DecidableEq

/-- `profits` of a bundle. -/
def bundleProfits (best : List (ℚ × Bytes)) : ℚ :=
  best.foldl (fun profits res ↦ toFloat (profits + res.1)) 0

/-- The bundle behind the signal. -/
def BnB48Sender.sendBundle (signalRecv : SignalRecv) (expireRaw : ℤ) (best : List (ℚ × Bytes)) :
    Proc BnB48Sender Error Unit :=
  x (bundleProfits best)
    (.text signalRecv.rawTx :: best.map fun res ↦ .text (hexBytesHex res.2)) (expireRaw + 6)

/-- `BnB48Sender.send_transactions`. -/
def BnB48Sender.sendTransactions (args : SendArgs) : Proc BnB48Sender Error Unit := do
  let s ← Proc.read
  if s.lock ∧ args.results.length = 0 then return
  let best := (sortedTxsLiq args.results).take 2
  match args.signalRecv with
  | some signalRecv => sendBundle signalRecv args.expire best
  | none => pure ()
  Proc.forEach best fun res ↦ do
    x res.1 [.bytes res.2] (args.expire + 60)
    Proc.modify nextNonce
  Proc.modify nextNonce

/-- `BnB48Sender.update`, with the answers of the node and the price it is called with. -/
def BnB48Sender.update (transactionCount balance bnbPriceWithDecimals : ℤ) :
    Proc BnB48Sender Error Unit :=
  Proc.modify fun s ↦
    { s with
      nonce := transactionCount
      balance := balance
      bnbPrice := toFloat (bnbPriceWithDecimals / 10 ^ 18) }

/-! ## FlashSender -/

/-- The bundle for one result. -/
def flashBundle (signalRecv : Option SignalRecv) (res : SendResult) : List BundleTx :=
  match signalRecv with
  | none => [.bytes res.signedTxRaw]
  | some signalRecv => [.text signalRecv.rawTx, .bytes res.signedTxRaw]

/-- `FlashSender.send_transactions`. A failing simulation is caught and reported. -/
def FlashSender.sendTransactions (args : SendArgs) : Proc Sender Error Unit := do
  let s ← Proc.read
  if s.lock ∧ args.results.length = 0 then return
  Proc.forEach args.results fun res ↦ Proc.modify
    (Sender.submit (.simulate (flashBundle args.signalRecv res) (toString args.expire)))

end CompoundLiquidation
