import CompoundLiquidation.Chain.Logs
import CompoundLiquidation.Python.Dict
import CompoundLiquidation.Python.Run
import Mathlib.Data.Rat.Defs
import Mathlib.Algebra.Order.Ring.Rat
import Mathlib.Data.List.MinMax

/-!
# Price signals from pending oracle transactions

`tx_filter_and_parsing` reads a pending `transmit` call by fixed offsets and remembers, for each
aggregator, the epoch of the last report it stored. The model keeps the order of the checks, because
the epoch is stored in the middle of them: everything in front of the assignment is a pure function
of the message (`callDataArgs`, `signalEpoch`), everything behind it (`medianPrice`) may still
raise.

No step looks at the length of the calldata beyond the selector, so a report may point past its own
end. Slices are then shorter, and shorter slices are smaller numbers.

The product `0.9*local_gasprice` is a rounded floating-point number. It stays a parameter, and every
result holds for any way of rounding it.
-/

namespace CompoundLiquidation

open Python

/-- `TRANSMIT_FUNC_SIG`. -/
def transmitFuncSig : Bytes := [0xc9, 0x80, 0x75, 0x39]

/-- `AggregatorInfos`. -/
structure AggregatorInfos where
  token : String
  pairSymbols : List String
  priceDecimals : ℤ
deriving DecidableEq

/-- The attributes of a pending transaction that the filter reads; `toAddr` is `to`. -/
structure TxAttributes where
  toAddr : String
  input : String
  gasPrice : Option String
  maxFeePerGas : Option String
deriving DecidableEq

/-- `Signals`. -/
structure Signals where
  signalTokenMap : Dict String (List AggregatorInfos)
  tokenSignalMap : Dict String String
  signalsEpoch : Dict String ℤ
deriving DecidableEq

namespace Signals

/-- `signal_token_inverse`: a token keeps the last aggregator that lists it. -/
def signalTokenInverse (signalTokenMap : Dict String (List AggregatorInfos)) :
    Dict String String :=
  signalTokenMap.entries.foldl
    (fun acc kd ↦ kd.2.foldl (fun acc data ↦ acc.set data.token kd.1) acc) ∅

/-- `Signals.__init__`. -/
def init (sourceTokenMap : Dict String (List AggregatorInfos)) : Signals where
  signalTokenMap := sourceTokenMap
  tokenSignalMap := signalTokenInverse sourceTokenMap
  signalsEpoch := ∅

/-- `self.signals_epoch[contract_addr] = signal_epoch`. -/
def setEpoch (s : Signals) (contractAddr : String) (epoch : ℤ) : Signals :=
  { s with signalsEpoch := s.signalsEpoch.set contractAddr epoch }

/-- `self.signals_epoch.get(contract_addr, 0)`. -/
def localEpoch (s : Signals) (contractAddr : String) : ℤ := s.signalsEpoch.getD contractAddr 0

end Signals

/-! ## Reading the message -/

/-- `int(p, 16)` of an attribute that may be `None`. -/
def intOfAttribute : Option String → Except Error ℤ
  | none => .error .typeError
  | some p => okOr (int16 p) .valueError

/-- The refusal of an underpriced signal. -/
def priceTooLow (localGasprice signalGasprice : ℤ) : Error :=
  .exception ("signal price too low: \x7b\"local\":" ++ toString localGasprice ++ ", \"signal\":" ++
    toString signalGasprice ++ "\x7d")

/-- The refusal of a stale report. -/
def staleReport (localEpoch signalEpoch : ℤ) : Error :=
  .exception ("signal stale report: \x7b\"local\":" ++ toString localEpoch ++ ", \"signal\":" ++
    toString signalEpoch ++ "\x7d")

section Message

variable (ninety : ℤ → ℚ)

/-- The exact product, as a rounding of `0.9*local_gasprice`. -/
def exactNinety (gasPrice : ℤ) : ℚ := 9 / 10 * gasPrice

/-- The gas price of the signal, `gasPrice` or else `maxFeePerGas`. -/
def signalGasprice (tx : TxAttributes) : Except Error ℤ :=
  intOfAttribute (tx.gasPrice.or tx.maxFeePerGas)

/-- The arguments of a message that passes the length, selector and gas checks:
`call_data_bin[4:]`. `ninety` is the product `0.9*local_gasprice`. -/
def callDataArgs (tx : TxAttributes) (gasPrice : ℤ) : Except Error Bytes := do
  let callDataBin ← bytesFromPrefixed tx.input
  if callDataBin.length ≤ 4 then .error (.exception "call data error")
  else if callDataBin.take 4 ≠ transmitFuncSig then
    .error (.exception "unknown function signature")
  else do
    let signal ← signalGasprice tx
    if ninety gasPrice > signal then .error (priceTooLow gasPrice signal)
    else .ok (callDataBin.drop 4)

end Message

/-- `offset`: the first argument word plus one word. -/
def reportOffset (data : Bytes) : ℕ := natOfBytes (slice data 0 32) + 32

/-- `raw_report_ctx`. -/
def rawReportCtx (data : Bytes) : Bytes := slice data (reportOffset data) (reportOffset data + 32)

/-- `signal_epoch`: the last five bytes of the report context as a number. -/
def signalEpoch (data : Bytes) : Except Error ℤ :=
  okOr (int16 (hexOf (lastN 5 (rawReportCtx data)))) .valueError

/-- `array_length`. -/
def arrayLength (data : Bytes) : ℕ :=
  natOfBytes (slice data (reportOffset data + 32 * 3) (reportOffset data + 32 * 4))

/-- The observation loop: `rounds` words from `offsetNext` on. -/
def readWords (data : Bytes) (offsetNext : ℕ) : ℕ → List ℤ
  | 0 => []
  | rounds + 1 =>
    (natOfBytes (slice data offsetNext (offsetNext + 32)) : ℤ)
      :: readWords data (offsetNext + 32) rounds

/-- `array_args`. -/
def arrayArgs (data : Bytes) : List ℤ :=
  readWords data (reportOffset data + 32 * 4) (arrayLength data)

/-- `array_args[len(array_args)//2]`. -/
def medianPrice (data : Bytes) : Except Error ℤ :=
  okOr (arrayArgs data)[(arrayArgs data).length / 2]? .indexError

theorem signalEpoch_eq (data : Bytes) :
    signalEpoch data = if rawReportCtx data = [] then .error .valueError
      else .ok (natOfBytes (lastN 5 (rawReportCtx data)) : ℤ) := by
  have hnil : lastN 5 (rawReportCtx data) = [] ↔ rawReportCtx data = [] := by
    rw [← List.length_eq_zero_iff, ← List.length_eq_zero_iff, length_lastN]
    omega
  rw [signalEpoch, int16_hexOf]
  by_cases h : rawReportCtx data = []
  · rw [if_pos (hnil.mpr h), if_pos h, okOr_none]
  · rw [if_neg fun h' ↦ h (hnil.mp h'), if_neg h, okOr_some]

theorem signalEpoch_nonneg {data : Bytes} {epoch : ℤ} (h : signalEpoch data = .ok epoch) :
    0 ≤ epoch := by
  rw [signalEpoch_eq] at h
  by_cases hnil : rawReportCtx data = []
  · rw [if_pos hnil] at h
    simp at h
  · rw [if_neg hnil, Except.ok.injEq] at h
    rw [← h]
    exact Int.natCast_nonneg _

@[simp] theorem length_readWords (data : Bytes) (offsetNext rounds : ℕ) :
    (readWords data offsetNext rounds).length = rounds := by
  induction rounds generalizing offsetNext with
  | zero => rfl
  | succ rounds ih => rw [readWords, List.length_cons, ih]

theorem getElem?_readWords (data : Bytes) {rounds i : ℕ} (h : i < rounds) :
    ∀ offsetNext, (readWords data offsetNext rounds)[i]?
      = some (natOfBytes (slice data (offsetNext + 32 * i) (offsetNext + 32 * i + 32)) : ℤ) := by
  induction rounds generalizing i with
  | zero => omega
  | succ rounds ih =>
    intro offsetNext
    rw [readWords]
    cases i with
    | zero => simp
    | succ i =>
      rw [List.getElem?_cons_succ, ih (Nat.lt_of_succ_lt_succ h)]
      have hoff : offsetNext + 32 + 32 * i = offsetNext + 32 * (i + 1) := by omega
      rw [hoff]

/-- Where the median observation begins. -/
def medianOffset (data : Bytes) : ℕ :=
  reportOffset data + 32 * 4 + 32 * (arrayLength data / 2)

/-- The slice read as the median observation. -/
def medianWord (data : Bytes) : Bytes :=
  slice data (medianOffset data) (medianOffset data + 32)

/-- The price is the middle word of the loop, whatever bytes stand there; only an empty array has
none. -/
theorem medianPrice_eq (data : Bytes) :
    medianPrice data = if arrayLength data = 0 then .error .indexError
      else .ok (natOfBytes (medianWord data) : ℤ) := by
  rw [medianPrice, arrayArgs, length_readWords]
  by_cases h : arrayLength data = 0
  · rw [if_pos h, h, readWords, List.getElem?_nil, okOr_none]
  · rw [if_neg h, getElem?_readWords data (Nat.div_lt_self (Nat.pos_of_ne_zero h) (by decide)),
      okOr_some, medianWord, medianOffset]

/-! ## The filter -/

section Filter

variable (ninety : ℤ → ℚ)

/-- `Signals.tx_filter_and_parsing`. -/
def txFilterAndParsing (tx : TxAttributes) (gasPrice : ℤ) : Proc Signals Error (String × ℤ) := do
  let contractAddr := tx.toAddr
  let data ← Proc.ofExcept (callDataArgs ninety tx gasPrice)
  let signalEpoch ← Proc.ofExcept (signalEpoch data)
  let s ← Proc.read
  let localEpoch := s.localEpoch contractAddr
  if localEpoch > signalEpoch then Proc.raise (staleReport localEpoch signalEpoch)
  else do
    Proc.modify fun s ↦ s.setEpoch contractAddr signalEpoch
    -- the epoch stays stored when the array turns out to be empty
    let price ← Proc.ofExcept (medianPrice data)
    return (contractAddr, price)

/-- `SignalsCompV2.is_within_anchor`. -/
def isWithinAnchor (_price : ℤ) : Bool := true

/-- `SignalsCompV2.tx_filter_and_parsing`. -/
def txFilterAndParsingCompV2 (tx : TxAttributes) (gasPrice : ℤ) :
    Proc Signals Error (String × ℤ) := do
  let r ← txFilterAndParsing ninety tx gasPrice
  if !isWithinAnchor r.2 then
    Proc.raise (.exception ("signal price not in anchor: \x7b\"price\":" ++ toString r.2 ++
      ", \"anchor\":0\x7d"))
  else return r

/-- The override of the Ethereum deployment adds nothing: its anchor check always passes. -/
theorem txFilterAndParsingCompV2_eq (tx : TxAttributes) (gasPrice : ℤ) :
    txFilterAndParsingCompV2 ninety tx gasPrice = txFilterAndParsing ninety tx gasPrice := by
  apply Proc.ext
  intro s
  rw [txFilterAndParsingCompV2, Proc.run_bind]
  match (txFilterAndParsing ninety tx gasPrice).run s with
  | (.ok r, s') => rfl
  | (.error e, s') => rfl

/-- The report a message carries to the point where its epoch is looked at: its arguments and its
epoch. -/
def reportOf (tx : TxAttributes) (gasPrice : ℤ) : Except Error (Bytes × ℤ) := do
  let data ← callDataArgs ninety tx gasPrice
  let epoch ← signalEpoch data
  .ok (data, epoch)

/-- The filter in terms of the report: it raises, or refuses the report as stale, or stores its
epoch and then reads the price. -/
theorem run_txFilterAndParsing (tx : TxAttributes) (gasPrice : ℤ) (s : Signals) :
    (txFilterAndParsing ninety tx gasPrice).run s =
      match reportOf ninety tx gasPrice with
      | .error e => (.error e, s)
      | .ok (data, epoch) =>
        if s.localEpoch tx.toAddr > epoch then
          (.error (staleReport (s.localEpoch tx.toAddr) epoch), s)
        else ((medianPrice data).map (tx.toAddr, ·), s.setEpoch tx.toAddr epoch) := by
  unfold txFilterAndParsing reportOf
  rw [Proc.run_bind, Proc.run_ofExcept]
  cases callDataArgs ninety tx gasPrice with
  | error e => rfl
  | ok data =>
    simp only [Proc.run_bind, Proc.run_ofExcept, ok_bind]
    cases signalEpoch data with
    | error e => rfl
    | ok epoch =>
      simp only [Proc.run_read, ok_bind]
      by_cases h : s.localEpoch tx.toAddr > epoch
      · simp only [if_pos h, Proc.run_raise]
      · simp only [if_neg h]
        cases medianPrice data with
        | error e => rfl
        | ok price => rfl

variable {ninety}

/-- A `transmit` call with arguments and a sufficient gas price passes the checks. -/
theorem callDataArgs_of_transmit {tx : TxAttributes} {gasPrice signal : ℤ} {data : Bytes}
    (hin : bytesFromPrefixed tx.input = .ok (transmitFuncSig ++ data)) (hne : data ≠ [])
    (hsignal : signalGasprice tx = .ok signal) (hgas : ninety gasPrice ≤ signal) :
    callDataArgs ninety tx gasPrice = .ok data := by
  have hlen : ¬ (transmitFuncSig ++ data).length ≤ 4 := by
    rw [List.length_append]
    have := List.length_pos_of_ne_nil hne
    simp only [transmitFuncSig, List.length_cons, List.length_nil]
    omega
  have hsig : (transmitFuncSig ++ data).take 4 = transmitFuncSig := rfl
  rw [callDataArgs, hin, ok_bind, if_neg hlen,
    if_neg (not_not.mpr hsig), hsignal, ok_bind, if_neg (not_lt.mpr hgas)]
  rfl

theorem reportOf_nonneg {tx : TxAttributes} {gasPrice : ℤ} {data : Bytes} {epoch : ℤ}
    (h : reportOf ninety tx gasPrice = .ok (data, epoch)) : 0 ≤ epoch := by
  unfold reportOf at h
  cases hargs : callDataArgs ninety tx gasPrice with
  | error e => simp [hargs] at h
  | ok data' =>
    cases hepoch : signalEpoch data' with
    | error e => simp [hargs, hepoch] at h
    | ok epoch' =>
      simp only [hargs, hepoch, ok_bind, Except.ok.injEq, Prod.mk.injEq] at h
      exact h.2 ▸ signalEpoch_nonneg hepoch

end Filter

end CompoundLiquidation
