import CompoundLiquidation.Chain.Config
import CompoundLiquidation.Chain.Logs
import CompoundLiquidation.Python.Run

/-!
# The price of a cToken between pending and confirmed

A price moves in two steps. A pending oracle transaction puts a price in use at once (`update`);
the event of the mined transaction settles it (`confirm`), or a timeout takes it back (`revert`).
`price_cache` holds what a timeout would restore, and it is meaningful only while a price is
unconfirmed: `revert` resets it to `0` and `confirm` leaves a stale value in it.

The invariant therefore has a branch for each value of the flag. It refers to the last confirmed
price, which is no field of the object, so it is stated over the history of operations.
-/

namespace CompoundLiquidation

open Python

/-! ## The event table -/

/-- The events of the signal feed. -/
inductive SignalEvent where
  | newTransmission
deriving DecidableEq, Repr

/-- The data types of an event, `EVENT_ABI[..]['data']`. -/
def SignalEvent.data : SignalEvent → List AbiType
  | .newTransmission => [.int192, .address, .int192Array, .bytes, .bytes32]

/-- `EVENT_ABI.get(topic)` of the signal feed. -/
def signalEventAbi (topic : String) : Option SignalEvent :=
  if topic = "0xf6a97944f31ea060dfde0566e4167c1a1082551e64b60ecb14d599a9d023d451" then
    some .newTransmission
  else none

/-! ## The price object -/

/-- `CtokenPrice`. The flag keeps the spelling of the source. -/
structure CtokenPrice where
  priceCurrent : ℤ
  priceCache : ℤ
  lastUpdate : ℤ
  isComfired : Bool
deriving DecidableEq, Repr

namespace CtokenPrice

/-- `CtokenPrice.__init__`. -/
def init (price lastUpdate : ℤ) : CtokenPrice where
  priceCurrent := price
  priceCache := 0
  lastUpdate := lastUpdate
  isComfired := true

/-- `new_ctoken_price` with its defaults. -/
def new : CtokenPrice := init 0 0

/-- `CtokenPrice.update`: a pending price goes in use. -/
def update (newPrice lastUpdate : ℤ) (p : CtokenPrice) : CtokenPrice where
  priceCurrent := newPrice
  priceCache := if p.isComfired then p.priceCurrent else p.priceCache
  lastUpdate := lastUpdate
  isComfired := false

/-- An unconfirmed price older than five blocks at time `now`. -/
def timedOut (net : Network) (now : ℤ) (p : CtokenPrice) : Bool :=
  !p.isComfired && p.lastUpdate + intvl net * 5 < now

/-- `CtokenPrice.revert` when the clock shows `now`. -/
def revert (net : Network) (now : ℤ) (p : CtokenPrice) : CtokenPrice :=
  if p.timedOut net now then
    { p with priceCurrent := p.priceCache, priceCache := 0, isComfired := true }
  else p

/-- `CtokenPrice.confirm`. `scaleFunc` is `int` of the source's `scale_func`. A log that does not
decode is dropped, an exception of `scaleFunc` goes to the caller. -/
def confirm {α : Type} (lib : EthLibs) (log : LogReceipt) (scaleFunc : ℤ × α → Except Error ℤ)
    (args : α) : Proc CtokenPrice Error Unit :=
  if log.removed then pure ()
  else do
    let topic ← Proc.ofExcept log.topic0
    match signalEventAbi topic with
    | none => pure ()
    | some .newTransmission =>
      match log.decodeData lib SignalEvent.newTransmission.data with
      | .error _ => pure ()
      | .ok argsData => do
        let answer : ℤ := argsData.1
        let newPrice ← Proc.ofExcept (scaleFunc (answer, args))
        Proc.modify fun p ↦ { p with priceCurrent := newPrice, isComfired := true }

/-- The price a log confirms, if it does: the log is not reverted, it is a transmission, it
decodes, and its answer can be scaled. -/
def confirmedBy {α : Type} (lib : EthLibs) (log : LogReceipt)
    (scaleFunc : ℤ × α → Except Error ℤ) (args : α) : Option ℤ :=
  if log.removed then none
  else match log.topic0 with
    | .error _ => none
    | .ok topic =>
      match signalEventAbi topic with
      | none => none
      | some .newTransmission =>
        match log.decodeData lib SignalEvent.newTransmission.data with
        | .error _ => none
        | .ok argsData => (scaleFunc (argsData.1, args)).toOption

/-- `confirm` sets the price the log confirms and is silent about every other log, also when it
raises. -/
theorem confirm_state {α : Type} (lib : EthLibs) (log : LogReceipt)
    (scaleFunc : ℤ × α → Except Error ℤ) (args : α) (p : CtokenPrice) :
    ((confirm lib log scaleFunc args).run p).2
      = match confirmedBy lib log scaleFunc args with
        | some newPrice => { p with priceCurrent := newPrice, isComfired := true }
        | none => p := by
  unfold confirm confirmedBy
  by_cases hrem : log.removed
  · rw [if_pos hrem, if_pos hrem]
    rfl
  rw [if_neg hrem, if_neg hrem, Proc.run_bind, Proc.run_ofExcept]
  cases log.topic0 with
  | error e => rfl
  | ok topic =>
    simp only
    cases signalEventAbi topic with
    | none => rfl
    | some ev =>
      cases ev with
      | newTransmission =>
        simp only
        cases log.decodeData lib SignalEvent.newTransmission.data with
        | error e => rfl
        | ok argsData =>
          simp only [Proc.run_bind, Proc.run_ofExcept]
          cases scaleFunc (argsData.1, args) with
          | error e => rfl
          | ok newPrice => rfl

/-! ## Runs -/

/-- An operation on the price. The arguments of `confirm` are those `gen_oracle_params` yields. -/
inductive Op where
  | update (newPrice lastUpdate : ℤ)
  | revert (now : ℤ)
  | confirm (log : LogReceipt) (scaleFunc : ℤ × (ℤ × ℤ) → Except Error ℤ) (args : ℤ × ℤ)

variable (net : Network) (lib : EthLibs)

/-- One operation. -/
def step (p : CtokenPrice) : Op → CtokenPrice
  | .update newPrice lastUpdate => p.update newPrice lastUpdate
  | .revert now => p.revert net now
  | .confirm log scaleFunc args => ((confirm lib log scaleFunc args).run p).2

/-- The price last settled by the chain: the latest successful `confirm`, or the initial price. -/
def settledPrice (initial : ℤ) (ops : List Op) : ℤ :=
  ops.foldl (fun settled op ↦ match op with
    | .confirm log scaleFunc args => (confirmedBy lib log scaleFunc args).getD settled
    | _ => settled) initial

/-- The most recent pending price. -/
def latestPending (ops : List Op) : Option ℤ :=
  ops.foldl (fun pending op ↦ match op with
    | .update newPrice _ => some newPrice
    | _ => pending) none

/-- What a price object shows, given the settled and the pending price of its history. -/
structure Shows (p : CtokenPrice) (settled : ℤ) (pending : Option ℤ) : Prop where
  confirmed : p.isComfired = true → p.priceCurrent = settled
  cached : p.isComfired = false → p.priceCache = settled
  current : p.isComfired = false → some p.priceCurrent = pending

section Shows

variable {p : CtokenPrice} {settled : ℤ} {pending : Option ℤ}

private theorem Shows.update (h : p.Shows settled pending) (newPrice lastUpdate : ℤ) :
    (p.update newPrice lastUpdate).Shows settled (some newPrice) where
  confirmed hc := by simp [CtokenPrice.update] at hc
  cached _ := by
    cases hp : p.isComfired with
    | true => simpa [CtokenPrice.update, hp] using h.confirmed hp
    | false => simpa [CtokenPrice.update, hp] using h.cached hp
  current _ := rfl

/-- A timed-out revert restores the settled price. -/
private theorem Shows.revert_of_timedOut (h : p.Shows settled pending) {now : ℤ}
    (hout : p.timedOut net now = true) :
    (p.revert net now).priceCurrent = settled ∧ (p.revert net now).isComfired = true := by
  have hp : p.isComfired = false := by
    rw [timedOut, Bool.and_eq_true, Bool.not_eq_true'] at hout
    exact hout.1
  rw [CtokenPrice.revert, if_pos hout]
  exact ⟨h.cached hp, rfl⟩

private theorem Shows.revert (h : p.Shows settled pending) (now : ℤ) :
    (p.revert net now).Shows settled pending := by
  by_cases hout : p.timedOut net now = true
  · obtain ⟨hprice, hflag⟩ := h.revert_of_timedOut net hout
    exact ⟨fun _ ↦ hprice, fun hf ↦ by simp [hflag] at hf, fun hf ↦ by simp [hflag] at hf⟩
  · rw [CtokenPrice.revert, if_neg hout]
    exact h

private theorem Shows.confirm (h : p.Shows settled pending) (log : LogReceipt)
    (scaleFunc : ℤ × (ℤ × ℤ) → Except Error ℤ) (args : ℤ × ℤ) :
    ((CtokenPrice.confirm lib log scaleFunc args).run p).2.Shows
      ((confirmedBy lib log scaleFunc args).getD settled) pending := by
  rw [confirm_state]
  cases confirmedBy lib log scaleFunc args with
  | none => exact h
  | some newPrice => exact ⟨fun _ ↦ rfl, fun hf ↦ by simp at hf, fun hf ↦ by simp at hf⟩

end Shows

/-- The invariant of the price object over every run. -/
private theorem shows_runFrom (price lastUpdate : ℤ) (ops : List Op) :
    (runFrom (step net lib) (init price lastUpdate) ops).Shows
      (settledPrice lib price ops) (latestPending ops) := by
  induction ops using List.reverseRecOn with
  | nil => exact ⟨fun _ ↦ rfl, fun hf ↦ by simp [init] at hf, fun hf ↦ by simp [init] at hf⟩
  | append_singleton ops op ih =>
    rw [runFrom_concat, settledPrice, latestPending, List.foldl_append, List.foldl_append]
    cases op with
    | update newPrice lastUpdate => exact ih.update newPrice lastUpdate
    | revert now => exact ih.revert net now
    | confirm log scaleFunc args => exact ih.confirm lib log scaleFunc args

/-- **The price state machine.** After every sequence of operations a confirmed price is the
settled price; while it is unconfirmed the cache holds the settled price and the price in use is
the most recent pending one; and a revert, timed out or not, never leaves the flag set over any
other price than the settled one. -/
theorem price_confirmation (price lastUpdate : ℤ) (ops : List Op) :
    let p := runFrom (step net lib) (init price lastUpdate) ops
    (p.isComfired = true → p.priceCurrent = settledPrice lib price ops) ∧
    (p.isComfired = false → p.priceCache = settledPrice lib price ops ∧
      some p.priceCurrent = latestPending ops) ∧
    (∀ now, p.timedOut net now = true →
      (p.revert net now).priceCurrent = settledPrice lib price ops ∧
        (p.revert net now).isComfired = true) := by
  have h := shows_runFrom net lib price lastUpdate ops
  exact ⟨h.confirmed, fun hf ↦ ⟨h.cached hf, h.current hf⟩, fun _ hout ↦
    h.revert_of_timedOut net hout⟩

end CtokenPrice

end CompoundLiquidation
