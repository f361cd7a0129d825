import CompoundLiquidation.Signals.Decode
import CompoundLiquidation.Signals.PriceScale

/-!
# The price loop of a signal

A pending signal names an aggregator, and `no_name` lists the tokens that get their price from it.
`pt` then goes through the list: for each token it works out the new price, divides it by the price
in use to see how far it moves, and stores it. The handler of `pt` for bad messages ends in front of
this loop.

The division can raise, and then the tokens in front are already updated. So a signal is applied to
all of its tokens or to none exactly when no division raises, or when the updates in front of the
first one that does have changed nothing. What a round finds depends on the rounds before, but for
one token only on the last of these.
-/

namespace CompoundLiquidation

open Python

/-! ## The program -/

/-- `P_ALIAS['base_currency']`, the same for both deployments. -/
def baseCurrency : String := "USD"

/-- An element of the list that `no_name` returns. -/
structure SignalEntry where
  tokenAddr : String
  price : ℤ
  feedDecimals : ℤ
deriving DecidableEq

/-- The loop body of `no_name`. -/
def noNameEntry (price : ℤ) (aggrInfo : AggregatorInfos) : Except Error SignalEntry := do
  let quote ← okOr aggrInfo.pairSymbols[1]? .indexError
  if quote = baseCurrency then return ⟨aggrInfo.token, price, aggrInfo.priceDecimals⟩
  else .error (.exception "unrecognize aggregators")

/-- `Signals.no_name`. -/
def Signals.noName (sig : Signals) (aggregator : String) (price : ℤ) :
    Except Error (List SignalEntry × String) := do
  let aggrInfos ← sig.signalTokenMap.item aggregator
  let r ← aggrInfos.mapM (noNameEntry price)
  return (r, aggregator)

/-- The markets as the loop sees them. -/
abbrev Markets := Dict String CtokenInfosFull

/-- An update of the price of a market. -/
def CtokenInfosFull.onPrice (f : CtokenPrice → CtokenPrice) (infos : CtokenInfosFull) :
    CtokenInfosFull :=
  { infos with price := infos.price.map f }

section Program

variable (cls : SignalsClass) (clock : ℕ → ℤ)

/-- `new_price` and `new_delta` of a round. -/
def newPriceAndDelta (ctokens : Markets) (r : SignalEntry) : Except Error (ℤ × ℚ) := do
  let infos ← ctokens.item r.tokenAddr
  let newPrice ← cls.getOraclePrice r.price r.feedDecimals.toNat infos.configs
  let oldPrice ← infos.priceCurrent
  let quotient ← trueDiv newPrice oldPrice
  return (newPrice, toFloat (quotient - 1))

/-- The price loop of `pt`, with the lists of tokens and the largest change so far. The clock shows
`clock i` in round `i`. -/
def priceLoop : List SignalEntry → List String → ℚ → Proc Markets Error (List String × ℚ)
  | [], tokensAddr, deltaMax => pure (tokensAddr, deltaMax)
  | r :: res, tokensAddr, deltaMax => do
    let ctokens ← Proc.read
    let (newPrice, newDelta) ← Proc.ofExcept (newPriceAndDelta cls ctokens r)
    let deltaMax := if |newDelta| > |deltaMax| then newDelta else deltaMax
    Proc.modify fun ctokens ↦ ctokens.modify r.tokenAddr
      (CtokenInfosFull.onPrice (CtokenPrice.update newPrice (clock tokensAddr.length)))
    priceLoop res (tokensAddr ++ [r.tokenAddr]) deltaMax

/-- A pending transaction. The other entries are only read by what encodes it. -/
structure PendingTx extends TxAttributes where
  type : String
  maxPriorityFeePerGas : Option String
  others : Dict String String

/-- `gas_fee`. The priority fee is not read any further, but has to be a number. -/
def gasFeeOf (message : PendingTx) : Except Error ℤ :=
  if message.type = "0x2" then (intOfAttribute message.maxPriorityFeePerGas).map fun _ ↦ 0
  else intOfAttribute message.gasPrice

/-- What `pt` takes over from the transaction before it uses the price: the encoding, which a
library makes, and the price of gas. -/
def recordTx (rawTransaction : PendingTx → Except Error String) (message : PendingTx) :
    Except Error (String × ℤ) := do
  let rawTx ← rawTransaction message
  let gasFee ← gasFeeOf message
  return (rawTx, gasFee)

/-- What `pt` does inside of its handler: `tx_filter_and_parsing` and `no_name`. -/
def ptEntries (ninety : ℤ → ℚ) (message : TxAttributes) (gasPrice : ℤ) :
    Proc Signals Error (List SignalEntry × String) := do
  let (contractAddr, price) ← txFilterAndParsing ninety message gasPrice
  let signals ← Proc.read
  Proc.ofExcept (signals.noName contractAddr price)

/-- `pt` up to the end of the price loop. An invalid message is reported and skipped; the outcome
is `none` then. -/
def ptPrices (rawTransaction : PendingTx → Except Error String) (ninety : ℤ → ℚ)
    (message : PendingTx) (gasPrice : ℤ) :
    Proc (Signals × Markets) Error (Option (List String × ℚ)) := fun s ↦
  match (ptEntries ninety message.toTxAttributes gasPrice).run s.1 with
  | (.error _, signals) => (.ok none, (signals, s.2))
  | (.ok (res, _), signals) =>
    match recordTx rawTransaction message with
    | .error e => (.error e, (signals, s.2))
    | .ok _ =>
      let (out, ctokens) := (priceLoop cls clock res [] 0).run s.2
      (out.map some, (signals, ctokens))

end Program

/-! ## Prices after some rounds -/

/-- The price object of a token. -/
def priceObject (ctokens : Markets) (token : String) : Option CtokenPrice :=
  (ctokens.get? token).bind fun infos ↦ infos.price

/-- The oracle price of an entry. -/
def newPriceOf (cls : SignalsClass) (ctokens : Markets) (r : SignalEntry) : ℤ :=
  match ctokens.get? r.tokenAddr with
  | some infos =>
    r.price * 10 ^ cls.zeros r.feedDecimals.toNat infos.configs
  | none => 0

/-- The updates that some entries make: the token, the price and the time. -/
def updatesOf (cls : SignalsClass) (ctokens : Markets) (clock : ℕ → ℤ) (res : List SignalEntry) :
    List (String × ℤ × ℤ) :=
  res.zipIdx.map fun ri ↦ (ri.1.tokenAddr, newPriceOf cls ctokens ri.1, clock ri.2)

/-- A price after the last of its updates. -/
def CtokenPrice.settle (p : CtokenPrice) : Option (ℤ × ℤ) → CtokenPrice
  | none => p
  | some (newPrice, time) => p.update newPrice time

theorem CtokenInfosFull.onPrice_id (infos : CtokenInfosFull) :
    infos.onPrice (fun p ↦ p) = infos := by
  rw [onPrice, Option.map_id']

theorem CtokenInfosFull.onPrice_onPrice (f g : CtokenPrice → CtokenPrice)
    (infos : CtokenInfosFull) :
    (infos.onPrice f).onPrice g = infos.onPrice fun p ↦ g (f p) :=
  congrArg (fun price ↦ { infos with price := price }) (Option.map_map g f infos.price)

theorem CtokenPrice.update_settle (p : CtokenPrice) (last : Option (ℤ × ℤ)) (q t : ℤ) :
    (p.settle last).update q t = p.settle (some (q, t)) := by
  cases last with
  | none => rfl
  | some last => rfl

/-- An update that changes nothing. -/
theorem CtokenPrice.update_eq_self_iff {p : CtokenPrice} {q t : ℤ} :
    p.update q t = p ↔ p.priceCurrent = q ∧ p.lastUpdate = t ∧ p.isComfired = false := by
  obtain ⟨current, cache, lastUpdate, confirmed⟩ := p
  rw [update, mk.injEq]
  constructor
  · rintro ⟨rfl, -, rfl, rfl⟩
    exact ⟨rfl, rfl, rfl⟩
  · rintro ⟨rfl, rfl, rfl⟩
    exact ⟨rfl, rfl, rfl, rfl⟩

theorem trueDiv_ok_iff {a b : ℤ} :
    (∃ q, trueDiv a b = .ok q) ↔ b ≠ 0 ∧ |toFloat (a / b)| < 2 ^ 1024 := by
  rw [trueDiv]
  by_cases hb : b = 0
  · rw [if_pos hb]
    refine ⟨?_, fun h ↦ absurd hb h.1⟩
    rintro ⟨_, h⟩
    cases h
  · rw [if_neg hb]
    by_cases hlarge : 2 ^ 1024 ≤ |toFloat (a / b)|
    · simp only [if_pos hlarge]
      refine ⟨?_, fun h ↦ absurd hlarge (not_le.mpr h.2)⟩
      rintro ⟨_, h⟩
      cases h
    · simp only [if_neg hlarge]
      exact ⟨fun _ ↦ ⟨hb, not_le.mp hlarge⟩, fun _ ↦ ⟨_, rfl⟩⟩

section Rounds

variable {cls : SignalsClass} {ctokens : Markets} {clock : ℕ → ℤ}

theorem updatesOf_concat (done : List SignalEntry) (r : SignalEntry) :
    updatesOf cls ctokens clock (done ++ [r]) = updatesOf cls ctokens clock done ++
      [(r.tokenAddr, newPriceOf cls ctokens r, clock done.length)] := by
  rw [updatesOf, List.zipIdx_append, List.map_append, Nat.zero_add]
  rfl

theorem lastFor_concat {ν : Type} (l : List (String × ν)) (k k' : String) (v : ν) :
    Dict.lastFor k (l ++ [(k', v)]) = if k = k' then some v else Dict.lastFor k l := by
  rw [Dict.lastFor, Dict.lastFor, List.filterMap_append]
  by_cases h : k = k'
  · simp [h]
  · simp [h, Ne.symm h]

/-- The markets after the rounds of some entries. -/
def Priced (cls : SignalsClass) (ctokens : Markets) (clock : ℕ → ℤ) (done : List SignalEntry)
    (d : Markets) : Prop :=
  ∀ token, d.get? token = (ctokens.get? token).map
    (CtokenInfosFull.onPrice fun p ↦
      p.settle (Dict.lastFor token (updatesOf cls ctokens clock done)))

theorem Priced.nil : Priced cls ctokens clock [] ctokens := by
  intro token
  rcases ctokens.get? token with _ | infos
  · rfl
  · exact congrArg some infos.onPrice_id.symm

theorem Priced.price_eq {done : List SignalEntry} {d : Markets}
    (h : Priced cls ctokens clock done d) (token : String) :
    priceObject d token = (priceObject ctokens token).map fun p ↦
      p.settle (Dict.lastFor token (updatesOf cls ctokens clock done)) := by
  rw [priceObject, priceObject, h token]
  rcases ctokens.get? token with _ | infos
  · rfl
  · rfl

variable (cls ctokens clock) in
/-- The division of an entry does not raise when the rounds of `done` come before it: the token has
a price, which is not zero, and the quotient is not too large for a float. -/
def Divides (done : List SignalEntry) (r : SignalEntry) : Prop :=
  ∃ p, priceObject ctokens r.tokenAddr = some p ∧
    (p.settle (Dict.lastFor r.tokenAddr (updatesOf cls ctokens clock done))).priceCurrent ≠ 0 ∧
    |toFloat (newPriceOf cls ctokens r /
      (p.settle (Dict.lastFor r.tokenAddr (updatesOf cls ctokens clock done))).priceCurrent)|
        < 2 ^ 1024

/-- A round without a price in its market raises. -/
theorem Priced.newPriceAndDelta_of_none {done : List SignalEntry} {d : Markets}
    (h : Priced cls ctokens clock done d) {r : SignalEntry}
    (hprice : priceObject ctokens r.tokenAddr = none) :
    ∃ e, newPriceAndDelta cls d r = .error e := by
  rw [newPriceAndDelta, Dict.item, h]
  rw [priceObject] at hprice
  rcases hinfos : ctokens.get? r.tokenAddr with _ | infos
  · exact ⟨_, rfl⟩
  · rw [hinfos, Option.bind_some] at hprice
    rw [Option.map_some, okOr_some, ok_bind, cls.getOraclePrice_eq, ok_bind,
      CtokenInfos.priceCurrent, CtokenInfosFull.onPrice, hprice]
    exact ⟨_, rfl⟩

/-- What a round computes in front of its assignment. -/
theorem Priced.newPriceAndDelta_eq {done : List SignalEntry} {d : Markets}
    (h : Priced cls ctokens clock done d) {r : SignalEntry} {p : CtokenPrice}
    (hprice : priceObject ctokens r.tokenAddr = some p) :
    newPriceAndDelta cls d r = (trueDiv (newPriceOf cls ctokens r) (p.settle (Dict.lastFor
      r.tokenAddr (updatesOf cls ctokens clock done))).priceCurrent).map fun quotient ↦
        (newPriceOf cls ctokens r, toFloat (quotient - 1)) := by
  rw [newPriceAndDelta, Dict.item, h, newPriceOf]
  rw [priceObject] at hprice
  rcases hinfos : ctokens.get? r.tokenAddr with _ | infos
  · rw [hinfos] at hprice
    cases hprice
  · rw [hinfos, Option.bind_some] at hprice
    rw [Option.map_some, okOr_some, ok_bind, cls.getOraclePrice_eq, ok_bind,
      CtokenInfos.priceCurrent, CtokenInfosFull.onPrice, hprice]
    rfl

theorem Priced.newPriceAndDelta_ok_iff {done : List SignalEntry} {d : Markets}
    (h : Priced cls ctokens clock done d) (r : SignalEntry) :
    (∃ v, newPriceAndDelta cls d r = .ok v) ↔ Divides cls ctokens clock done r := by
  rw [Divides]
  rcases hprice : priceObject ctokens r.tokenAddr with _ | p
  · obtain ⟨e, he⟩ := h.newPriceAndDelta_of_none hprice
    rw [he]
    exact ⟨fun ⟨_, h⟩ ↦ (by cases h), fun ⟨_, h, _⟩ ↦ (by cases h)⟩
  · rw [h.newPriceAndDelta_eq hprice]
    simp only [Option.some.injEq, exists_eq_left', ← trueDiv_ok_iff]
    rcases trueDiv (newPriceOf cls ctokens r) (p.settle (Dict.lastFor r.tokenAddr
      (updatesOf cls ctokens clock done))).priceCurrent with e | quotient
    · exact ⟨fun ⟨_, h⟩ ↦ (by cases h), fun ⟨_, h⟩ ↦ (by cases h)⟩
    · exact ⟨fun _ ↦ ⟨_, rfl⟩, fun _ ↦ ⟨_, rfl⟩⟩

theorem Priced.fst_newPriceAndDelta {done : List SignalEntry} {d : Markets}
    (h : Priced cls ctokens clock done d) {r : SignalEntry} {v : ℤ × ℚ}
    (hv : newPriceAndDelta cls d r = .ok v) : v.1 = newPriceOf cls ctokens r := by
  rcases hprice : priceObject ctokens r.tokenAddr with _ | p
  · obtain ⟨e, he⟩ := h.newPriceAndDelta_of_none hprice
    rw [he] at hv
    cases hv
  · rw [h.newPriceAndDelta_eq hprice] at hv
    rcases htrue : trueDiv (newPriceOf cls ctokens r) (p.settle (Dict.lastFor r.tokenAddr
      (updatesOf cls ctokens clock done))).priceCurrent with e | quotient
    · rw [htrue] at hv
      cases hv
    · rw [htrue] at hv
      rw [← Except.ok.inj hv]

/-- The assignment of a round. -/
theorem Priced.concat {done : List SignalEntry} {d : Markets}
    (h : Priced cls ctokens clock done d) (r : SignalEntry) :
    Priced cls ctokens clock (done ++ [r]) (d.modify r.tokenAddr (CtokenInfosFull.onPrice
      (CtokenPrice.update (newPriceOf cls ctokens r) (clock done.length)))) := by
  intro token
  rw [Dict.get?_modify, updatesOf_concat, lastFor_concat, h token]
  by_cases htoken : token = r.tokenAddr
  · rw [if_pos htoken, if_pos htoken, Option.map_map]
    refine congrArg (Option.map · _) (funext fun infos ↦ ?_)
    rw [Function.comp_apply, CtokenInfosFull.onPrice_onPrice]
    simp only [CtokenPrice.update_settle]
  · rw [if_neg htoken, if_neg htoken]

/-- The step of the loop. -/
theorem run_priceLoop_cons (d : Markets) (r : SignalEntry) (res : List SignalEntry)
    (tokensAddr : List String) (deltaMax : ℚ) :
    (priceLoop cls clock (r :: res) tokensAddr deltaMax).run d
      = match newPriceAndDelta cls d r with
        | .error e => (.error e, d)
        | .ok (newPrice, newDelta) => (priceLoop cls clock res (tokensAddr ++ [r.tokenAddr])
            (if |newDelta| > |deltaMax| then newDelta else deltaMax)).run
              (d.modify r.tokenAddr (CtokenInfosFull.onPrice
                (CtokenPrice.update newPrice (clock tokensAddr.length)))) := by
  rw [priceLoop, Proc.run_bind, Proc.run_read]
  simp only [Proc.run_bind, Proc.run_ofExcept]
  rcases newPriceAndDelta cls d r with e | ⟨newPrice, newDelta⟩
  · rfl
  · rfl

/-- Every division of a list of entries goes through. -/
def GoesThrough (cls : SignalsClass) (ctokens : Markets) (clock : ℕ → ℤ)
    (res : List SignalEntry) : Prop :=
  ∀ done r rest, res = done ++ r :: rest → Divides cls ctokens clock done r

theorem GoesThrough.concat {done : List SignalEntry} {r : SignalEntry}
    (h : GoesThrough cls ctokens clock done) (hr : Divides cls ctokens clock done r) :
    GoesThrough cls ctokens clock (done ++ [r]) := by
  intro done' r' rest' hsplit
  rcases List.eq_nil_or_concat rest' with rfl | ⟨rest, last, rfl⟩
  · obtain ⟨hdone, hlast⟩ := List.append_inj' hsplit rfl
    rw [← hdone, ← (List.cons.inj hlast).1]
    exact hr
  · rw [List.concat_eq_append, ← List.cons_append, ← List.append_assoc] at hsplit
    exact h done' r' rest (List.append_inj' hsplit rfl).1

/-- **The run of the loop.** It goes through the whole list, or stops in front of the first division
that raises. -/
theorem run_priceLoop (res : List SignalEntry) : ∀ {done : List SignalEntry} {d : Markets}
    {tokensAddr : List String} {deltaMax : ℚ}, Priced cls ctokens clock done d →
    tokensAddr.length = done.length → GoesThrough cls ctokens clock done →
    ((∃ v, ((priceLoop cls clock res tokensAddr deltaMax).run d).1 = .ok v) ∧
      GoesThrough cls ctokens clock (done ++ res) ∧
      Priced cls ctokens clock (done ++ res)
        ((priceLoop cls clock res tokensAddr deltaMax).run d).2) ∨
    ((∃ e, ((priceLoop cls clock res tokensAddr deltaMax).run d).1 = .error e) ∧
      ∃ done' r rest, done ++ res = done' ++ r :: rest ∧ GoesThrough cls ctokens clock done' ∧
        ¬ Divides cls ctokens clock done' r ∧
        Priced cls ctokens clock done'
          ((priceLoop cls clock res tokensAddr deltaMax).run d).2) := by
  induction res with
  | nil =>
    intro done d tokensAddr deltaMax hpriced _ hthrough
    rw [List.append_nil]
    exact .inl ⟨⟨_, rfl⟩, hthrough, hpriced⟩
  | cons r res ih =>
    intro done d tokensAddr deltaMax hpriced hlength hthrough
    rw [run_priceLoop_cons]
    rcases hround : newPriceAndDelta cls d r with e | ⟨newPrice, newDelta⟩
    · refine .inr ⟨⟨e, rfl⟩, done, r, res, rfl, hthrough, ?_, hpriced⟩
      rw [← hpriced.newPriceAndDelta_ok_iff, hround]
      rintro ⟨_, h⟩
      cases h
    · have hdivides := (hpriced.newPriceAndDelta_ok_iff r).mp ⟨_, hround⟩
      have hnew : newPrice = newPriceOf cls ctokens r := hpriced.fst_newPriceAndDelta hround
      simp only [hlength, hnew]
      have hlength' : (tokensAddr ++ [r.tokenAddr]).length = (done ++ [r]).length := by
        simp [hlength]
      rw [List.append_cons done r res]
      exact ih (hpriced.concat r) hlength' (hthrough.concat hdivides)

/-- The first division that raises is at one place only. -/
theorem GoesThrough.unique {done done' rest rest' : List SignalEntry} {r r' : SignalEntry}
    (h : GoesThrough cls ctokens clock done) (hr : ¬ Divides cls ctokens clock done r)
    (h' : GoesThrough cls ctokens clock done') (hr' : ¬ Divides cls ctokens clock done' r')
    (heq : done ++ r :: rest = done' ++ r' :: rest') : done = done' := by
  rcases List.append_eq_append_iff.mp heq with ⟨mid, hdone, hmid⟩ | ⟨mid, hdone, hmid⟩
  · rcases mid with _ | ⟨x, mid⟩
    · rw [hdone, List.append_nil]
    · rw [List.cons_append, List.cons.injEq] at hmid
      exact absurd (h' done r mid (hmid.1 ▸ hdone)) hr
  · rcases mid with _ | ⟨x, mid⟩
    · rw [hdone, List.append_nil]
    · rw [List.cons_append, List.cons.injEq] at hmid
      exact absurd (h done' r' mid (hmid.1 ▸ hdone)) hr'

/-! ## All tokens or none -/

variable (cls ctokens clock) in
/-- Every token of the list has its new price, and the price is unconfirmed. -/
def AppliedToAll (res : List SignalEntry) (ctokens' : Markets) : Prop :=
  ∀ token newPrice time,
    Dict.lastFor token (updatesOf cls ctokens clock res) = some (newPrice, time) →
    ∃ p, priceObject ctokens' token = some p ∧ p.priceCurrent = newPrice ∧ p.lastUpdate = time ∧
      p.isComfired = false

variable (cls ctokens clock) in
/-- The tokens of the list already have the prices of the list, unconfirmed and with the same
time. -/
def Carried (done : List SignalEntry) : Prop := AppliedToAll cls ctokens clock done ctokens

variable (cls ctokens clock) in
/-- The loop completes with every token updated, or leaves all prices as they were. -/
def AllOrNone (res : List SignalEntry) (out : Except Error (Option (List String × ℚ)))
    (ctokens' : Markets) : Prop :=
  ((∃ v, out = .ok (some v)) ∧ AppliedToAll cls ctokens clock res ctokens') ∨
    ∀ token, priceObject ctokens' token = priceObject ctokens token

theorem Divides.exists_price {done : List SignalEntry} {r : SignalEntry}
    (h : Divides cls ctokens clock done r) : ∃ p, priceObject ctokens r.tokenAddr = some p :=
  ⟨h.choose, h.choose_spec.1⟩

/-- An updated token is the token of an entry. -/
theorem exists_of_lastFor {res : List SignalEntry} {token : String} {u : ℤ × ℤ}
    (h : Dict.lastFor token (updatesOf cls ctokens clock res) = some u) :
    ∃ done r rest, res = done ++ r :: rest ∧ r.tokenAddr = token := by
  rw [Dict.lastFor] at h
  obtain ⟨v, hv, hif⟩ := List.mem_filterMap.mp (List.mem_of_getLast? h)
  rw [updatesOf] at hv
  obtain ⟨ri, hri, rfl⟩ := List.mem_map.mp hv
  have htoken : ri.1.tokenAddr = token := by
    by_contra hne
    rw [if_neg hne] at hif
    cases hif
  obtain ⟨done, rest, hsplit⟩ :=
    List.append_of_mem (List.fst_mem_of_mem_zipIdx hri)
  exact ⟨done, ri.1, rest, hsplit, htoken⟩

/-- Rounds that went through have applied their updates. -/
theorem Priced.appliedToAll {res : List SignalEntry} {d : Markets}
    (h : Priced cls ctokens clock res d) (hthrough : GoesThrough cls ctokens clock res) :
    AppliedToAll cls ctokens clock res d := by
  intro token newPrice time hlast
  obtain ⟨done, r, rest, hsplit, rfl⟩ := exists_of_lastFor hlast
  obtain ⟨p, hp⟩ := (hthrough done r rest hsplit).exists_price
  exact ⟨p.update newPrice time, by rw [h.price_eq, hp, hlast]; rfl, rfl, rfl, rfl⟩

/-- Rounds that went through have changed no price iff the tokens had these prices before. -/
theorem Priced.unchanged_iff {done : List SignalEntry} {d : Markets}
    (h : Priced cls ctokens clock done d) (hthrough : GoesThrough cls ctokens clock done) :
    (∀ token, priceObject d token = priceObject ctokens token) ↔
      Carried cls ctokens clock done := by
  constructor
  · intro hsame token newPrice time hlast
    obtain ⟨p, hp, hcarried⟩ := h.appliedToAll hthrough token newPrice time hlast
    exact ⟨p, by rw [← hsame, hp], hcarried⟩
  · intro hcarried token
    rw [h.price_eq]
    rcases hlast : Dict.lastFor token (updatesOf cls ctokens clock done) with _ | ⟨newPrice, time⟩
    · exact Option.map_id'
    · obtain ⟨p, hp, hsettled⟩ := hcarried token newPrice time hlast
      rw [hp, Option.map_some]
      exact congrArg some (CtokenPrice.update_eq_self_iff.mpr hsettled)

end Rounds

variable {rawTransaction : PendingTx → Except Error String} {ninety : ℤ → ℚ} {message : PendingTx}
  {gasPrice : ℤ} {signals signals' : Signals} {res : List SignalEntry} {aggr : String}

/-- A valid message that is recorded gets to the loop. -/
theorem run_ptPrices (hvalid : (ptEntries ninety message.toTxAttributes gasPrice).run signals
      = (.ok (res, aggr), signals')) {cls : SignalsClass} {clock : ℕ → ℤ} {ctokens : Markets} :
    (ptPrices cls clock rawTransaction ninety message gasPrice).run (signals, ctokens)
      = match recordTx rawTransaction message with
        | .error e => (.error e, (signals', ctokens))
        | .ok _ => (((priceLoop cls clock res [] 0).run ctokens).1.map some,
            (signals', ((priceLoop cls clock res [] 0).run ctokens).2)) := by
  rw [Proc.run, ptPrices]
  simp only [hvalid]

/-- **When a signal is all or nothing.** Either the transaction cannot be recorded, or every
division of the list goes through, or the tokens in front of the first one that does not already
have the prices of the signal. -/
theorem allOrNone_iff (hvalid : (ptEntries ninety message.toTxAttributes gasPrice).run signals
      = (.ok (res, aggr), signals')) (rawTransaction : PendingTx → Except Error String)
    (cls : SignalsClass) (clock : ℕ → ℤ) (ctokens : Markets) :
    AllOrNone cls ctokens clock res
        ((ptPrices cls clock rawTransaction ninety message gasPrice).run (signals, ctokens)).1
        ((ptPrices cls clock rawTransaction ninety message gasPrice).run (signals, ctokens)).2.2
      ↔ (∃ e, recordTx rawTransaction message = .error e) ∨ GoesThrough cls ctokens clock res ∨
        ∃ done r rest, res = done ++ r :: rest ∧ GoesThrough cls ctokens clock done ∧
          ¬ Divides cls ctokens clock done r ∧ Carried cls ctokens clock done := by
  have hempty : GoesThrough cls ctokens clock [] := by
    intro done r rest hsplit
    simp at hsplit
  rw [run_ptPrices hvalid]
  rcases recordTx rawTransaction message with e | recorded
  · exact iff_of_true (.inr fun _ ↦ rfl) (.inl ⟨e, rfl⟩)
  have hno : ¬ ∃ e, (Except.ok recorded : Except Error (String × ℤ)) = .error e := by
    rintro ⟨e, he⟩
    cases he
  rw [or_iff_right hno]
  rcases @run_priceLoop cls ctokens clock res [] ctokens [] 0 Priced.nil rfl hempty with
    ⟨⟨v, hv⟩, hthrough, hpriced⟩ | ⟨⟨e, he⟩, done, r, rest, hsplit, hthrough, hr, hpriced⟩
  · rw [List.nil_append] at hthrough hpriced
    exact iff_of_true (.inl ⟨⟨v, by rw [hv]; rfl⟩, hpriced.appliedToAll hthrough⟩) (.inl hthrough)
  · rw [List.nil_append] at hsplit
    rw [AllOrNone, he, hpriced.unchanged_iff hthrough]
    constructor
    · rintro (⟨⟨_, hok⟩, -⟩ | hcarried)
      · cases hok
      · exact .inr ⟨done, r, rest, hsplit, hthrough, hr, hcarried⟩
    · rintro (hall | ⟨done', r', rest', hsplit', hthrough', hr', hcarried⟩)
      · exact absurd (hall done r rest hsplit) hr
      · rw [hthrough.unique hr hthrough' hr' (hsplit.symm.trans hsplit')]
        exact .inr hcarried

/-! ## An aggregator of two tokens -/

/-- An aggregator that prices two tokens in dollars. -/
def twoTokens : Signals :=
  .init ((∅ : Dict String (List AggregatorInfos)).set "0x137924d7c36816e0dcaf016eb617cc2c92c05782"
    [⟨"0xA", ["A", "USD"], 18⟩, ⟨"0xB", ["B", "USD"], 18⟩])

/-- Two markets with confirmed prices. -/
def dollarMarkets (priceA priceB : ℤ) : Markets :=
  ((∅ : Markets).set "0xA"
    ⟨⟨newCtokenRisks, newCtokenBalances, some (.init priceA 0)⟩, ⟨18, 0, 0⟩⟩).set
    "0xB" ⟨⟨newCtokenRisks, newCtokenBalances, some (.init priceB 0)⟩, ⟨18, 0, 0⟩⟩

/-- A transaction with this price, and a library that returns its input. -/
def smallMessage : PendingTx := ⟨transmitOf 7, "0x0", none, ∅⟩

def inputOf (message : PendingTx) : Except Error String := .ok message.input

theorem recordTx_inputOf {message : PendingTx} {gasFee : ℤ} (hgas : gasFeeOf message = .ok gasFee) :
    recordTx inputOf message = .ok (message.input, gasFee) := by
  rw [recordTx, hgas]
  rfl

theorem recordTx_smallMessage :
    recordTx inputOf smallMessage = .ok (smallMessage.input, 5000000000) :=
  recordTx_inputOf (by decide +kernel)

theorem ptEntries_seven :
    (ptEntries exactNinety (transmitOf 7) 5000000000).run twoTokens
      = (.ok ([⟨"0xA", 7, 18⟩, ⟨"0xB", 7, 18⟩], "0x137924d7c36816e0dcaf016eb617cc2c92c05782"),
        twoTokens.setEpoch "0x137924d7c36816e0dcaf016eb617cc2c92c05782" (epochOfCtx 5)) := by
  have hstale : twoTokens.localEpoch (transmitOf 7).toAddr ≤ epochOfCtx 5 := Int.natCast_nonneg _
  have hparsed := run_transmitOf 7 hstale
  have hprice : (((7 : BitVec 192).signExtend 256).toNat : ℤ) = 7 := by decide
  have haddr : (transmitOf 7).toAddr = "0x137924d7c36816e0dcaf016eb617cc2c92c05782" := rfl
  rw [hprice, haddr] at hparsed
  have hentries : (twoTokens.setEpoch "0x137924d7c36816e0dcaf016eb617cc2c92c05782"
      (epochOfCtx 5)).noName "0x137924d7c36816e0dcaf016eb617cc2c92c05782" 7
        = .ok ([⟨"0xA", 7, 18⟩, ⟨"0xB", 7, 18⟩],
          "0x137924d7c36816e0dcaf016eb617cc2c92c05782") := by
    rw [Signals.noName, Signals.setEpoch]
    rfl
  rw [ptEntries, Proc.run_bind_of_ok hparsed, Proc.run_bind_of_ok (Proc.run_read _),
    Proc.run_ofExcept, hentries]

private theorem goesThrough_seven : GoesThrough .compVenues (dollarMarkets 5 5) (fun _ ↦ 100)
    [⟨"0xA", 7, 18⟩, ⟨"0xB", 7, 18⟩] := by
  intro done r rest hsplit
  rcases done with _ | ⟨a, _ | ⟨b, done⟩⟩
  · obtain ⟨rfl, -⟩ := List.cons.inj hsplit
    exact ⟨.init 5 0, rfl, by decide, by decide +kernel⟩
  · obtain ⟨rfl, hrest⟩ := List.cons.inj hsplit
    obtain ⟨rfl, -⟩ := List.cons.inj hrest
    exact ⟨.init 5 0, rfl, by decide, by decide +kernel⟩
  · simp at hsplit

theorem allOrNone_seven :
    AllOrNone .compVenues (dollarMarkets 5 5) (fun _ ↦ 100) [⟨"0xA", 7, 18⟩, ⟨"0xB", 7, 18⟩]
      ((ptPrices .compVenues (fun _ ↦ 100) inputOf exactNinety smallMessage 5000000000).run
        (twoTokens, dollarMarkets 5 5)).1
      ((ptPrices .compVenues (fun _ ↦ 100) inputOf exactNinety smallMessage 5000000000).run
        (twoTokens, dollarMarkets 5 5)).2.2 := by
  have hvalid : (ptEntries exactNinety smallMessage.toTxAttributes 5000000000).run twoTokens = _ :=
    ptEntries_seven
  exact (allOrNone_iff hvalid inputOf .compVenues (fun _ ↦ 100) (dollarMarkets 5 5)).mpr
    (.inr (.inl goesThrough_seven))

/-- With a price of zero in the second market the loop stops between the two. -/
theorem not_allOrNone_zero :
    ¬ AllOrNone .compVenues (dollarMarkets 5 0) (fun _ ↦ 100) [⟨"0xA", 7, 18⟩, ⟨"0xB", 7, 18⟩]
      ((ptPrices .compVenues (fun _ ↦ 100) inputOf exactNinety smallMessage 5000000000).run
        (twoTokens, dollarMarkets 5 0)).1
      ((ptPrices .compVenues (fun _ ↦ 100) inputOf exactNinety smallMessage 5000000000).run
        (twoTokens, dollarMarkets 5 0)).2.2 := by
  rw [@run_ptPrices inputOf exactNinety smallMessage _ _ _ _ _ ptEntries_seven,
    recordTx_smallMessage]
  dsimp only
  have hraises : ((priceLoop .compVenues (fun _ ↦ 100) [⟨"0xA", 7, 18⟩, ⟨"0xB", 7, 18⟩] [] 0).run
      (dollarMarkets 5 0)).1.toBool = false := by
    decide +kernel
  have hmoved : (priceObject ((priceLoop .compVenues (fun _ ↦ 100) [⟨"0xA", 7, 18⟩, ⟨"0xB", 7, 18⟩]
      [] 0).run (dollarMarkets 5 0)).2 "0xA").map CtokenPrice.priceCurrent = some 7 := by
    decide +kernel
  rintro (⟨⟨v, hv⟩, -⟩ | hsame)
  · rcases hloop : ((priceLoop .compVenues (fun _ ↦ 100) [⟨"0xA", 7, 18⟩, ⟨"0xB", 7, 18⟩] [] 0).run
      (dollarMarkets 5 0)).1 with e | w
    · rw [hloop] at hv
      cases hv
    · rw [hloop] at hraises
      cases hraises
  · rw [hsame] at hmoved
    exact absurd hmoved (by decide)

end CompoundLiquidation
