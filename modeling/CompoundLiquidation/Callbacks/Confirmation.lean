import CompoundLiquidation.Callbacks.PriceLoop

/-!
# Confirmed prices

`signals_subscribe_callback` gets the events of the aggregators. A transmission confirms its answer
as the price of every token of its aggregator, one after the other, up to the first token that has
no price object. For one token only the last entry counts, so that the prices afterwards are those
before with the last confirmation of each token put in.
-/

namespace CompoundLiquidation

open Python

/-! ## The program -/

/-- `int` of `price_scale`, on an answer with the result of `gen_oracle_params`. -/
def SignalsClass.confirmScale (cls : SignalsClass) (args : ℤ × ℕ × CtokenConfigs) :
    Except Error ℤ :=
  cls.getOraclePrice args.1 args.2.1 args.2.2

section Program

variable (lib : EthLibs) (cls : SignalsClass)

/-- The inner loop of `signals_subscribe_callback`. -/
def confirmToken (log : LogReceipt) (tokenInfo : AggregatorInfos) : Proc Markets Error Unit := do
  let ctokens ← Proc.read
  let infos ← Proc.ofExcept (ctokens.item tokenInfo.token)
  let price ← Proc.ofOption infos.price .attributeError
  let args := (tokenInfo.priceDecimals.toNat, infos.configs)
  let (out, price) := (CtokenPrice.confirm lib log cls.confirmScale args).run price
  Proc.modify fun ctokens ↦
    ctokens.modify tokenInfo.token (CtokenInfosFull.onPrice fun _ ↦ price)
  Proc.ofExcept out

/-- `signals_subscribe_callback`. -/
def signalsSubscribeCallback (sig : Signals) (response : LogReceiptLight) :
    Proc Markets Error Unit := do
  let logs ← Proc.ofExcept (converter lib response)
  Proc.forEach logs fun log ↦ do
    let aggrInfos ← Proc.ofExcept (sig.signalTokenMap.item log.address.toLower)
    Proc.forEach aggrInfos (confirmToken lib cls log)

end Program

/-! ## One log -/

/-- The answer a log confirms: the log is not reverted, it is a transmission, and it decodes. -/
def LogReceipt.answer? (lib : EthLibs) (log : LogReceipt) : Option ℤ :=
  CtokenPrice.confirmedBy lib log (fun (answer, _) ↦ .ok answer) ()

/-- A price after a confirmation. -/
def CtokenPrice.confirmedAt (p : CtokenPrice) : Option ℤ → CtokenPrice
  | none => p
  | some newPrice => { p with priceCurrent := newPrice, isComfired := true }

/-- A confirmation that changes nothing. -/
theorem CtokenPrice.confirmedAt_eq_self_iff {p : CtokenPrice} {newPrice : ℤ} :
    p.confirmedAt (some newPrice) = p ↔ p.priceCurrent = newPrice ∧ p.isComfired = true := by
  obtain ⟨current, cache, lastUpdate, confirmed⟩ := p
  simp only [confirmedAt, mk.injEq, true_and]
  exact and_congr eq_comm eq_comm

section Log

variable {lib : EthLibs} {log : LogReceipt} {α : Type} {scaleFunc : ℤ × α → Except Error ℤ}
  {args : α}

theorem confirmedBy_eq : CtokenPrice.confirmedBy lib log scaleFunc args
    = (log.answer? lib).bind fun answer ↦ (scaleFunc (answer, args)).toOption := by
  rw [LogReceipt.answer?, CtokenPrice.confirmedBy, CtokenPrice.confirmedBy]
  by_cases hremoved : log.removed = true
  · rw [if_pos hremoved, if_pos hremoved]
    rfl
  rw [if_neg hremoved, if_neg hremoved]
  rcases log.topic0 with e | topic
  · rfl
  simp only
  rcases signalEventAbi topic with _ | ⟨⟩
  · rfl
  simp only
  rcases log.decodeData lib SignalEvent.newTransmission.data with e | argsData
  · rfl
  · rfl

/-- A log without an answer leaves the price alone. -/
theorem confirm_of_no_answer (h : log.answer? lib = none) (p : CtokenPrice) :
    ((CtokenPrice.confirm lib log scaleFunc args).run p).2 = p := by
  rw [CtokenPrice.confirm_state, confirmedBy_eq, h]
  rfl

/-- An answer that can be scaled is confirmed. -/
theorem run_confirm_of_answer {answer newPrice : ℤ} (h : log.answer? lib = some answer)
    (hscale : scaleFunc (answer, args) = .ok newPrice) (p : CtokenPrice) :
    (CtokenPrice.confirm lib log scaleFunc args).run p
      = (.ok (), p.confirmedAt (some newPrice)) := by
  rw [LogReceipt.answer?, CtokenPrice.confirmedBy] at h
  by_cases hremoved : log.removed = true
  · rw [if_pos hremoved] at h
    cases h
  rw [if_neg hremoved] at h
  rw [CtokenPrice.confirm, if_neg hremoved, Proc.run_bind, Proc.run_ofExcept]
  rcases htopic : log.topic0 with e | topic
  · rw [htopic] at h
    cases h
  rw [htopic] at h
  simp only at h ⊢
  rcases hevent : signalEventAbi topic with _ | ⟨⟩
  · rw [hevent] at h
    cases h
  rw [hevent] at h
  simp only at h ⊢
  rcases hdata : log.decodeData lib SignalEvent.newTransmission.data with e | argsData
  · rw [hdata] at h
    cases h
  rw [hdata] at h
  obtain rfl : argsData.1 = answer := Option.some.inj h
  simp only [Proc.run_bind, Proc.run_ofExcept, hscale]
  rfl

end Log

/-! ## The tokens of an aggregator -/

/-- The confirmations that an answer makes, in the markets at the start. -/
def confirmationsOf (cls : SignalsClass) (ctokens : Markets) (answer : ℤ)
    (aggrInfos : List AggregatorInfos) : List (String × ℤ) :=
  aggrInfos.map fun info ↦
    (info.token, newPriceOf cls ctokens ⟨info.token, answer, info.priceDecimals⟩)

/-- The token has a price object. -/
def hasPrice (ctokens : Markets) (info : AggregatorInfos) : Bool :=
  (priceObject ctokens info.token).isSome

/-- Every token that the loop comes to has the price that its last entry confirms, confirmed. -/
def AlreadyConfirmed (cls : SignalsClass) (ctokens : Markets) (answer : ℤ)
    (aggrInfos : List AggregatorInfos) : Prop :=
  ∀ token price newPrice, priceObject ctokens token = some price →
    Dict.lastFor token (confirmationsOf cls ctokens answer
      (aggrInfos.takeWhile (hasPrice ctokens))) = some newPrice →
    price.priceCurrent = newPrice ∧ price.isComfired = true

/-- The markets after the confirmations of some entries. -/
def Confirmed (cls : SignalsClass) (ctokens : Markets) (answer : ℤ)
    (done : List AggregatorInfos) (d : Markets) : Prop :=
  ∀ token, d.get? token = (ctokens.get? token).map (CtokenInfosFull.onPrice fun p ↦
    p.confirmedAt (Dict.lastFor token (confirmationsOf cls ctokens answer done)))

/-- All price objects are the same. -/
def SamePrices (d d' : Markets) : Prop := ∀ token, priceObject d' token = priceObject d token

section Tokens

variable {lib : EthLibs} {cls : SignalsClass} {log : LogReceipt} {ctokens d : Markets}
  {answer : ℤ} {done : List AggregatorInfos}

theorem Confirmed.nil : Confirmed cls ctokens answer [] ctokens := by
  intro token
  rcases ctokens.get? token with _ | infos
  · rfl
  · exact congrArg some infos.onPrice_id.symm

theorem Confirmed.price_eq (h : Confirmed cls ctokens answer done d) (token : String) :
    priceObject d token = (priceObject ctokens token).map fun p ↦
      p.confirmedAt (Dict.lastFor token (confirmationsOf cls ctokens answer done)) := by
  rw [priceObject, priceObject, h token]
  rcases ctokens.get? token with _ | infos
  · rfl
  · rfl

theorem Confirmed.samePrices_iff (h : Confirmed cls ctokens answer done d) :
    SamePrices ctokens d ↔ ∀ token price newPrice, priceObject ctokens token = some price →
      Dict.lastFor token (confirmationsOf cls ctokens answer done) = some newPrice →
      price.priceCurrent = newPrice ∧ price.isComfired = true := by
  constructor
  · intro hsame token price newPrice hprice hlast
    have htoken := hsame token
    rw [h.price_eq, hprice, hlast, Option.map_some, Option.some_inj] at htoken
    exact CtokenPrice.confirmedAt_eq_self_iff.mp htoken
  · intro hconfirmed token
    rw [h.price_eq]
    rcases hlast : Dict.lastFor token (confirmationsOf cls ctokens answer done) with _ | newPrice
    · exact Option.map_id'
    · rcases hprice : priceObject ctokens token with _ | price
      · rfl
      · exact congrArg some (CtokenPrice.confirmedAt_eq_self_iff.mpr
          (hconfirmed token price newPrice hprice hlast))

/-- A token without a price object raises, and nothing has happened. -/
theorem run_confirmToken_of_none {info : AggregatorInfos} (h : priceObject d info.token = none) :
    ∃ e, (confirmToken lib cls log info).run d = (.error e, d) := by
  rw [priceObject] at h
  rw [confirmToken, Proc.run_bind, Proc.run_read]
  simp only [Proc.run_bind, Proc.run_ofExcept, Dict.item]
  rcases hinfos : d.get? info.token with _ | infos
  · exact ⟨_, rfl⟩
  · rw [hinfos, Option.bind_some] at h
    simp only [okOr_some, h]
    exact ⟨_, rfl⟩

/-- A token with one. -/
theorem run_confirmToken_of_some {info : AggregatorInfos} {infos : CtokenInfosFull}
    {price : CtokenPrice} (hinfos : d.get? info.token = some infos)
    (hprice : infos.price = some price) :
    (confirmToken lib cls log info).run d =
      let confirmed := (CtokenPrice.confirm lib log cls.confirmScale
        (info.priceDecimals.toNat, infos.configs)).run price
      (confirmed.1, d.modify info.token (CtokenInfosFull.onPrice fun _ ↦ confirmed.2)) := by
  rw [confirmToken, Proc.run_bind, Proc.run_read]
  simp only [Proc.run_bind, Proc.run_ofExcept, Dict.item, hinfos, okOr_some, hprice]
  rfl

/-- Without an answer the loop keeps all prices. -/
theorem keeps_confirmToken (h : log.answer? lib = none) (info : AggregatorInfos) :
    Proc.Keeps SamePrices (confirmToken lib cls log info) := by
  intro d token
  rcases hprice : priceObject d info.token with _ | price
  · obtain ⟨e, he⟩ := @run_confirmToken_of_none lib cls log d info hprice
    rw [he]
  · obtain ⟨infos, hinfos, hsome⟩ := Option.bind_eq_some_iff.mp hprice
    rw [run_confirmToken_of_some hinfos hsome]
    simp only [confirm_of_no_answer h]
    rw [priceObject, priceObject, Dict.get?_modify]
    split_ifs with htoken
    · rw [htoken, hinfos, Option.map_some, Option.bind_some, Option.bind_some,
        CtokenInfosFull.onPrice, hsome]
      rfl
    · rfl

theorem CtokenPrice.confirmedAt_confirmedAt (p : CtokenPrice) (last : Option ℤ) (newPrice : ℤ) :
    (p.confirmedAt last).confirmedAt (some newPrice) = p.confirmedAt (some newPrice) := by
  rcases last with _ | q
  · rfl
  · rfl

theorem confirmationsOf_concat (info : AggregatorInfos) :
    confirmationsOf cls ctokens answer (done ++ [info]) = confirmationsOf cls ctokens answer done ++
      [(info.token, newPriceOf cls ctokens ⟨info.token, answer, info.priceDecimals⟩)] :=
  List.map_append

/-- With an answer, a token that has a price object is confirmed. -/
theorem Confirmed.concat (h : Confirmed cls ctokens answer done d)
    (hanswer : log.answer? lib = some answer) {info : AggregatorInfos}
    (hprice : hasPrice ctokens info = true) :
    ∃ d', (confirmToken lib cls log info).run d = (.ok (), d') ∧
      Confirmed cls ctokens answer (done ++ [info]) d' := by
  obtain ⟨price, hprice⟩ := Option.isSome_iff_exists.mp hprice
  obtain ⟨infos, hinfos, hsome⟩ := Option.bind_eq_some_iff.mp hprice
  have hd := h info.token
  rw [hinfos, Option.map_some] at hd
  have hscale : cls.confirmScale (answer, info.priceDecimals.toNat, infos.configs)
      = .ok (newPriceOf cls ctokens ⟨info.token, answer, info.priceDecimals⟩) := by
    rw [SignalsClass.confirmScale, cls.getOraclePrice_eq, newPriceOf, hinfos]
  have hrun := run_confirm_of_answer hanswer hscale (price.confirmedAt
    (Dict.lastFor info.token (confirmationsOf cls ctokens answer done)))
  rw [CtokenPrice.confirmedAt_confirmedAt] at hrun
  refine ⟨d.modify info.token (CtokenInfosFull.onPrice fun _ ↦ price.confirmedAt
    (some (newPriceOf cls ctokens ⟨info.token, answer, info.priceDecimals⟩))), ?_, fun token ↦ ?_⟩
  · rw [run_confirmToken_of_some hd (by rw [CtokenInfosFull.onPrice, hsome]; rfl)]
    simp only [CtokenInfosFull.onPrice, hrun]
  rw [Dict.get?_modify, confirmationsOf_concat, lastFor_concat]
  by_cases htoken : token = info.token
  · rw [if_pos htoken, if_pos htoken, htoken, hd, hinfos, Option.map_some, Option.map_some,
      CtokenInfosFull.onPrice_onPrice, CtokenInfosFull.onPrice, CtokenInfosFull.onPrice, hsome]
    rfl
  · rw [if_neg htoken, if_neg htoken, h token]

/-- **The loop over the tokens.** It confirms the tokens in front of the first one without a price
object. -/
theorem Confirmed.run_forEach (hanswer : log.answer? lib = some answer)
    (aggrInfos : List AggregatorInfos) : ∀ {done : List AggregatorInfos} {d : Markets},
    Confirmed cls ctokens answer done d →
    Confirmed cls ctokens answer (done ++ aggrInfos.takeWhile (hasPrice ctokens))
      ((Proc.forEach aggrInfos (confirmToken lib cls log)).run d).2 := by
  induction aggrInfos with
  | nil =>
    intro done d h
    rw [List.takeWhile_nil, List.append_nil]
    exact h
  | cons info aggrInfos ih =>
    intro done d h
    rw [Proc.forEach_cons]
    by_cases hprice : hasPrice ctokens info = true
    · obtain ⟨d', hrun, h'⟩ := h.concat hanswer hprice
      rw [Proc.run_bind_of_ok hrun, List.takeWhile_cons_of_pos hprice, List.append_cons]
      exact ih h'
    · have hnone : priceObject d info.token = none := by
        rw [h.price_eq, Option.map_eq_none_iff, ← Option.not_isSome_iff_eq_none]
        exact hprice
      obtain ⟨e, he⟩ := @run_confirmToken_of_none lib cls log d info hnone
      rw [Proc.run_bind_of_error he, List.takeWhile_cons_of_neg hprice, List.append_nil]
      exact h

/-- The callback for a single log. -/
theorem run_signalsSubscribeCallback {sig : Signals} {response : LogReceiptLight}
    (hlogs : converter lib response = .ok [log]) :
    ((signalsSubscribeCallback lib cls sig response).run ctokens).2
      = match sig.signalTokenMap.get? log.address.toLower with
        | none => ctokens
        | some aggrInfos =>
          ((Proc.forEach aggrInfos (confirmToken lib cls log)).run ctokens).2 := by
  have hlast : ∀ x : Proc Markets Error Unit,
      ((x >>= fun _ ↦ (pure () : Proc Markets Error Unit)).run ctokens).2 = (x.run ctokens).2 := by
    intro x
    rcases hx : x.run ctokens with ⟨e | ⟨⟩, d⟩
    · rw [Proc.run_bind_of_error hx]
    · rw [Proc.run_bind_of_ok hx, Proc.run_pure]
  rw [signalsSubscribeCallback, hlogs, Proc.run_bind, Proc.run_ofExcept]
  simp only [Proc.forEach_cons, Proc.forEach_nil]
  rw [hlast, Proc.run_bind, Proc.run_ofExcept, Dict.item]
  rcases sig.signalTokenMap.get? log.address.toLower with _ | aggrInfos
  · rfl
  · rfl

/-- **What a log leaves of the prices.** They are all the same iff it has no tokens, no answer, or
one that is confirmed already. -/
theorem samePrices_signalsSubscribeCallback_iff {sig : Signals} {response : LogReceiptLight}
    (hlogs : converter lib response = .ok [log]) :
    SamePrices ctokens ((signalsSubscribeCallback lib cls sig response).run ctokens).2 ↔
      ∀ aggrInfos answer, sig.signalTokenMap.get? log.address.toLower = some aggrInfos →
        log.answer? lib = some answer → AlreadyConfirmed cls ctokens answer aggrInfos := by
  have hrefl : ∀ d : Markets, SamePrices d d := fun _ _ ↦ rfl
  rw [run_signalsSubscribeCallback hlogs]
  rcases sig.signalTokenMap.get? log.address.toLower with _ | aggrInfos
  · exact iff_of_true (hrefl ctokens) fun _ _ hinfos ↦ by cases hinfos
  rcases hanswer : log.answer? lib with _ | answer
  · have htrans : ∀ d d' d'' : Markets, SamePrices d d' → SamePrices d' d'' → SamePrices d d'' :=
      fun _ _ _ h h' token ↦ (h' token).trans (h token)
    refine iff_of_true ?_ fun _ _ _ h ↦ by cases h
    exact Proc.keeps_forEach hrefl htrans aggrInfos
      (fun info _ ↦ keeps_confirmToken hanswer info) ctokens
  · have hconfirmed : Confirmed cls ctokens answer (aggrInfos.takeWhile (hasPrice ctokens))
        ((Proc.forEach aggrInfos (confirmToken lib cls log)).run ctokens).2 :=
      Confirmed.nil.run_forEach hanswer aggrInfos
    rw [hconfirmed.samePrices_iff]
    refine ⟨fun h infos a hinfos ha ↦ ?_, fun h ↦ h aggrInfos answer rfl rfl⟩
    obtain rfl := Option.some.inj hinfos
    obtain rfl := Option.some.inj ha
    exact h

end Tokens

end CompoundLiquidation
