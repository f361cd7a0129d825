import CompoundLiquidation.Callbacks.Confirmation
import CompoundLiquidation.Callbacks.Handover
import CompoundLiquidation.Callbacks.Holdings

/-!
# Reverted logs

The full node pushes a log again with `removed` set when its block is reverted. The handlers test
this flag of a log record. But a message goes through two conversions before, and neither
`converter_full` nor `converter` takes the flag along: the record that reaches the handlers is one
without the key, and it is applied like any other. So a reverted log changes nothing only where a
log with its content would change nothing.
-/

namespace CompoundLiquidation

open Python

/-! ## Messages of the full node -/

/-- The log in a message of the full node. An entry is `none` where the key is missing. -/
structure LogReceiptFull where
  address : Option String
  blockHash : Option String
  blockNumber : Option String
  data : Option String
  transactionIndex : Option String
  topics : Option (List String)
  transactionHash : Option String
  removed : Bool
deriving DecidableEq

/-- A message: `message['params']['result']`, where both keys are there. -/
structure FullMessage where
  result : Option LogReceiptFull

/-- `converter_full`. -/
def converterFull (dct : LogReceiptFull) : Except Error LogReceiptLight := do
  let blockHash ← okOr dct.blockHash (.keyError "blockHash")
  let blockNumberText ← okOr dct.blockNumber (.keyError "blockNumber")
  let blockNumber ← okOr (int16 blockNumberText) .valueError
  let address ← okOr dct.address (.keyError "address")
  let topics ← okOr dct.topics (.keyError "topics")
  let txIndexText ← okOr dct.transactionIndex (.keyError "transactionIndex")
  let txIndex ← okOr (int16 txIndexText) .valueError
  let data ← okOr dct.data (.keyError "data")
  let transactionHash ← okOr dct.transactionHash (.keyError "transactionHash")
  return {
    blockHash := blockHash
    blockNumber := blockNumber
    events := some [{
      address := address
      topics := topics
      txIndex := txIndex
      data := data
      transactionHash := transactionHash }] }

section Program

variable {S : Type} (K : StatesClass S) (lib : EthLibs)

/-- `users_subscribe_callback_full`. -/
def usersSubscribeCallbackFull (node : UsersNode) (clock : UsersClock) (message : FullMessage) :
    Proc (Globals S) Error Unit :=
  match message.result with
  | none => pure ()
  | some result => do
    let response ← Proc.ofExcept (converterFull result)
    usersSubscribeCallback K lib node clock response

/-- `signals_subscribe_callback_full`. -/
def signalsSubscribeCallbackFull (cls : SignalsClass) (sig : Signals) (message : FullMessage) :
    Proc Markets Error Unit :=
  match message.result with
  | none => pure ()
  | some result => do
    let response ← Proc.ofExcept (converterFull result)
    signalsSubscribeCallback lib cls sig response

end Program

/-- The flag is lost in the first conversion. -/
theorem converterFull_removed (dct : LogReceiptFull) (removed : Bool) :
    converterFull { dct with removed := removed } = converterFull dct := rfl

/-- A converted message has a single event. -/
theorem events_of_converterFull {dct : LogReceiptFull} {response : LogReceiptLight}
    (h : converterFull dct = .ok response) : ∃ event, response.events = some [event] := by
  rw [converterFull] at h
  obtain ⟨_, -, h⟩ := exists_of_bind_ok h
  obtain ⟨_, -, h⟩ := exists_of_bind_ok h
  obtain ⟨_, -, h⟩ := exists_of_bind_ok h
  obtain ⟨_, -, h⟩ := exists_of_bind_ok h
  obtain ⟨_, -, h⟩ := exists_of_bind_ok h
  obtain ⟨_, -, h⟩ := exists_of_bind_ok h
  obtain ⟨_, -, h⟩ := exists_of_bind_ok h
  obtain ⟨_, -, h⟩ := exists_of_bind_ok h
  obtain ⟨_, -, h⟩ := exists_of_bind_ok h
  obtain rfl := Except.ok.inj h
  exact ⟨_, rfl⟩

/-- Such a message is converted to a single log, or not at all. -/
theorem converter_of_events {lib : EthLibs} {response : LogReceiptLight} {event : LogEventLight}
    (h : response.events = some [event]) :
    (∃ e, converter lib response = .error e) ∨ ∃ log, converter lib response = .ok [log] := by
  rw [converter, h]
  simp only [List.mapM_cons, List.mapM_nil]
  rcases converterEvent lib response event with e | log
  · exact .inl ⟨e, rfl⟩
  · exact .inr ⟨log, rfl⟩

/-! ## The users -/

section Users

variable {lib : EthLibs} {node : UsersNode} {clock : UsersClock}

/-- Behind the logs the callback keeps all amounts. -/
theorem sameHoldings_followUp (usersLst : List String) (g : Globals States) :
    g.states.SameHoldings ((followUp plainStates lib node clock usersLst).run g).2.states := by
  have htrans : ∀ s t u : States, s.SameHoldings t → t.SameHoldings u → s.SameHoldings u :=
    fun _ _ _ h h' ↦ h.trans h'
  exact keeps_followUp (K := plainStates) States.SameHoldings.refl htrans
    (fun usr assets s ↦ s.sameHoldings_refreshFlags usr assets)
    (fun usr hf s ↦ s.sameHoldings_setHealthFactor usr hf)
    (fun usr vaiRepay s ↦ s.sameHoldings_setVaiRepay usr vaiRepay)
    (fun _ ↦ ⟨fun _ _ ↦ rfl, fun _ ↦ rfl⟩) lib node clock usersLst g

/-- The callback for a single log leaves the amounts that the log leaves. -/
theorem sameHoldings_usersSubscribeCallback_iff {response : LogReceiptLight} {log : LogReceipt}
    (hlogs : converter lib response = .ok [log]) (g : Globals States) :
    g.states.SameHoldings
        ((usersSubscribeCallback plainStates lib node clock response).run g).2.states
      ↔ (g.states.lastUpdate ≤ response.blockNumber → log.Idle lib g.states) := by
  by_cases haccepted : g.states.lastUpdate ≤ response.blockNumber
  · have hstep : (g.states.step lib log).SameHoldings
        ((usersSubscribeCallback plainStates lib node clock response).run g).2.states := by
      rw [run_usersSubscribeCallback (K := plainStates) hlogs haccepted, run_updateAll_cons]
      rcases ((States.update lib log).run g.states).1 with e | types
      · exact .refl _
      · have hset : (g.states.step lib log).SameHoldings
            { g.states.step lib log with
              lastUpdate := response.blockNumber
              blockHash := response.blockHash } := ⟨fun _ _ ↦ rfl, fun _ ↦ rfl⟩
        exact hset.trans (sameHoldings_followUp (Dict.update ∅ types).keys
          { g with states := { g.states.step lib log with
            lastUpdate := response.blockNumber
            blockHash := response.blockHash } })
    rw [imp_iff_right haccepted, ← sameHoldings_step_iff]
    exact ⟨fun h ↦ h.trans hstep.symm, fun h ↦ h.trans hstep⟩
  · have hold : response.blockNumber < (plainStates.states g.states).lastUpdate :=
      not_le.mp haccepted
    refine iff_of_true ?_ fun h ↦ absurd h haccepted
    rw [usersSubscribeCallback, hlogs, Proc.run_bind, Proc.run_ofExcept]
    simp only [Proc.run_bind, Proc.run_read, if_pos hold, Proc.run_pure]
    exact .refl g.states

end Users

/-! ## Both feeds -/

/-- The message changes no balance, debt, token risk, token balance or price. -/
structure Ignored (lib : EthLibs) (node : UsersNode) (clock : UsersClock) (cls : SignalsClass)
    (sig : Signals) (message : FullMessage) (g : Globals States) (ctokens : Markets) : Prop where
  users : g.states.SameHoldings
    ((usersSubscribeCallbackFull plainStates lib node clock message).run g).2.states
  prices : SamePrices ctokens ((signalsSubscribeCallbackFull lib cls sig message).run ctokens).2

/-- The log would change nothing as one that is not reverted. -/
structure ChangesNothing (lib : EthLibs) (cls : SignalsClass) (sig : Signals) (blockNumber : ℤ)
    (log : LogReceipt) (g : Globals States) (ctokens : Markets) : Prop where
  users : g.states.lastUpdate ≤ blockNumber → log.Idle lib g.states
  prices : ∀ aggrInfos answer, sig.signalTokenMap.get? log.address.toLower = some aggrInfos →
    log.answer? lib = some answer → AlreadyConfirmed cls ctokens answer aggrInfos

section Feeds

variable {lib : EthLibs} {node : UsersNode} {clock : UsersClock} {cls : SignalsClass}
  {sig : Signals} {result : LogReceiptFull} {g : Globals States} {ctokens : Markets}

/-- A message that cannot be converted is ignored. -/
theorem ignored_of_error (h : (∃ e, converterFull result = .error e) ∨
    ∃ response e, converterFull result = .ok response ∧ converter lib response = .error e) :
    Ignored lib node clock cls sig ⟨some result⟩ g ctokens := by
  rcases h with ⟨e, he⟩ | ⟨response, e, hresponse, he⟩
  · constructor
    · simp only [usersSubscribeCallbackFull, Proc.run_bind, Proc.run_ofExcept, he]
      exact .refl g.states
    · simp only [signalsSubscribeCallbackFull, Proc.run_bind, Proc.run_ofExcept, he]
      exact fun _ ↦ rfl
  · constructor
    · simp only [usersSubscribeCallbackFull, usersSubscribeCallback, Proc.run_bind,
        Proc.run_ofExcept, hresponse, he]
      exact .refl g.states
    · simp only [signalsSubscribeCallbackFull, signalsSubscribeCallback, Proc.run_bind,
        Proc.run_ofExcept, hresponse, he]
      exact fun _ ↦ rfl

/-- One that can is applied. -/
theorem ignored_iff_changesNothing {response : LogReceiptLight} {log : LogReceipt}
    (hresponse : converterFull result = .ok response) (hlogs : converter lib response = .ok [log]) :
    Ignored lib node clock cls sig ⟨some result⟩ g ctokens ↔
      ChangesNothing lib cls sig response.blockNumber log g ctokens := by
  have husers : (usersSubscribeCallbackFull plainStates lib node clock ⟨some result⟩).run g
      = (usersSubscribeCallback plainStates lib node clock response).run g := by
    simp only [usersSubscribeCallbackFull, Proc.run_bind, Proc.run_ofExcept, hresponse]
  have hprices : (signalsSubscribeCallbackFull lib cls sig ⟨some result⟩).run ctokens
      = (signalsSubscribeCallback lib cls sig response).run ctokens := by
    simp only [signalsSubscribeCallbackFull, Proc.run_bind, Proc.run_ofExcept, hresponse]
  constructor
  · rintro ⟨hsame, hkept⟩
    rw [husers] at hsame
    rw [hprices] at hkept
    exact ⟨(sameHoldings_usersSubscribeCallback_iff hlogs g).mp hsame,
      (samePrices_signalsSubscribeCallback_iff hlogs).mp hkept⟩
  · rintro ⟨hidle, hconfirmed⟩
    refine ⟨?_, ?_⟩
    · rw [husers]
      exact (sameHoldings_usersSubscribeCallback_iff hlogs g).mpr hidle
    · rw [hprices]
      exact (samePrices_signalsSubscribeCallback_iff hlogs).mpr hconfirmed

end Feeds

/-- **When a reverted log is ignored.** It cannot be converted, or its content would change nothing
in a log that is not reverted. -/
theorem ignored_removed_iff (lib : EthLibs) (node : UsersNode) (clock : UsersClock)
    (cls : SignalsClass) (sig : Signals) (result : LogReceiptFull) (g : Globals States)
    (ctokens : Markets) :
    Ignored lib node clock cls sig ⟨some { result with removed := true }⟩ g ctokens ↔
      ∀ response log, converterFull result = .ok response → converter lib response = .ok [log] →
        ChangesNothing lib cls sig response.blockNumber log g ctokens := by
  have hflag := converterFull_removed result true
  rcases hresponse : converterFull result with e | response
  · rw [hresponse] at hflag
    exact iff_of_true (ignored_of_error (.inl ⟨e, hflag⟩)) fun _ _ h ↦ by cases h
  rw [hresponse] at hflag
  obtain ⟨event, hevents⟩ := events_of_converterFull hresponse
  rcases converter_of_events hevents with ⟨e, he⟩ | ⟨log, hlogs⟩
  · refine iff_of_true (ignored_of_error (.inr ⟨response, e, hflag, he⟩)) fun _ _ h hlogs ↦ ?_
    rw [← Except.ok.inj h, he] at hlogs
    cases hlogs
  · rw [ignored_iff_changesNothing hflag hlogs]
    refine ⟨fun hnothing response' log' h h' ↦ ?_, fun h ↦ h response log rfl hlogs⟩
    obtain rfl := Except.ok.inj h
    obtain rfl := List.cons.inj (Except.ok.inj (hlogs.symm.trans h')) |>.1
    exact hnothing

/-! ## A mint that is reverted -/

/-- The mint of nine units as the full node pushes it when its block is reverted. -/
def removedMint : LogReceiptFull where
  address := some "0xa07c5b74c9b40447a954e1466938b865b6bbea36"
  blockHash := some (hexBytesHex (natToBytes 32 101))
  blockNumber := some "0x65"
  data := some mintLog.data
  transactionIndex := some "0x0"
  topics := some (mintLog.topics.map hexBytesHex)
  transactionHash := some (hexBytesHex (natToBytes 32 1))
  removed := true

/-- The record that reaches the handlers. -/
def convertedMint : LogReceipt :=
  { mintLog with blockHash := natToBytes 32 101, transactionHash := natToBytes 32 1 }

/-- A log is read without a look at the hashes. -/
theorem logChange_of_hashes (lib : EthLibs) (log : LogReceipt) (blockHash transactionHash : Bytes) :
    States.logChange lib
        { log with blockHash := blockHash, transactionHash := transactionHash }
      = States.logChange lib log := rfl

/-- The message between the two conversions. -/
def lightMint : LogReceiptLight where
  blockHash := hexBytesHex (natToBytes 32 101)
  blockNumber := 101
  events := some [
    { address := "0xa07c5b74c9b40447a954e1466938b865b6bbea36"
      topics := mintLog.topics.map hexBytesHex
      txIndex := 0
      data := mintLog.data
      transactionHash := hexBytesHex (natToBytes 32 1) }]

theorem converterFull_removedMint : converterFull removedMint = .ok lightMint := by
  have hblock : int16 "0x65" = some 101 := by decide +kernel
  have hindex : int16 "0x0" = some 0 := by decide +kernel
  rw [converterFull, removedMint]
  simp only [okOr_some, ok_bind, hblock, hindex]
  rfl

theorem converter_lightMint : converter mintLibs lightMint = .ok [convertedMint] := by
  have haddress : mintLibs.toChecksumAddress "0xa07c5b74c9b40447a954e1466938b865b6bbea36"
      = .ok "0xA07c5b74C9B40447a954e1466938b865b6BBea36" := rfl
  rw [converter, lightMint]
  simp only [List.mapM_cons, List.mapM_nil, converterEvent, haddress, mapM_bytesFromPrefixed,
    bytesFromPrefixed_hexBytesHex]
  rfl

/-- The mint is taken from the market and given to the user a second time. -/
theorem not_ignored_removedMint :
    ¬ Ignored mintLibs mintDelivery.node mintDelivery.clock .compVenues (.init ∅)
      ⟨some removedMint⟩ newMarketGlobals ∅ := by
  intro hignored
  have hnothing := (ignored_iff_changesNothing converterFull_removedMint converter_lightMint).mp
    hignored
  have hidle := hnothing.users (by decide) _ _
    ((logChange_of_hashes mintLibs mintLog _ _).trans logChange_mintLibs)
  rcases hidle with hamount | hself | ⟨-, hunknown⟩
  · exact absurd hamount (by decide)
  · exact absurd hself (by decide)
  · exact absurd hunknown (by decide +kernel)

end CompoundLiquidation
