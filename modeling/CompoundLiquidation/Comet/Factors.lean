import CompoundLiquidation.Python.Run
import CompoundLiquidation.Users.HealthFactor

/-!
# Which collateral factor a health factor uses

Collateral factors live in a dictionary keyed by address text, and the two sides spell the same
address differently: the initial values and the reader use the checksummed spelling, the event
handler the lower-case spelling `eth_abi` returns. An update of a checksummed market therefore
creates a second key that nothing reads.

A run is followed together with the factor changes that were applied in it, so that the factor in
use can be compared with the one the chain has announced last.
-/

namespace CompoundLiquidation

open Python

/-- The cToken and the new factor of a factor change. -/
def factorChange : Option CometChange → Option (String × ℤ)
  | some (.collateralFactor reserve new) => some (reserve, new)
  | _ => none

/-- The factor changes a callback applies: none if the message is malformed or out of date, and
otherwise those in front of the first log that does not decode. -/
def factorChanges (lib : EthLibs) (comet : CometConfigs) (response : LogReceiptLight) :
    List (String × ℤ) :=
  match converter lib response with
  | .error _ => []
  | .ok logs =>
    if response.blockNumber < comet.lastUpdate then []
    else (Proc.parsedPrefix (cometChange lib) logs).filterMap fun p ↦ factorChange p.2

/-- A run of the callback: the configuration and the factor changes applied to it, oldest first. -/
structure CometRun where
  comet : CometConfigs
  applied : List (String × ℤ)

/-- One message. -/
def cometStep (lib : EthLibs) (r : CometRun) (response : LogReceiptLight) : CometRun where
  comet := ((cometSubscribeCallback lib response).run r.comet).2
  applied := r.applied ++ factorChanges lib r.comet response

theorem comet_cometStep (lib : EthLibs) (r : CometRun) (response : LogReceiptLight) :
    (cometStep lib r response).comet = ((cometSubscribeCallback lib response).run r.comet).2 := rfl

theorem applied_cometStep (lib : EthLibs) (r : CometRun) (response : LogReceiptLight) :
    (cometStep lib r response).applied = r.applied ++ factorChanges lib r.comet response := rfl

/-- The last factor announced for a market, whatever the spelling of its address. -/
def lastFactor (applied : List (String × ℤ)) (r : String) : Option ℤ :=
  (applied.filterMap fun p ↦ if p.1.toLower = r.toLower then some p.2 else none).getLast?

/-- `eth_abi` returns addresses in lower case. -/
def LowerCaseAddresses (lib : EthLibs) : Prop :=
  ∀ (ts : List AbiType) (data : Bytes) (args : AbiTuple (.address :: ts)),
    lib.decode (.address :: ts) data = .ok args → String.toLower args.1 = args.1

section Callback

variable {lib : EthLibs}

private theorem foldl_apply_factors (changes : List (LogReceipt × Option CometChange)) :
    ∀ comet : CometConfigs,
      (changes.foldl (fun c p ↦ c.apply p.1.blockNumber p.2) comet).ctokensCollateralFactor
        = (changes.filterMap fun p ↦ factorChange p.2).foldl (fun d p ↦ d.set p.1 p.2)
          comet.ctokensCollateralFactor := by
  induction changes with
  | nil => exact fun _ ↦ rfl
  | cons p changes ih =>
    intro comet
    rw [List.foldl_cons, ih]
    rcases hp : p.2 with _ | ⟨new⟩ | ⟨reserve, new⟩
    all_goals simp [CometConfigs.apply, factorChange, hp]

/-- The callback assigns the factor changes it applies, in order. -/
theorem factors_cometSubscribeCallback (lib : EthLibs) (comet : CometConfigs)
    (response : LogReceiptLight) :
    ((cometSubscribeCallback lib response).run comet).2.ctokensCollateralFactor
      = (factorChanges lib comet response).foldl (fun d p ↦ d.set p.1 p.2)
        comet.ctokensCollateralFactor := by
  rw [cometSubscribeCallback, factorChanges, Proc.run_bind, Proc.run_ofExcept]
  rcases converter lib response with e | logs
  · rfl
  simp only [Proc.run_bind, Proc.run_read]
  by_cases hold : response.blockNumber < comet.lastUpdate
  · simp only [if_pos hold]
    rfl
  have hloop := Proc.state_forEach_parsed (cometChange lib)
    (fun log change ↦ CometConfigs.apply log.blockNumber change) logs comet
  simp only [if_neg hold]
  rw [Proc.proj_bind CometConfigs.ctokensCollateralFactor fun _ _ ↦ rfl, ← foldl_apply_factors]
  exact congrArg CometConfigs.ctokensCollateralFactor hloop

/-- A factor change read off a log carries the address as `eth_abi` spells it. -/
private theorem toLower_of_cometChange (hlower : LowerCaseAddresses lib) {log : LogReceipt}
    {change : Option CometChange} {p : String × ℤ} (hread : cometChange lib log = .ok change)
    (hp : factorChange change = some p) : p.1.toLower = p.1 := by
  rw [cometChange] at hread
  by_cases hrem : log.removed
  · simp only [if_pos hrem, Except.ok.injEq] at hread
    simp [← hread, factorChange] at hp
  rw [if_neg hrem] at hread
  rcases htopic : log.topic0 with e | topic
  · simp [htopic] at hread
  rw [htopic, ok_bind] at hread
  rcases hevent : cometEventAbi topic with _ | ⟨_ | _⟩ <;> rw [hevent] at hread
  · simp only [Except.ok.injEq] at hread
    simp [← hread, factorChange] at hp
  · rcases hdata : log.decodeData lib [.uint256, .uint256] with e | args
    · simp [hdata, Except.mapError] at hread
    · simp only [hdata, Except.mapError, ok_bind, Except.ok.injEq] at hread
      simp [← hread, factorChange] at hp
  · rcases hdata : log.decodeData lib [.address, .uint256, .uint256] with e | args
    · simp [hdata, Except.mapError] at hread
    · simp only [hdata, Except.mapError, ok_bind, Except.ok.injEq] at hread
      simp only [← hread, factorChange, Option.some.injEq] at hp
      rw [← hp]
      rw [LogReceipt.decodeData] at hdata
      rcases hbytes : bytesFromPrefixed log.data with e | data
      · simp [hbytes] at hdata
      · rw [hbytes, ok_bind] at hdata
        exact hlower _ data args hdata

/-- Applied factor changes carry addresses as `eth_abi` spells them. -/
private theorem toLower_of_mem_factorChanges (hlower : LowerCaseAddresses lib)
    {comet : CometConfigs} {response : LogReceiptLight} {p : String × ℤ}
    (hp : p ∈ factorChanges lib comet response) : p.1.toLower = p.1 := by
  rw [factorChanges] at hp
  rcases hconv : converter lib response with e | logs
  · simp [hconv] at hp
  rw [hconv] at hp
  by_cases hold : response.blockNumber < comet.lastUpdate
  · simp [hold] at hp
  simp only [if_neg hold, List.mem_filterMap] at hp
  obtain ⟨⟨log, change⟩, hmem, hchange⟩ := hp
  have hread := Proc.read_of_mem_parsedPrefix hmem
  exact toLower_of_cometChange hlower hread hchange

/-- A run keeps its factor changes in lower case and its dictionary is the initial one with these
changes assigned. -/
private theorem factors_of_run (hlower : LowerCaseAddresses lib) (comet : CometConfigs)
    (responses : List LogReceiptLight) :
    (∀ p ∈ (runFrom (cometStep lib) ⟨comet, []⟩ responses).applied, p.1.toLower = p.1) ∧
      (runFrom (cometStep lib) ⟨comet, []⟩ responses).comet.ctokensCollateralFactor
        = (runFrom (cometStep lib) ⟨comet, []⟩ responses).applied.foldl
          (fun d p ↦ d.set p.1 p.2) comet.ctokensCollateralFactor := by
  induction responses using List.reverseRecOn with
  | nil => exact ⟨by simp, rfl⟩
  | append_singleton responses response ih =>
    obtain ⟨hcase, hdict⟩ := ih
    rw [runFrom_concat, applied_cometStep, comet_cometStep]
    refine ⟨fun p hp ↦ ?_, ?_⟩
    · rcases List.mem_append.mp hp with hp | hp
      · exact hcase p hp
      · exact toLower_of_mem_factorChanges hlower hp
    · rw [factors_cometSubscribeCallback, hdict, List.foldl_append]

end Callback

section Spelling

variable {applied : List (String × ℤ)} {r : String}

/-- A key in lower case is assigned by exactly the changes of its market. -/
private theorem lastFor_of_toLower_eq (hcase : ∀ p ∈ applied, p.1.toLower = p.1)
    (hr : r.toLower = r) : Dict.lastFor r applied = lastFactor applied r := by
  have hsame : ∀ p ∈ applied, (if p.1 = r then some p.2 else none)
      = if p.1.toLower = r.toLower then some p.2 else none := by
    intro p hp
    rw [hcase p hp, hr]
  rw [Dict.lastFor, lastFactor, List.filterMap_congr hsame]

/-- A key that is not in lower case is assigned by no change. -/
private theorem lastFor_of_toLower_ne (hcase : ∀ p ∈ applied, p.1.toLower = p.1)
    (hr : r.toLower ≠ r) : Dict.lastFor r applied = none := by
  have hnone : ∀ p ∈ applied, (if p.1 = r then some p.2 else none) = none := by
    intro p hp
    exact if_neg fun heq : p.1 = r ↦ hr (heq ▸ hcase p hp)
  rw [Dict.lastFor, List.filterMap_eq_nil_iff.mpr hnone]
  rfl

end Spelling

private theorem get?_initCometConfigs (liquidationIncentive clossFactor : ℤ) (markets : String → ℤ)
    {reserves : List String} (blockNum : ℤ) {r : String} (hr : r ∈ reserves) :
    (initCometConfigs liquidationIncentive clossFactor markets reserves
      blockNum).ctokensCollateralFactor.get? r = some (markets r) :=
  Dict.get?_foldl_of_mem markets hr ∅

/-- **The factor in use.** After a run the factor that a health factor uses for a reserve is the
last one announced for its market, or the initial one, if and only if the reserve's key is in lower
case, or nothing was announced, or the last announcement repeats the initial value. -/
theorem collateralFactor_iff (lib : EthLibs) (hlower : LowerCaseAddresses lib)
    (liquidationIncentive clossFactor : ℤ) (markets : String → ℤ) (reserves : List String)
    (blockNum : ℤ) (responses : List LogReceiptLight) (r : String) (hr : r ∈ reserves) :
    let run := runFrom (cometStep lib)
      ⟨initCometConfigs liquidationIncentive clossFactor markets reserves blockNum, []⟩ responses
    collateralFactor run.comet r = .ok ((lastFactor run.applied r).getD (markets r)) ↔
      r.toLower = r ∨ lastFactor run.applied r = none ∨
        lastFactor run.applied r = some (markets r) := by
  intro run
  obtain ⟨hcase, hdict⟩ := factors_of_run hlower
    (initCometConfigs liquidationIncentive clossFactor markets reserves blockNum) responses
  have hread : collateralFactor run.comet r
      = .ok ((Dict.lastFor r run.applied).getD (markets r)) := by
    rw [collateralFactor, Dict.item, hdict, Dict.get?_foldl_assign,
      get?_initCometConfigs _ _ _ _ hr]
    rcases Dict.lastFor r run.applied with _ | new
    · rfl
    · rfl
  rw [hread, Except.ok.injEq]
  by_cases hspell : r.toLower = r
  · rw [lastFor_of_toLower_eq hcase hspell]
    exact ⟨fun _ ↦ Or.inl hspell, fun _ ↦ rfl⟩
  · rw [lastFor_of_toLower_ne hcase hspell, Option.getD_none]
    rcases lastFactor run.applied r with _ | new
    · simp
    · simp [hspell, eq_comm]

/-! ### A checksummed market -/

/-- The address of `vBNB` as `eth_abi` spells it. -/
def vBNBLower : String := hexBytesHex (natToBytes 20 0xA07c5b74C9B40447a954e1466938b865b6BBea36)

/-- The comptroller announces the factor `6 · 10^17` for that market. -/
def newFactorResponse : LogReceiptLight where
  blockHash := hexBytesHex []
  blockNumber := 101
  events := some [{
    address := "0xfd36e2c2a6789db23113685031d7f16329158384"
    topics := [hexBytesHex (natToBytes 32
      0x70483e6592cd5182d45ac970e05bc62cdcc90e9d8ef2c2dbe686cf383bcd7fc5)]
    txIndex := 0
    data := hexBytesHex (natToBytes 32 0xA07c5b74C9B40447a954e1466938b865b6BBea36 ++
      natToBytes 32 (8 * 10 ^ 17) ++ natToBytes 32 (6 * 10 ^ 17))
    transactionHash := hexBytesHex [] }]

/-- Its log record. -/
private def newFactorLog : LogReceipt where
  address := "0xfD36E2c2a6789Db23113685031d7F16329158384"
  topics := [natToBytes 32 0x70483e6592cd5182d45ac970e05bc62cdcc90e9d8ef2c2dbe686cf383bcd7fc5]
  data := hexBytesHex (natToBytes 32 0xA07c5b74C9B40447a954e1466938b865b6BBea36 ++
    natToBytes 32 (8 * 10 ^ 17) ++ natToBytes 32 (6 * 10 ^ 17))
  blockNumber := 101
  blockHash := []
  transactionIndex := 0
  transactionHash := []

/-- The libraries with the spelling of the comptroller's address. -/
private def bscLibs : EthLibs := staticLibs
  [("0xfd36e2c2a6789db23113685031d7f16329158384", "0xfD36E2c2a6789Db23113685031d7F16329158384")]

/-- A start with one market at `8 · 10^17`. -/
private def vBNBStart : CometConfigs :=
  initCometConfigs (11 * 10 ^ 17) (5 * 10 ^ 17) (fun _ ↦ 8 * 10 ^ 17) [vBNB] 100

private theorem lowerCaseAddresses_staticLibs (known : List (String × String)) :
    LowerCaseAddresses (staticLibs known) := by
  intro ts data args hargs
  have hdecode : decodeStatic (.address :: ts) data = .ok args := hargs
  rw [decodeStatic] at hdecode
  by_cases hshort : data.length < 32
  · simp [hshort] at hdecode
  rw [if_neg hshort, decodeWord] at hdecode
  by_cases hpad : natOfBytes ((data.take 32).take 12) = 0
  · rw [if_pos hpad, ok_bind] at hdecode
    rcases hrest : decodeStatic ts (data.drop 32) with e | vs
    · simp [hrest] at hdecode
    · rw [hrest, ok_bind] at hdecode
      have hargs : (hexBytesHex ((data.take 32).drop 12), vs) = args := Except.ok.inj hdecode
      rw [← hargs]
      exact toLower_hexBytesHex _
  · simp [hpad] at hdecode

theorem collateralFactor_iff_vBNB :
    let run := runFrom (cometStep bscLibs) ⟨initCometConfigs (11 * 10 ^ 17) (5 * 10 ^ 17)
      (fun _ ↦ 8 * 10 ^ 17) [vBNB] 100, []⟩ [newFactorResponse]
    collateralFactor run.comet vBNB = .ok ((lastFactor run.applied vBNB).getD (8 * 10 ^ 17)) ↔
      vBNB.toLower = vBNB ∨ lastFactor run.applied vBNB = none ∨
        lastFactor run.applied vBNB = some (8 * 10 ^ 17) :=
  collateralFactor_iff bscLibs (lowerCaseAddresses_staticLibs _) (11 * 10 ^ 17) (5 * 10 ^ 17)
    (fun _ ↦ 8 * 10 ^ 17) [vBNB] 100 [newFactorResponse] vBNB (List.mem_singleton_self vBNB)

private theorem factorChanges_newFactorResponse :
    factorChanges bscLibs vBNBStart newFactorResponse = [(vBNBLower, 6 * 10 ^ 17)] := by
  have haddr : bscLibs.toChecksumAddress "0xfd36e2c2a6789db23113685031d7f16329158384"
      = .ok "0xfD36E2c2a6789Db23113685031d7F16329158384" := by decide +kernel
  have hevent : cometEventAbi (hexBytesHex (natToBytes 32
      0x70483e6592cd5182d45ac970e05bc62cdcc90e9d8ef2c2dbe686cf383bcd7fc5))
      = some .newCollateralFactor := by decide +kernel
  have hdata : decodeStatic [.address, .uint256, .uint256]
      (natToBytes 32 0xA07c5b74C9B40447a954e1466938b865b6BBea36 ++
        natToBytes 32 (8 * 10 ^ 17) ++ natToBytes 32 (6 * 10 ^ 17))
      = .ok (vBNBLower, 8 * 10 ^ 17, 6 * 10 ^ 17, ()) := by decide +kernel
  have hconv : converter bscLibs newFactorResponse = .ok [newFactorLog] := by
    simp only [converter, newFactorResponse, List.mapM_cons, List.mapM_nil, converterEvent, haddr,
      bytesFromPrefixed_hexBytesHex, ok_bind]
    rfl
  have hchange : cometChange bscLibs newFactorLog
      = .ok (some (.collateralFactor vBNBLower (6 * 10 ^ 17))) := by
    have hdecode : newFactorLog.decodeData bscLibs [.address, .uint256, .uint256]
        = .ok (vBNBLower, 8 * 10 ^ 17, 6 * 10 ^ 17, ()) := by
      rw [LogReceipt.decodeData, newFactorLog, bytesFromPrefixed_hexBytesHex, ok_bind]
      exact hdata
    have htopic : newFactorLog.topic0 = .ok (hexBytesHex (natToBytes 32
      0x70483e6592cd5182d45ac970e05bc62cdcc90e9d8ef2c2dbe686cf383bcd7fc5)) := rfl
    rw [cometChange, if_neg (by decide), htopic, ok_bind, hevent]
    simp only [hdecode]
    rfl
  have hfresh : ¬ newFactorResponse.blockNumber < vBNBStart.lastUpdate := by
    rw [newFactorResponse, vBNBStart, initCometConfigs]
    decide
  rw [factorChanges, hconv]
  simp only [if_neg hfresh]
  rw [Proc.parsedPrefix_cons_of_ok hchange]
  simp only [Proc.parsedPrefix, List.filterMap_cons, List.filterMap_nil, factorChange]

/-- The announced factor is applied and health factors keep using the initial one. -/
theorem collateralFactor_vBNB_stale :
    let run := runFrom (cometStep bscLibs) ⟨vBNBStart, []⟩ [newFactorResponse]
    lastFactor run.applied vBNB = some (6 * 10 ^ 17) ∧
      collateralFactor run.comet vBNB = .ok (8 * 10 ^ 17) := by
  have happlied : (runFrom (cometStep bscLibs) ⟨vBNBStart, []⟩ [newFactorResponse]).applied
      = [(vBNBLower, 6 * 10 ^ 17)] := by
    rw [runFrom_singleton, applied_cometStep, List.nil_append, factorChanges_newFactorResponse]
  have hdict : (runFrom (cometStep bscLibs) ⟨vBNBStart, []⟩
      [newFactorResponse]).comet.ctokensCollateralFactor
      = vBNBStart.ctokensCollateralFactor.set vBNBLower (6 * 10 ^ 17) := by
    rw [runFrom_singleton, comet_cometStep, factors_cometSubscribeCallback,
      factorChanges_newFactorResponse, List.foldl_cons, List.foldl_nil]
  constructor
  · have hspell : vBNB.toLower = vBNBLower := by decide +kernel
    have hself : vBNBLower.toLower = vBNBLower := toLower_hexBytesHex _
    rw [happlied, lastFactor, hspell]
    simp [hself]
  · have hne : vBNB ≠ vBNBLower := by decide +kernel
    rw [collateralFactor, Dict.item, hdict, Dict.get?_set_of_ne _ _ hne, vBNBStart,
      get?_initCometConfigs _ _ _ _ (List.mem_singleton_self vBNB), okOr_some]

end CompoundLiquidation
