import CompoundLiquidation.Python.Json
import CompoundLiquidation.Users.States

/-!
# Writing the state to files and reading it back

`cache` writes three files and `reload_states` reads them. Users are written as lists by position
and come back whole. Token balances are written under `totalReserve` and `totalBorrow` and read
under `totalReserves` and `totalBorrows`, with zero for a missing key: the two totals never come
back.
-/

namespace CompoundLiquidation

open Python

/-- The files, by path. -/
abbrev Files := Dict String Json

/-- `json_file_load`. -/
def jsonFileLoad (files : Files) (filePath : String) : Except Error Json :=
  okOr (files.get? filePath) (.fileNotFoundError filePath)

/-- `json_write_to_file`. -/
def jsonWriteToFile (data : Json) (absPath filePath : String) (files : Files) : Files :=
  files.set (absPath ++ "/" ++ filePath) data

/-! ## Writing -/

/-- A record that is neither collateral nor debt. -/
def CompReserve.isEmpty (r : CompReserve) : Bool := r.colAmount = 0 ∧ r.debtAmount = 0

/-- `States.trim`. Its last loop tests an object, which is always true, and deletes no user. -/
def States.trim (s : States) : States :=
  { s with usersStates := s.usersStates.mapWithKey fun _ states ↦
      { states with reserves := states.reserves.filter fun _ data ↦ !data.isEmpty } }

def CompReserve.toList (r : CompReserve) : Json :=
  .list [.int r.colAmount, .int r.isColLiq, .int r.debtAmount, .int r.debtInterest]

def HealthFactor.toList (hf : HealthFactor) : Json :=
  .list [.float hf.value, .int hf.debtVolume, .int hf.lastUpdate]

def UserStates.toJson (states : UserStates) : Json :=
  .obj [("reserves", states.reserves.toJson CompReserve.toList),
    ("healthFactor", states.healthFactor.toList), ("vaiRepay", .int states.vaiRepay)]

def CtokenRiskParams.toDict (risks : CtokenRiskParams) : Json :=
  .obj [("borrowIndex", .int risks.borrowIndex)]

def CtokenBalances.toDict (balances : CtokenBalances) : Json :=
  .obj [("totalReserve", .int balances.totalReserve), ("totalBorrow", .int balances.totalBorrow),
    ("totalSupply", .int balances.totalSupply)]

/-- `States.to_json`: the users, the risks and the balances. -/
def States.toJson (s : States) : Json × Json × Json :=
  (s.usersStates.toJson UserStates.toJson, s.ctokens.toJson fun infos ↦ infos.risks.toDict,
    s.ctokens.toJson fun infos ↦ infos.balances.toDict)

/-- `States.cache`, with the directory of the module as `currentPath`. -/
def States.cache (cfg : PAlias) (currentPath : String) (s : States) (files : Files) :
    States × Files :=
  let s := s.trim
  let (usersNewDict, ctokensRisksDict, ctokensBalancesDict) := s.toJson
  let files := jsonWriteToFile (.obj [("users", usersNewDict), ("lastUpdate", .int s.lastUpdate),
    ("blockHash", .str s.blockHash)]) currentPath cfg.usersFile files
  let files := jsonWriteToFile (.obj [("reserves", ctokensRisksDict),
    ("lastUpdate", .int s.lastUpdate)]) currentPath cfg.cometConfigsFile files
  let files := jsonWriteToFile (.obj [("reserves", ctokensBalancesDict),
    ("lastUpdate", .int s.lastUpdate)]) currentPath cfg.ctokenCongisFile files
  (s, files)

/-! ## Reading -/

/-- The arguments of `new_reserve` in `reserves_load`. -/
def reserveLoad (data : Json) : Except Error CompReserve := do
  let colAmount ← data.index 0 >>= Json.asInt
  let isColLiq ← data.index 1 >>= Json.asInt
  let debtAmount ← data.index 2 >>= Json.asInt
  let debtInterest ← data.index 3 >>= Json.asInt
  return ⟨colAmount, isColLiq, debtAmount, debtInterest⟩

/-- `reserves_load`. -/
def reservesLoad (reserves : Json) : Except Error (Dict String CompReserve) :=
  reserves.toDict reserveLoad

/-- `new_health_factor(*health_factor)`. -/
def healthFactorLoad (healthFactor : Json) : Except Error HealthFactor := do
  let args ← healthFactor.elements
  match args with
  | [] => return newHealthFactor
  | [value] => return { newHealthFactor with value := ← value.asNumber }
  | [value, debtVolume] =>
    return { newHealthFactor with value := ← value.asNumber, debtVolume := ← debtVolume.asInt }
  | [value, debtVolume, lastUpdate] =>
    return ⟨← value.asNumber, ← debtVolume.asInt, ← lastUpdate.asInt⟩
  | _ => throw .typeError

/-- The loop body of `users_load`. -/
def userLoad (userStates : Json) : Except Error UserStates := do
  let healthFactor ← userStates.item "healthFactor"
  let vaiRepay ← userStates.item "vaiRepay" >>= Json.asInt
  let reserves ← userStates.item "reserves" >>= reservesLoad
  return ⟨reserves, ← healthFactorLoad healthFactor, vaiRepay⟩

/-- `users_load`. -/
def usersLoad (cfg : PAlias) (path : String) (files : Files) :
    Except Error (Dict String UserStates × ℤ × String) := do
  if cfg.usersFileStatus = 1 then
    let usersRaw ← jsonFileLoad files (path ++ "/" ++ cfg.usersFile)
    let usersStates ← usersRaw.item "users"
    let lastUpdate ← usersRaw.item "lastUpdate" >>= Json.asInt
    let blockHash ← usersRaw.item "blockHash" >>= Json.asStr
    return (← usersStates.toDict userLoad, lastUpdate, blockHash)
  else return (∅, cfg.initBlockNumber, "")

/-- The loop body of `reload_ctokens_balances`. -/
def balancesLoad (balances : Json) : Except Error CtokenBalances := do
  let totalReserve ← balances.getD "totalReserves" (.int 0) >>= Json.asInt
  let totalBorrow ← balances.getD "totalBorrows" (.int 0) >>= Json.asInt
  let totalSupply ← balances.getD "totalSupply" (.int 0) >>= Json.asInt
  return ⟨totalReserve, totalBorrow, totalSupply⟩

/-- `reload_ctokens_balances`. -/
def reloadCtokensBalances (cfg : PAlias) (path : String) (files : Files) :
    Except Error (Dict String CtokenBalances × ℤ) := do
  let ctokensBalances ← jsonFileLoad files (path ++ "/" ++ cfg.ctokenCongisFile)
  let lastUpdate ← ctokensBalances.item "lastUpdate" >>= Json.asInt
  let reserves ← ctokensBalances.item "reserves"
  return (← reserves.toDict balancesLoad, lastUpdate)

/-- The loop body of `reload_ctokens_risks`. -/
def risksLoad (risks : Json) : Except Error CtokenRiskParams := do
  let borrowIndex ← risks.getD "borrowIndex" (.int 0) >>= Json.asInt
  let reserveFactor ← risks.getD "reserveFactor" (.int 0) >>= Json.asInt
  let exchangeRate ← risks.getD "exchangeRate" (.int 0) >>= Json.asInt
  let protocolSeized ← risks.getD "protocolSeize" (.int 0) >>= Json.asInt
  return ⟨borrowIndex, reserveFactor, exchangeRate, protocolSeized⟩

/-- `reload_ctokens_risks`. -/
def reloadCtokensRisks (cfg : PAlias) (path : String) (files : Files) :
    Except Error (Dict String CtokenRiskParams × ℤ) := do
  let ctokensRisks ← jsonFileLoad files (path ++ "/" ++ cfg.cometConfigsFile)
  let lastUpdate ← ctokensRisks.item "lastUpdate" >>= Json.asInt
  let reserves ← ctokensRisks.item "reserves"
  return (← reserves.toDict risksLoad, lastUpdate)

/-- The infos of each reserve, by what is known about it. -/
def ctokensInfos (risks : Dict String CtokenRiskParams) (balances : Dict String CtokenBalances)
    (reserves : List String) : Dict String CtokenInfos :=
  reserves.foldl (fun infos reserve ↦ infos.set reserve
    { risks := risks.getD reserve newCtokenRisks
      balances := balances.getD reserve newCtokenBalances }) ∅

/-- `tokens_load`. -/
def tokensLoad (cfg : PAlias) (reserves : List String) (path : String) (files : Files) :
    Except Error (Dict String CtokenInfos × ℤ) := do
  if cfg.usersFileStatus = 0 then return (ctokensInfos ∅ ∅ reserves, cfg.initBlockNumber)
  let (balances, lastUpdateB) ← reloadCtokensBalances cfg path files
  let (risks, lastUpdateR) ← reloadCtokensRisks cfg path files
  if lastUpdateB ≠ lastUpdateR then throw (.exception "")
  return (ctokensInfos risks balances reserves, lastUpdateB)

/-- `reload_states`, with the directory of the module as `path`. -/
def reloadStates (cfg : PAlias) (reserves : List String) (path : String) (files : Files) :
    Except Error States := do
  let (usersStates, lastUpdateU, blockHash) ← usersLoad cfg path files
  let (ctokensInfos, lastUpdateT) ← tokensLoad cfg reserves path files
  if lastUpdateU ≠ lastUpdateT then throw (.exception "")
  return States.new usersStates ctokensInfos lastUpdateU blockHash

/-! ## What comes back -/

private theorem reserveLoad_toList (r : CompReserve) : reserveLoad r.toList = .ok r := rfl

private theorem userLoad_toJson (states : UserStates) : userLoad states.toJson = .ok states := by
  have hreserves : reservesLoad (states.reserves.toJson CompReserve.toList) = .ok states.reserves :=
    Json.toDict_toJson_self reserveLoad_toList states.reserves
  have hhf : healthFactorLoad states.healthFactor.toList = .ok states.healthFactor := rfl
  simp [userLoad, UserStates.toJson, hreserves, hhf, pure, Except.pure]

private theorem balancesLoad_toDict (balances : CtokenBalances) :
    balancesLoad balances.toDict = .ok ⟨0, 0, balances.totalSupply⟩ := by
  simp [balancesLoad, CtokenBalances.toDict, pure, Except.pure]

private theorem risksLoad_toDict (risks : CtokenRiskParams) :
    risksLoad risks.toDict = .ok ⟨risks.borrowIndex, 0, 0, 0⟩ := by
  simp [risksLoad, CtokenRiskParams.toDict, pure, Except.pure]

/-- The three files of a deployment are different ones. -/
structure PAlias.DistinctFiles (cfg : PAlias) : Prop where
  users_risks : cfg.usersFile ≠ cfg.cometConfigsFile
  users_balances : cfg.usersFile ≠ cfg.ctokenCongisFile
  risks_balances : cfg.cometConfigsFile ≠ cfg.ctokenCongisFile

theorem pAlias_spec {net : Network} {sel : Selector} {cfg : PAlias}
    (h : pAlias net sel = some cfg) : cfg.usersFileStatus = 1 ∧ cfg.DistinctFiles := by
  cases net <;> cases sel <;> simp only [pAlias, Option.some_inj, reduceCtorEq] at h
  all_goals
    rw [← h]
    exact ⟨rfl, by decide, by decide, by decide⟩

private theorem path_ne {path a b : String} (h : a ≠ b) : path ++ "/" ++ a ≠ path ++ "/" ++ b :=
  fun heq ↦ h ((String.append_right_inj _).mp heq)

/-- What the reader makes of the files that `cache` writes. -/
def reloaded (s : States) (reserves : List String) : States :=
  States.new s.usersStates
    (ctokensInfos (s.ctokens.mapWithKey fun _ infos ↦ ⟨infos.risks.borrowIndex, 0, 0, 0⟩)
      (s.ctokens.mapWithKey fun _ infos ↦ ⟨0, 0, infos.balances.totalSupply⟩) reserves)
    s.lastUpdate s.blockHash

section Reload

variable {cfg : PAlias} (path : String) (s : States) (files : Files)

theorem users_of_cache (hfiles : cfg.DistinctFiles) :
    (s.cache cfg path files).2.get? (path ++ "/" ++ cfg.usersFile)
    = some (.obj [("users", s.trim.usersStates.toJson UserStates.toJson),
        ("lastUpdate", .int s.lastUpdate), ("blockHash", .str s.blockHash)]) := by
  simp only [States.cache, jsonWriteToFile, States.toJson]
  rw [Dict.get?_set_of_ne _ _ (path_ne hfiles.users_balances),
    Dict.get?_set_of_ne _ _ (path_ne hfiles.users_risks), Dict.get?_set_self]
  rfl

theorem risks_of_cache (hfiles : cfg.DistinctFiles) :
    (s.cache cfg path files).2.get? (path ++ "/" ++ cfg.cometConfigsFile)
    = some (.obj [("reserves", s.ctokens.toJson fun infos ↦ infos.risks.toDict),
        ("lastUpdate", .int s.lastUpdate)]) := by
  simp only [States.cache, jsonWriteToFile, States.toJson]
  rw [Dict.get?_set_of_ne _ _ (path_ne hfiles.risks_balances), Dict.get?_set_self]
  rfl

theorem balances_of_cache :
    (s.cache cfg path files).2.get? (path ++ "/" ++ cfg.ctokenCongisFile)
    = some (.obj [("reserves", s.ctokens.toJson fun infos ↦ infos.balances.toDict),
        ("lastUpdate", .int s.lastUpdate)]) := by
  simp only [States.cache, jsonWriteToFile, States.toJson]
  rw [Dict.get?_set_self]
  rfl

theorem reloadStates_cache (hfiles : cfg.DistinctFiles) (hstatus : cfg.usersFileStatus = 1)
    (reserves : List String) :
    reloadStates cfg reserves path (s.cache cfg path files).2
      = .ok (reloaded (s.cache cfg path files).1 reserves) := by
  have husers : usersLoad cfg path (s.cache cfg path files).2
      = .ok (s.trim.usersStates, s.lastUpdate, s.blockHash) := by
    rw [usersLoad, if_pos hstatus, jsonFileLoad, users_of_cache path s files hfiles, okOr_some,
      ok_bind]
    simp [Json.toDict_toJson_self userLoad_toJson, pure, Except.pure]
  have hbalances : reloadCtokensBalances cfg path (s.cache cfg path files).2
      = .ok (s.ctokens.mapWithKey fun _ infos ↦ ⟨0, 0, infos.balances.totalSupply⟩,
          s.lastUpdate) := by
    rw [reloadCtokensBalances, jsonFileLoad, balances_of_cache path s files, okOr_some, ok_bind]
    simp [Json.toDict_toJson fun infos : CtokenInfos ↦
      balancesLoad_toDict infos.balances, pure, Except.pure]
  have hrisks : reloadCtokensRisks cfg path (s.cache cfg path files).2
      = .ok (s.ctokens.mapWithKey fun _ infos ↦ ⟨infos.risks.borrowIndex, 0, 0, 0⟩,
          s.lastUpdate) := by
    rw [reloadCtokensRisks, jsonFileLoad, risks_of_cache path s files hfiles, okOr_some, ok_bind]
    simp [Json.toDict_toJson fun infos : CtokenInfos ↦
      risksLoad_toDict infos.risks, pure, Except.pure]
  have hzero : cfg.usersFileStatus ≠ 0 := by
    rw [hstatus]
    decide
  have htokens : tokensLoad cfg reserves path (s.cache cfg path files).2
      = .ok ((reloaded (s.cache cfg path files).1 reserves).ctokens, s.lastUpdate) := by
    simp only [tokensLoad, if_neg hzero, hbalances, hrisks, ok_bind]
    simp [reloaded, States.new, States.cache, States.trim, pure, Except.pure]
  rw [reloadStates, husers, ok_bind]
  simp only [htokens, ok_bind]
  simp [reloaded, States.new, States.cache, States.trim, pure, Except.pure]

end Reload

/-- What has to survive being written and read. -/
structure SamePersisted (s t : States) : Prop where
  usersStates : t.usersStates = s.usersStates
  lastUpdate : t.lastUpdate = s.lastUpdate
  blockHash : t.blockHash = s.blockHash
  ctokens : ∀ r infos, s.ctokens.get? r = some infos → ∃ infos', t.ctokens.get? r = some infos' ∧
    infos'.balances = infos.balances ∧ infos'.risks.borrowIndex = infos.risks.borrowIndex

/-- The infos of a known reserve after reading: the borrow index and the supply. -/
private theorem get?_reloaded {s : States} {reserves : List String} {r : String}
    {infos : CtokenInfos} (hr : r ∈ reserves) (h : s.ctokens.get? r = some infos) :
    (reloaded s reserves).ctokens.get? r
      = some { risks := ⟨infos.risks.borrowIndex, 0, 0, 0⟩
               balances := ⟨0, 0, infos.balances.totalSupply⟩ } := by
  have hget := Dict.get?_foldl_of_mem (fun reserve ↦
    { risks := (s.ctokens.mapWithKey fun _ infos ↦ ⟨infos.risks.borrowIndex, 0, 0, 0⟩).getD
        reserve newCtokenRisks
      balances := (s.ctokens.mapWithKey fun _ infos ↦ ⟨0, 0, infos.balances.totalSupply⟩).getD
        reserve newCtokenBalances : CtokenInfos }) hr ∅
  refine hget.trans ?_
  simp only [Dict.getD, Dict.get?_mapWithKey, h, Option.map_some, Option.getD_some]

/-- Only markets without reserves and borrowings come back as they were. -/
private theorem totals_of_reload {cfg : PAlias} (hfiles : cfg.DistinctFiles)
    (hstatus : cfg.usersFileStatus = 1) {path : String} {files : Files} {s t : States}
    {reserves : List String}
    (ht : reloadStates cfg reserves path (s.cache cfg path files).2 = .ok t)
    (hsame : SamePersisted (s.cache cfg path files).1 t) {r : String} {infos : CtokenInfos}
    (hmem : r ∈ reserves) (hr : s.ctokens.get? r = some infos) :
    infos.balances.totalReserve = 0 ∧ infos.balances.totalBorrow = 0 := by
  rw [reloadStates_cache path s files hfiles hstatus, Except.ok.injEq] at ht
  have hctokens : (s.cache cfg path files).1.ctokens.get? r = some infos := hr
  obtain ⟨infos', hinfos', hbalances, -⟩ := hsame.ctokens r infos hctokens
  rw [← ht, get?_reloaded hmem hctokens, Option.some_inj] at hinfos'
  rw [← hbalances, ← hinfos']
  exact ⟨rfl, rfl⟩

/-- **The round trip.** For every state and every list of reserves that has its markets, reading
what `cache` wrote gives the state that `cache` left, if and only if no market of the state has
reserves or borrowings. -/
theorem reload_cache_iff {net : Network} {sel : Selector} {cfg : PAlias}
    (hcfg : pAlias net sel = some cfg) (path : String) (files : Files) (s : States)
    (reserves : List String) (hreserves : ∀ r ∈ s.ctokens.keys, r ∈ reserves) :
    (∃ t, reloadStates cfg reserves path (s.cache cfg path files).2 = .ok t ∧
      SamePersisted (s.cache cfg path files).1 t) ↔
    ∀ r infos, s.ctokens.get? r = some infos →
      infos.balances.totalReserve = 0 ∧ infos.balances.totalBorrow = 0 := by
  obtain ⟨hstatus, hfiles⟩ := pAlias_spec hcfg
  have hmem : ∀ {r infos}, s.ctokens.get? r = some infos → r ∈ reserves := fun {r infos} h ↦
    hreserves r (Dict.mem_keys_iff.mpr ⟨infos, h⟩)
  constructor
  · rintro ⟨t, ht, hsame⟩ r infos hr
    exact totals_of_reload hfiles hstatus ht hsame (hmem hr) hr
  · intro hzero
    refine ⟨_, reloadStates_cache path s files hfiles hstatus reserves, rfl, rfl, rfl,
      fun r infos hr ↦ ⟨_, get?_reloaded (hmem hr) hr, ?_, rfl⟩⟩
    obtain ⟨hreserve, hborrow⟩ := hzero r infos hr
    exact CtokenBalances.ext hreserve.symm hborrow.symm rfl

/-! ## On the Binance chain -/

/-- A state with one market that has reserves and borrowings. -/
def oneMarket : States :=
  States.new ∅ (Dict.set ∅ "0xA07c5b74C9B40447a954e1466938b865b6BBea36"
    ⟨⟨10 ^ 18, 0, 0, 0⟩, ⟨7, 9, 50⟩, none⟩) 100 ""

/-- The entry of the Binance chain. -/
def venusAlias : PAlias where
  initBlockNumber := 2471511
  ctokenCongisFile := "users/ctoken_configs_bsc_compound_venus.json"
  cometConfigsFile := "users/comet_configs_bsc_compound_venus.json"
  usersFile := "users/users_bsc_compound_venus.json"
  usersFileStatus := 1

private theorem pAlias_bsc : pAlias .bsc .venus = some venusAlias := rfl

theorem reload_cache_iff_bsc :
    (∃ t, reloadStates venusAlias ["0xA07c5b74C9B40447a954e1466938b865b6BBea36"] "/configs"
        (oneMarket.cache venusAlias "/configs" ∅).2 = .ok t ∧
      SamePersisted (oneMarket.cache venusAlias "/configs" ∅).1 t) ↔
    ∀ r infos, oneMarket.ctokens.get? r = some infos →
      infos.balances.totalReserve = 0 ∧ infos.balances.totalBorrow = 0 :=
  reload_cache_iff pAlias_bsc "/configs" ∅ oneMarket
    ["0xA07c5b74C9B40447a954e1466938b865b6BBea36"] fun _ h ↦ h

/-- The reserves and the borrowings of the market are lost. -/
theorem reload_loses_totals :
    ¬ ∃ t, reloadStates venusAlias ["0xA07c5b74C9B40447a954e1466938b865b6BBea36"] "/configs"
        (oneMarket.cache venusAlias "/configs" ∅).2 = .ok t ∧
      SamePersisted (oneMarket.cache venusAlias "/configs" ∅).1 t := by
  rintro ⟨t, ht, hsame⟩
  obtain ⟨hstatus, hfiles⟩ := pAlias_spec pAlias_bsc
  have hzero := totals_of_reload hfiles hstatus ht hsame (List.mem_singleton_self _)
    (Dict.get?_set_self _ _ _)
  exact absurd hzero.1 (by decide)

end CompoundLiquidation
