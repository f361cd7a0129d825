import CompoundLiquidation.Python.Run
import CompoundLiquidation.Users.Effects
import CompoundLiquidation.Users.HighProfit
import Mathlib.Algebra.BigOperators.Intervals
import Mathlib.Order.Interval.Finset.Basic
import Mathlib.Data.Int.ConditionallyCompleteOrder
import Mathlib.Data.Int.Interval
import Mathlib.Data.List.TakeWhile

/-!
# Synchronisation with the chain

`sync_states` asks the node for the logs of the blocks behind `last_update`, two thousand blocks at
a time, applies them, and refreshes the collateral flags of the users they name. The same code runs
on both kinds of states, so it is written here for any class that extends `States`.

The loop advances `last_update` by at least one block in every round. That bounds its rounds by the
number of missing blocks, and the bound is the recursion argument.
-/

namespace CompoundLiquidation

open Python

/-! ## Classes of states -/

/-- A class that extends `States`: where an object keeps the fields of the base class, and its
`update`. -/
structure StatesClass (S : Type) where
  states : S → States
  setStates : States → S → S
  update : EthLibs → LogReceipt → Proc S Error (Dict String ChangeType)
  states_setStates : ∀ s o, states (setStates s o) = s

/-- `States` itself. -/
def plainStates : StatesClass States where
  states := id
  setStates s _ := s
  update := States.update
  states_setStates _ _ := rfl

/-- `HighProfitSates`. An assignment to the base fields shows in the parent where the objects are
the same. -/
def highProfitSates : StatesClass HighProfitSates where
  states := HighProfitSates.toStates
  setStates s h := HighProfitSates.writeThrough { h with toStates := s }
  update := HighProfitSates.update
  states_setStates _ _ := rfl

namespace StatesClass

variable {S : Type} (K : StatesClass S)

/-- A method of the base class on an object. -/
def onBase {α : Type} (x : Proc States Error α) : Proc S Error α := Proc.zoom K.states K.setStates x

/-- The loop over a list of logs: the users changed by any of them. -/
def updateAll (lib : EthLibs) : List LogReceipt → Dict String ChangeType →
    Proc S Error (Dict String ChangeType)
  | [], users => pure users
  | log :: logs, users => do
    let temp ← K.update lib log
    updateAll lib logs (users.update temp)

end StatesClass

/-! ## A batch of logs -/

section Batch

variable {lib : EthLibs}

/-- The logs in front of the first one that raises. -/
def calmLogs (lib : EthLibs) (s : States) (logs : List LogReceipt) : List LogReceipt :=
  logs.takeWhile fun log ↦ !log.raises lib s.ctokens s.plugIn.isSome

private theorem calmLogs_step (log : LogReceipt) (s : States) (logs : List LogReceipt) :
    calmLogs lib (s.step lib log) logs = calmLogs lib s logs := by
  rw [calmLogs, calmLogs]
  simp only [States.raises_step]

theorem run_updateAll_cons (log : LogReceipt) (logs : List LogReceipt)
    (users : Dict String ChangeType) (s : States) :
    (plainStates.updateAll lib (log :: logs) users).run s
      = match ((States.update lib log).run s).1 with
        | .ok types => (plainStates.updateAll lib logs (users.update types)).run (s.step lib log)
        | .error e => (.error e, s.step lib log) := by
  rw [StatesClass.updateAll, Proc.run_bind]
  match hrun : (States.update lib log).run s with
  | (.ok types, s') =>
    rw [States.step, hrun]
  | (.error e, s') =>
    rw [States.step, hrun]

/-- Behind the first log that raises nothing more happens to the collateral. -/
theorem colAmount_updateAll (logs : List LogReceipt) : ∀ (users : Dict String ChangeType)
    (s : States) (u reserve : String),
    ((plainStates.updateAll lib logs users).run s).2.colAmount u reserve = s.colAmount u reserve
      + ((calmLogs lib s logs).map (LogReceipt.colDelta lib u reserve)).sum := by
  induction logs with
  | nil => exact fun _ _ _ _ ↦ (add_zero _).symm
  | cons log logs ih =>
    intro users s u reserve
    have hok := States.update_ok_iff lib log s
    rw [run_updateAll_cons]
    rcases hrun : ((States.update lib log).run s).1 with e | types
    · rw [hrun] at hok
      have hraises : log.raises lib s.ctokens s.plugIn.isSome = true := by
        rw [← Bool.not_eq_false, ← hok]
        rintro ⟨_, h⟩
        cases h
      have hcalm : calmLogs lib s (log :: logs) = [] := by
        rw [calmLogs, List.takeWhile_cons, hraises]
        rfl
      simp only [States.colAmount_step, hraises, hcalm, if_true, List.map_nil, List.sum_nil]
    · rw [hrun] at hok
      have hraises := hok.mp ⟨types, rfl⟩
      have hcalm : calmLogs lib s (log :: logs) = log :: calmLogs lib s logs := by
        rw [calmLogs, List.takeWhile_cons, hraises]
        rfl
      simp only
      rw [ih, calmLogs_step, States.colAmount_step, hraises, hcalm, List.map_cons, List.sum_cons,
        if_neg Bool.false_ne_true]
      ring

/-- A batch in which no log raises has applied them all. -/
theorem updateAll_ok {logs : List LogReceipt} : ∀ {users users' : Dict String ChangeType}
    {s s' : States}, (plainStates.updateAll lib logs users).run s = (.ok users', s') →
    s' = runFrom (States.step lib) s logs ∧
      (∀ log ∈ logs, log.raises lib s.ctokens s.plugIn.isSome = false) ∧
      ∀ u, u ∈ users'.keys ↔ u ∈ users.keys ∨ ∃ log ∈ logs, log.names lib u := by
  induction logs with
  | nil =>
    intro users users' s s' h
    obtain ⟨husers, hs⟩ := Prod.mk.inj h
    rw [← Except.ok.inj husers, ← hs]
    exact ⟨rfl, fun _ h ↦ absurd h List.not_mem_nil, fun u ↦ by simp⟩
  | cons log logs ih =>
    intro users users' s s' h
    rw [run_updateAll_cons] at h
    rcases hrun : ((States.update lib log).run s).1 with e | types
    · rw [hrun] at h
      cases (Prod.mk.inj h).1
    · rw [hrun] at h
      obtain ⟨hs', hcalm, hkeys⟩ := ih h
      refine ⟨hs', ?_, fun u ↦ ?_⟩
      · rintro log' hlog'
        rcases List.mem_cons.mp hlog' with rfl | hlog'
        · exact (States.update_ok_iff lib _ s).mp ⟨types, hrun⟩
        · rw [← States.raises_step]
          exact hcalm log' hlog'
      · rw [hkeys, Dict.mem_keys_update, States.mem_keys_types_iff hrun]
        simp only [List.mem_cons, exists_eq_or_imp]
        tauto

/-- Where no log raises the batch goes through. -/
theorem updateAll_of_calm {logs : List LogReceipt} : ∀ (users : Dict String ChangeType)
    {s : States}, (∀ log ∈ logs, log.raises lib s.ctokens s.plugIn.isSome = false) →
    ∃ users' s', (plainStates.updateAll lib logs users).run s = (.ok users', s') := by
  induction logs with
  | nil => exact fun users s _ ↦ ⟨users, s, rfl⟩
  | cons log logs ih =>
    intro users s hcalm
    obtain ⟨types, hrun⟩ := (States.update_ok_iff lib log s).mpr (hcalm log List.mem_cons_self)
    rw [run_updateAll_cons, hrun]
    refine ih (users.update types) fun log' hlog' ↦ ?_
    rw [States.raises_step]
    exact hcalm log' (List.mem_cons_of_mem log hlog')

end Batch

/-! ## Collateral flags -/

/-- `reload_and_extend_states`, with the answers of the comptroller. -/
def States.reloadAndExtendStates (lib : EthLibs)
    (getAssetsIn : String → Except Error (List String)) (usr : String) :
    Proc States Error Unit := do
  let user ← Proc.ofExcept (lib.toChecksumAddress usr)
  let reservesAsMarket ← Proc.ofExcept (getAssetsIn user)
  let s ← Proc.read
  let states ← Proc.ofExcept (s.usersStates.item usr)
  let difference := states.reserves.keys.filter fun reserve ↦ reserve ∉ reservesAsMarket
  -- an assignment to a record that is not there is skipped
  Proc.forEach reservesAsMarket fun reserve ↦
    Proc.modify (onReserve usr reserve fun r ↦ { r with isColLiq := 1 })
  Proc.forEach difference fun reserve ↦
    Proc.modify (onReserve usr reserve fun r ↦ { r with isColLiq := 0 })

/-- A user whose flags are as the comptroller says. -/
def UserStates.withFlags (assets : List String) (states : UserStates) : UserStates :=
  { states with reserves := states.reserves.mapWithKey fun reserve r ↦
      { r with isColLiq := if reserve ∈ assets then 1 else 0 } }

namespace States

/-- The state with the flags of a user refreshed. -/
def refreshFlags (usr : String) (assets : List String) (s : States) : States :=
  { s with usersStates := s.usersStates.modify usr (UserStates.withFlags assets) }

/-- The records of one user replaced. -/
private def onRecords (usr : String) (g : String → CompReserve → CompReserve) (s : States) :
    States :=
  { s with usersStates := s.usersStates.modify usr fun states ↦
      { states with reserves := states.reserves.mapWithKey g } }

private theorem onRecords_onRecords (usr : String) (f g : String → CompReserve → CompReserve)
    (s : States) : (s.onRecords usr f).onRecords usr g
      = s.onRecords usr fun reserve r ↦ g reserve (f reserve r) := by
  rw [onRecords, onRecords, onRecords]
  simp only [Dict.modify_modify, Dict.mapWithKey_mapWithKey]

/-- Setting one flag after the other. -/
private theorem foldl_onReserve (usr : String) (flag : ℤ) (l : List String) : ∀ s : States,
    l.foldl (fun s reserve ↦ s.onReserve usr reserve fun r ↦ { r with isColLiq := flag }) s
      = s.onRecords usr fun reserve r ↦
          if reserve ∈ l then { r with isColLiq := flag } else r := by
  induction l with
  | nil =>
    intro s
    simp only [List.foldl_nil, List.not_mem_nil, if_false]
    rw [onRecords]
    simp only [Dict.mapWithKey_id, Dict.modify_id]
  | cons key l ih =>
    intro s
    have hone : (s.onReserve usr key fun r ↦ { r with isColLiq := flag })
        = s.onRecords usr fun reserve r ↦
            if reserve = key then { r with isColLiq := flag } else r := rfl
    rw [List.foldl_cons, ih, hone, onRecords_onRecords]
    congr 1
    funext reserve r
    by_cases hkey : reserve = key
    · simp [hkey]
    · simp [hkey]

/-- **The refresh.** It raises before it assigns anything, or sets every flag of the user. -/
theorem run_reloadAndExtendStates (lib : EthLibs)
    (getAssetsIn : String → Except Error (List String)) (usr : String) (s : States) :
    (reloadAndExtendStates lib getAssetsIn usr).run s
      = match lib.toChecksumAddress usr >>= getAssetsIn, s.usersStates.get? usr with
        | .error e, _ => (.error e, s)
        | .ok _, none => (.error (.keyError usr), s)
        | .ok assets, some _ => (.ok (), s.refreshFlags usr assets) := by
  rw [reloadAndExtendStates, Proc.run_bind, Proc.run_ofExcept]
  rcases lib.toChecksumAddress usr with e | user
  · rfl
  simp only [ok_bind, Proc.run_bind, Proc.run_ofExcept]
  rcases getAssetsIn user with e | assets
  · rfl
  simp only [Proc.run_read, Dict.item]
  rcases husr : s.usersStates.get? usr with _ | states
  · rfl
  simp only [okOr_some, Proc.run_forEach_modify, foldl_onReserve, onRecords_onRecords]
  refine congrArg (Prod.mk _) ?_
  rw [onRecords, refreshFlags, Dict.modify_of_get?_eq_some _ husr,
    Dict.modify_of_get?_eq_some _ husr, UserStates.withFlags]
  congr 3
  refine Dict.mapWithKey_congr fun reserve r hr ↦ ?_
  have hkey : reserve ∈ states.reserves.keys := Dict.mem_keys_iff.mpr ⟨r, hr⟩
  by_cases hmem : reserve ∈ assets
  · simp [hmem]
  · simp [hmem, hkey]

end States

/-! ## The loop -/

/-- What `w3_liq` answers. The comptroller is asked between two windows, so its answer may depend
on the block the window in front ended at. -/
structure EthNode where
  /-- `eth.get_block_number`. -/
  getBlockNumber : Except Error ℤ
  /-- `eth.get_logs` for the first and the last block of a range. -/
  getLogs : ℤ → ℤ → Except Error (List LogReceipt)
  /-- `getAssetsIn`. -/
  getAssetsIn : ℤ → String → Except Error (List String)

namespace StatesClass

variable {S : Type} (K : StatesClass S)

/-- `user_state_extend_hook`. -/
def userStateExtendHook (lib : EthLibs) (getAssetsIn : String → Except Error (List String))
    (res : Dict String ChangeType) : Proc S Error Unit :=
  Proc.forEach res.keys fun usr ↦ K.onBase (States.reloadAndExtendStates lib getAssetsIn usr)

/-- The last block of the window that starts at `fromBlock`. -/
def windowEnd (fromBlock targetBlock : ℤ) : ℤ :=
  if fromBlock + 1999 > targetBlock then targetBlock else fromBlock + 1999

/-- The body of the loop in `query_events_loop_liq`, with the hook that `sync_states` passes. -/
def queryWindow (lib : EthLibs) (node : EthNode) (targetBlock : ℤ) : Proc S Error Unit := do
  let s ← Proc.read
  let fromBlock := (K.states s).lastUpdate + 1
  let toBlock := windowEnd fromBlock targetBlock
  let logs ← Proc.ofExcept ((node.getLogs fromBlock toBlock).mapError fun _ ↦
    .exception "get logs failed")
  let res ← K.updateAll lib logs ∅
  K.onBase (Proc.modify fun s ↦ { s with lastUpdate := toBlock })
  K.userStateExtendHook lib (node.getAssetsIn toBlock) res

/-- The loop in `query_events_loop_liq`, for at most `n` rounds. -/
def queryEventsLoop (lib : EthLibs) (node : EthNode) (targetBlock : ℤ) : ℕ → Proc S Error Unit
  | 0 => pure ()
  | n + 1 => do
    let s ← Proc.read
    if (K.states s).lastUpdate < targetBlock then
      K.queryWindow lib node targetBlock
      queryEventsLoop lib node targetBlock n

/-- `query_events_loop_liq`. -/
def queryEventsLoopLiq (lib : EthLibs) (node : EthNode) (targetBlock : ℤ) :
    Proc S Error Unit := do
  let s ← Proc.read
  K.queryEventsLoop lib node targetBlock (targetBlock - (K.states s).lastUpdate).toNat

/-- `sync_states`. -/
def syncStates (lib : EthLibs) (node : EthNode) (delay : ℤ) : Proc S Error Unit := do
  let blockNumber ← Proc.ofExcept node.getBlockNumber
  K.queryEventsLoopLiq lib node (blockNumber - delay)

end StatesClass

/-! ## Balances after a synchronisation -/

/-- The logs of a range of blocks, both ends included. -/
def rangeLogs (logsOf : ℤ → List LogReceipt) (fromBlock toBlock : ℤ) : List LogReceipt :=
  (List.range (toBlock + 1 - fromBlock).toNat).flatMap fun i : ℕ ↦ logsOf (fromBlock + i)

/-- `get_logs` returns exactly the logs of the range, or raises. -/
def EthNode.Exact (node : EthNode) (logsOf : ℤ → List LogReceipt) : Prop :=
  ∀ fromBlock toBlock logs, node.getLogs fromBlock toBlock = .ok logs →
    logs = rangeLogs logsOf fromBlock toBlock

/-- What a list of logs adds to the collateral of a user in a market. -/
def batchDelta (lib : EthLibs) (u reserve : String) (logs : List LogReceipt) : ℤ :=
  (logs.map (LogReceipt.colDelta lib u reserve)).sum

/-- The collateral has moved by `d`, and the logs that raise are still the same. -/
structure States.Moved (d : String → String → ℤ) (s s' : States) : Prop where
  colAmount : ∀ u reserve, s'.colAmount u reserve = s.colAmount u reserve + d u reserve
  known : ∀ reserve, (s'.ctokens.get? reserve).isNone = (s.ctokens.get? reserve).isNone
  plugged : s'.plugIn.isSome = s.plugIn.isSome

section Moved

variable {lib : EthLibs} {logsOf : ℤ → List LogReceipt}

namespace States

theorem Moved.refl (s : States) : s.Moved (fun _ _ ↦ 0) s :=
  ⟨fun _ _ ↦ (add_zero _).symm, fun _ ↦ rfl, rfl⟩

theorem Moved.trans {d d' : String → String → ℤ} {s s' s'' : States} (h : s.Moved d s')
    (h' : s'.Moved d' s'') : s.Moved (fun u reserve ↦ d u reserve + d' u reserve) s'' where
  colAmount u reserve := by rw [h'.colAmount, h.colAmount, add_assoc]
  known reserve := (h'.known reserve).trans (h.known reserve)
  plugged := h'.plugged.trans h.plugged

theorem Moved.congr {d d' : String → String → ℤ} {s s' : States} (h : s.Moved d s')
    (hd : ∀ u reserve, d u reserve = d' u reserve) : s.Moved d' s' :=
  ⟨fun u reserve ↦ hd u reserve ▸ h.colAmount u reserve, h.known, h.plugged⟩

theorem Moved.calmLogs {d : String → String → ℤ} {s s' : States} (h : s.Moved d s')
    (logs : List LogReceipt) :
    CompoundLiquidation.calmLogs lib s' logs = CompoundLiquidation.calmLogs lib s logs := by
  have hraises : ∀ log : LogReceipt, log.raises lib s'.ctokens s'.plugIn.isSome
      = log.raises lib s.ctokens s.plugIn.isSome := by
    intro log
    rw [h.plugged]
    exact raises_congr h.known _ log
  rw [CompoundLiquidation.calmLogs, CompoundLiquidation.calmLogs]
  simp only [hraises]

end States

theorem calmLogs_of_calm {s : States} {logs : List LogReceipt}
    (h : ∀ log ∈ logs, log.raises lib s.ctokens s.plugIn.isSome = false) :
    calmLogs lib s logs = logs := by
  rw [calmLogs, List.takeWhile_eq_self_iff]
  exact fun log hlog ↦ by rw [h log hlog, Bool.not_false]

/-- A batch has moved what the logs in front of the first one that raises move. -/
theorem moved_updateAll (logs : List LogReceipt) (users : Dict String ChangeType) (s : States) :
    s.Moved (fun u reserve ↦ batchDelta lib u reserve (calmLogs lib s logs))
      ((plainStates.updateAll lib logs users).run s).2 := by
  refine ⟨fun u reserve ↦ colAmount_updateAll logs users s u reserve, fun reserve ↦ ?_, ?_⟩
  · induction logs generalizing users s with
    | nil => rfl
    | cons log logs ih =>
      rw [run_updateAll_cons]
      rcases ((States.update lib log).run s).1 with e | types
      · exact States.isNone_ctokens_step lib log s reserve
      · exact (ih _ _).trans (States.isNone_ctokens_step lib log s reserve)
  · induction logs generalizing users s with
    | nil => rfl
    | cons log logs ih =>
      rw [run_updateAll_cons]
      rcases ((States.update lib log).run s).1 with e | types
      · exact States.isSome_plugIn_step lib log s
      · exact (ih _ _).trans (States.isSome_plugIn_step lib log s)

/-- The refresh of a user's flags moves nothing. -/
theorem moved_refreshFlags (usr : String) (assets : List String) (s : States) :
    s.Moved (fun _ _ ↦ 0) (s.refreshFlags usr assets) where
  colAmount u reserve := by
    rw [add_zero, States.colAmount, States.colAmount, States.refreshFlags, Dict.get?_modify]
    split_ifs
    · rcases s.usersStates.get? u with _ | states
      · rfl
      · rw [Option.map_some, Option.bind_some, Option.bind_some, UserStates.withFlags,
          Dict.get?_mapWithKey]
        rcases states.reserves.get? reserve with _ | r
        · rfl
        · rfl
    · rfl
  known _ := rfl
  plugged := rfl

/-- Neither the collateral nor the block number is touched. -/
def States.Still (s s' : States) : Prop :=
  s.Moved (fun _ _ ↦ 0) s' ∧ s'.lastUpdate = s.lastUpdate

theorem States.Still.refl (s : States) : s.Still s := ⟨.refl s, rfl⟩

theorem States.Still.trans (s s' s'' : States) (h : s.Still s') (h' : s'.Still s'') : s.Still s'' :=
  ⟨(h.1.trans h'.1).congr fun _ _ ↦ add_zero 0, h'.2.trans h.2⟩

theorem still_reloadAndExtendStates (getAssetsIn : String → Except Error (List String))
    (usr : String) :
    Proc.Keeps States.Still (States.reloadAndExtendStates lib getAssetsIn usr) := by
  intro s
  rw [States.run_reloadAndExtendStates]
  rcases lib.toChecksumAddress usr >>= getAssetsIn with e | assets
  · exact .refl s
  · rcases s.usersStates.get? usr with _ | states
    · exact .refl s
    · exact ⟨moved_refreshFlags usr assets s, rfl⟩

theorem still_userStateExtendHook (getAssetsIn : String → Except Error (List String))
    (res : Dict String ChangeType) :
    Proc.Keeps States.Still (plainStates.userStateExtendHook lib getAssetsIn res) :=
  Proc.keeps_forEach States.Still.refl States.Still.trans res.keys fun usr _ ↦
    still_reloadAndExtendStates getAssetsIn usr

theorem batchDelta_flatMap (u reserve : String) (l : List ℕ) (f : ℕ → List LogReceipt) :
    batchDelta lib u reserve (l.flatMap f)
      = (l.map fun i ↦ batchDelta lib u reserve (f i)).sum := by
  induction l with
  | nil => rfl
  | cons i l ih =>
    rw [List.flatMap_cons, batchDelta, List.map_append, List.sum_append, List.map_cons,
      List.sum_cons, ← ih]
    rfl

/-- The logs of a range move what the blocks of the range move. -/
theorem batchDelta_rangeLogs (u reserve : String) (lastUpdate toBlock : ℤ) :
    batchDelta lib u reserve (rangeLogs logsOf (lastUpdate + 1) toBlock)
      = ∑ b ∈ Finset.Ioc lastUpdate toBlock, batchDelta lib u reserve (logsOf b) := by
  have hlength : toBlock + 1 - (lastUpdate + 1) = toBlock - lastUpdate := by ring
  rw [rangeLogs, batchDelta_flatMap, hlength, Int.Ioc_eq_finset_map, Finset.sum_map]
  rfl

/-- The three phases of a window: the logs are fetched, applied, and the flags of the users they
name refreshed. The new block number comes between the last two. -/
theorem run_queryWindow (node : EthNode) (targetBlock : ℤ) (s : States) :
    (plainStates.queryWindow lib node targetBlock).run s
      = match node.getLogs (s.lastUpdate + 1) (StatesClass.windowEnd (s.lastUpdate + 1) targetBlock)
        with
        | .error _ => (.error (.exception "get logs failed"), s)
        | .ok logs => match (plainStates.updateAll lib logs ∅).run s with
          | (.error e, s') => (.error e, s')
          | (.ok users, s') => (plainStates.userStateExtendHook lib (node.getAssetsIn
              (StatesClass.windowEnd (s.lastUpdate + 1) targetBlock)) users).run
                { s' with lastUpdate := StatesClass.windowEnd (s.lastUpdate + 1) targetBlock } := by
  have hstates : plainStates.states s = s := rfl
  rw [StatesClass.queryWindow, Proc.run_bind, Proc.run_read]
  simp only [hstates, Proc.run_bind, Proc.run_ofExcept]
  rcases node.getLogs (s.lastUpdate + 1)
    (StatesClass.windowEnd (s.lastUpdate + 1) targetBlock) with e | logs
  · rfl
  · simp only [Except.mapError]
    rcases (plainStates.updateAll lib logs ∅).run s with ⟨e | users, s'⟩
    · rfl
    · rfl

/-- A window that completes has moved what its blocks move. -/
theorem queryWindow_ok {node : EthNode} (hnode : node.Exact logsOf) {targetBlock : ℤ}
    {s s' : States} (h : (plainStates.queryWindow lib node targetBlock).run s = (.ok (), s')) :
    s'.lastUpdate = StatesClass.windowEnd (s.lastUpdate + 1) targetBlock ∧
      s.Moved (fun u reserve ↦ ∑ b ∈ Finset.Ioc s.lastUpdate s'.lastUpdate,
        batchDelta lib u reserve (logsOf b)) s' := by
  rw [run_queryWindow] at h
  rcases hlogs : node.getLogs (s.lastUpdate + 1)
      (StatesClass.windowEnd (s.lastUpdate + 1) targetBlock) with e | logs
  · rw [hlogs] at h
    cases (Prod.mk.inj h).1
  simp only [hlogs] at h
  rcases hall : (plainStates.updateAll lib logs ∅).run s with ⟨e | users, s₂⟩
  · rw [hall] at h
    cases (Prod.mk.inj h).1
  · simp only [hall] at h
    have hstill : Proc.Keeps States.Still (plainStates.userStateExtendHook lib (node.getAssetsIn
      (StatesClass.windowEnd (s.lastUpdate + 1) targetBlock)) users) :=
        still_userStateExtendHook _ _
    replace hstill := hstill
      { s₂ with lastUpdate := StatesClass.windowEnd (s.lastUpdate + 1) targetBlock }
    rw [h] at hstill
    obtain ⟨hstill, hlast⟩ := hstill
    have hbatch : s.Moved (fun u reserve ↦ batchDelta lib u reserve logs) s₂ := by
      have hmoved : s.Moved _ ((plainStates.updateAll lib logs ∅).run s).2 :=
        moved_updateAll logs ∅ s
      rw [calmLogs_of_calm (updateAll_ok hall).2.1, hall] at hmoved
      exact hmoved
    have hset : s₂.Moved (fun _ _ ↦ 0)
        { s₂ with lastUpdate := StatesClass.windowEnd (s.lastUpdate + 1) targetBlock } :=
      ⟨fun _ _ ↦ (add_zero _).symm, fun _ ↦ rfl, rfl⟩
    refine ⟨hlast, ((hbatch.trans hset).trans hstill).congr fun u reserve ↦ ?_⟩
    rw [hlast, add_zero, add_zero, hnode _ _ _ hlogs, batchDelta_rangeLogs]

/-- A loop that completes has moved what the missing blocks move. -/
theorem queryEventsLoop_ok {node : EthNode} (hnode : node.Exact logsOf) {targetBlock : ℤ} (n : ℕ) :
    ∀ {s s' : States}, (targetBlock - s.lastUpdate).toNat ≤ n →
    (plainStates.queryEventsLoop lib node targetBlock n).run s = (.ok (), s') →
    s'.lastUpdate = max s.lastUpdate targetBlock ∧
      s.Moved (fun u reserve ↦ ∑ b ∈ Finset.Ioc s.lastUpdate targetBlock,
        batchDelta lib u reserve (logsOf b)) s' := by
  induction n with
  | zero =>
    intro s s' hn h
    have hdone : targetBlock ≤ s.lastUpdate := by omega
    rw [← (Prod.mk.inj h).2, max_eq_left hdone, Finset.Ioc_eq_empty_of_le hdone]
    exact ⟨rfl, .refl s⟩
  | succ n ih =>
    intro s s' hn h
    rw [StatesClass.queryEventsLoop, Proc.run_bind, Proc.run_read] at h
    by_cases hlt : s.lastUpdate < targetBlock
    · have hif : (plainStates.states s).lastUpdate < targetBlock := hlt
      simp only [if_pos hif] at h
      obtain ⟨_, s₁, hwindow, hrest⟩ := Proc.run_bind_ok h
      obtain ⟨hlast, hmoved⟩ := queryWindow_ok hnode hwindow
      have hend : s.lastUpdate < s₁.lastUpdate ∧ s₁.lastUpdate ≤ targetBlock := by
        rw [hlast, StatesClass.windowEnd]
        split_ifs
        · omega
        · omega
      obtain ⟨hlast', hmoved'⟩ := ih (by omega) hrest
      refine ⟨by omega, (hmoved.trans hmoved').congr fun u reserve ↦ ?_⟩
      rw [← Finset.Ioc_union_Ioc_eq_Ioc hend.1.le hend.2,
        Finset.sum_union (Finset.Ioc_disjoint_Ioc_of_le le_rfl)]
    · have hif : ¬ (plainStates.states s).lastUpdate < targetBlock := hlt
      simp only [if_neg hif] at h
      have hdone : targetBlock ≤ s.lastUpdate := Int.not_lt.mp hlt
      rw [← (Prod.mk.inj h).2, max_eq_left hdone, Finset.Ioc_eq_empty_of_le hdone]
      exact ⟨rfl, .refl s⟩

/-- **A completed synchronisation.** Every balance has moved by what the blocks behind `last_update`
move, up to the target. -/
theorem syncStates_ok {node : EthNode} (hnode : node.Exact logsOf) {delay targetBlock : ℤ}
    (htarget : node.getBlockNumber = .ok (targetBlock + delay)) {s s' : States}
    (h : (plainStates.syncStates lib node delay).run s = (.ok (), s')) :
    s'.lastUpdate = max s.lastUpdate targetBlock ∧
      s.Moved (fun u reserve ↦ ∑ b ∈ Finset.Ioc s.lastUpdate targetBlock,
        batchDelta lib u reserve (logsOf b)) s' := by
  have hdelay : targetBlock + delay - delay = targetBlock := by ring
  rw [StatesClass.syncStates, htarget] at h
  rw [Proc.run_bind, Proc.run_ofExcept] at h
  simp only [hdelay] at h
  rw [StatesClass.queryEventsLoopLiq, Proc.run_bind, Proc.run_read] at h
  exact queryEventsLoop_ok hnode _ le_rfl h

end Moved

end CompoundLiquidation
