import CompoundLiquidation.Callbacks.Users
import CompoundLiquidation.Users.Resume

/-!
# From synchronising to subscribing

`sync_states` reads the logs of a range of blocks, and from then on the callback gets them block by
block. Both apply a log by adding to balances, so a block that comes twice is counted twice unless
the second time is noticed. The callback compares the block number with `last_update` and leaves out
what is strictly older. The block that `last_update` names is not older: it is applied again.

A balance is compared with its value before the synchronisation plus the transfers of every block
that has been delivered since, each taken once. The state the synchronisation starts from already
has the blocks up to its own `last_update`.
-/

namespace CompoundLiquidation

open Python

/-- A message, with what node and clock answer while it is handled. -/
structure Delivery where
  response : LogReceiptLight
  node : UsersNode
  clock : UsersClock

/-- `response['blockNumber']`. -/
def Delivery.blockNum (d : Delivery) : ℤ := d.response.blockNumber

/-- The message carries the logs of its block. -/
def Delivery.Carries (lib : EthLibs) (logsOf : ℤ → List LogReceipt) (d : Delivery) : Prop :=
  converter lib d.response = .ok (logsOf d.blockNum)

/-- The main module after a message, also where the callback raised. -/
def Globals.deliver (lib : EthLibs) (g : Globals States) (d : Delivery) : Globals States :=
  ((usersSubscribeCallback plainStates lib d.node d.clock d.response).run g).2

/-- The blocks that synchronisation and messages have delivered, behind those that the state before
already had. -/
noncomputable def deliveredBlocks (lastUpdate targetBlock : ℤ) (past : List Delivery) : Finset ℤ :=
  Finset.Ioc lastUpdate targetBlock ∪
    (past.map Delivery.blockNum).toFinset.filter fun b ↦ lastUpdate < b

/-- Every balance is what it was in `s₀` plus the transfers of the delivered blocks. -/
def AppliedOnce (lib : EthLibs) (logsOf : ℤ → List LogReceipt) (s₀ : States) (targetBlock : ℤ)
    (past : List Delivery) (s : States) : Prop :=
  ∀ u reserve, s.colAmount u reserve = s₀.colAmount u reserve
    + ∑ b ∈ deliveredBlocks s₀.lastUpdate targetBlock past, batchDelta lib u reserve (logsOf b)

/-- The logs from the first one on that raises. -/
def interruptedLogs (lib : EthLibs) (s : States) (logs : List LogReceipt) : List LogReceipt :=
  logs.dropWhile fun log ↦ !log.raises lib s.ctokens s.plugIn.isSome

/-- No balance is moved by the logs together. -/
def MovesNothing (lib : EthLibs) (logs : List LogReceipt) : Prop :=
  ∀ u reserve, batchDelta lib u reserve logs = 0

/-- The messages that are counted right, in a state that has come to block `lastUpdate`. -/
def Delivery.CountedRight (lib : EthLibs) (logsOf : ℤ → List LogReceipt) (s₀ : States)
    (targetBlock : ℤ) (past : List Delivery) (lastUpdate : ℤ) (d : Delivery) : Prop :=
  let covered := d.blockNum ≤ s₀.lastUpdate ∨
    d.blockNum ∈ deliveredBlocks s₀.lastUpdate targetBlock past
  -- left out
  (d.blockNum < lastUpdate → ¬ covered → MovesNothing lib (logsOf d.blockNum)) ∧
  -- applied again
  (lastUpdate ≤ d.blockNum → covered → MovesNothing lib (calmLogs lib s₀ (logsOf d.blockNum))) ∧
  -- applied, as far as no log raises
  (lastUpdate ≤ d.blockNum → ¬ covered →
    MovesNothing lib (interruptedLogs lib s₀ (logsOf d.blockNum)))

section Handover

variable {lib : EthLibs} {logsOf : ℤ → List LogReceipt}

/-! ## One message -/

theorem moved_setHealthFactor (usr : String) (hf : HealthFactor) (s : States) :
    s.Moved (fun _ _ ↦ 0) (s.setHealthFactor usr hf) where
  colAmount u reserve := by
    rw [add_zero, States.colAmount, States.colAmount, States.setHealthFactor, Dict.get?_modify]
    split_ifs
    · rcases s.usersStates.get? u with _ | states
      · rfl
      · rfl
    · rfl
  known _ := rfl
  plugged := rfl

theorem moved_setVaiRepay (usr : String) (vaiRepay : ℤ) (s : States) :
    s.Moved (fun _ _ ↦ 0) (s.setVaiRepay usr vaiRepay) where
  colAmount u reserve := by
    rw [add_zero, States.colAmount, States.colAmount, States.setVaiRepay, Dict.get?_modify]
    split_ifs
    · rcases s.usersStates.get? u with _ | states
      · rfl
      · rfl
    · rfl
  known _ := rfl
  plugged := rfl

theorem moved_clearStorage (s : States) : s.Moved (fun _ _ ↦ 0) s.clearStorage :=
  ⟨fun _ _ ↦ (add_zero _).symm, fun _ ↦ rfl, Option.isSome_map⟩

/-- Behind the logs the callback moves nothing. -/
theorem moved_followUp (node : UsersNode) (clock : UsersClock) (usersLst : List String)
    (g : Globals States) : g.states.Moved (fun _ _ ↦ 0)
      ((followUp plainStates lib node clock usersLst).run g).2.states := by
  have htrans : ∀ s t u : States, s.Moved (fun _ _ ↦ 0) t → t.Moved (fun _ _ ↦ 0) u →
      s.Moved (fun _ _ ↦ 0) u := fun s t u h h' ↦ (h.trans h').congr fun _ _ ↦ add_zero 0
  exact keeps_followUp (K := plainStates) .refl htrans
    (fun usr assets s ↦ moved_refreshFlags usr assets s)
    moved_setHealthFactor moved_setVaiRepay moved_clearStorage lib node clock usersLst g

theorem deliver_of_lt {d : Delivery} {g : Globals States}
    (hcarries : d.Carries lib logsOf) (h : d.blockNum < g.states.lastUpdate) :
    g.deliver lib d = g := by
  have hold : d.response.blockNumber < (plainStates.states g.states).lastUpdate := h
  rw [Globals.deliver, usersSubscribeCallback, hcarries, Proc.run_bind, Proc.run_ofExcept]
  simp only [Proc.run_bind, Proc.run_read, if_pos hold, Proc.run_pure]

/-- A message that is not older than `last_update` is applied up to the first log that raises. -/
theorem moved_deliver {d : Delivery} {g : Globals States}
    (hcarries : d.Carries lib logsOf) (h : g.states.lastUpdate ≤ d.blockNum) :
    g.states.Moved (fun u reserve ↦ batchDelta lib u reserve
        (calmLogs lib g.states (logsOf d.blockNum))) (g.deliver lib d).states := by
  have hbatch : g.states.Moved _
      ((plainStates.updateAll lib (logsOf d.blockNum) ∅).run g.states).2 :=
    moved_updateAll (logsOf d.blockNum) ∅ g.states
  rw [Globals.deliver, run_usersSubscribeCallback hcarries h]
  rcases hall : (plainStates.updateAll lib (logsOf d.blockNum) ∅).run g.states
    with ⟨e | users, s'⟩
  · rw [hall] at hbatch
    exact hbatch
  · rw [hall] at hbatch
    have hset : s'.Moved (fun _ _ ↦ 0)
        { s' with lastUpdate := d.response.blockNumber, blockHash := d.response.blockHash } :=
      ⟨fun _ _ ↦ (add_zero _).symm, fun _ ↦ rfl, rfl⟩
    refine ((hbatch.trans hset).trans (moved_followUp d.node d.clock users.keys
      { g with states := { s' with
        lastUpdate := d.response.blockNumber
        blockHash := d.response.blockHash } })).congr fun u reserve ↦ ?_
    rw [add_zero, add_zero]

/-! ## The run -/

/-- A message adds its block to the delivered ones, unless the block is covered. -/
theorem deliveredBlocks_concat (lastUpdate targetBlock : ℤ) (past : List Delivery) (d : Delivery) :
    deliveredBlocks lastUpdate targetBlock (past ++ [d]) = if d.blockNum ≤ lastUpdate
      then deliveredBlocks lastUpdate targetBlock past
      else insert d.blockNum (deliveredBlocks lastUpdate targetBlock past) := by
  ext b
  split_ifs with hold
  · simp only [deliveredBlocks, List.map_append, List.map_cons, List.map_nil, Finset.mem_union,
      Finset.mem_filter, List.mem_toFinset, List.mem_append, List.mem_singleton]
    constructor
    · rintro (hb | ⟨hb | rfl, hlt⟩)
      · exact .inl hb
      · exact .inr ⟨hb, hlt⟩
      · exact absurd hold (not_le.mpr hlt)
    · rintro (hb | ⟨hb, hlt⟩)
      · exact .inl hb
      · exact .inr ⟨.inl hb, hlt⟩
  · simp only [deliveredBlocks, List.map_append, List.map_cons, List.map_nil, Finset.mem_union,
      Finset.mem_filter, List.mem_toFinset, List.mem_append, List.mem_singleton, Finset.mem_insert]
    constructor
    · rintro (hb | ⟨hb | rfl, hlt⟩)
      · exact .inr (.inl hb)
      · exact .inr (.inr ⟨hb, hlt⟩)
      · exact .inl rfl
    · rintro (rfl | hb | ⟨hb, hlt⟩)
      · exact .inr ⟨.inr rfl, not_le.mp hold⟩
      · exact .inl hb
      · exact .inr ⟨.inl hb, hlt⟩

/-- What a message adds to the sum over the delivered blocks. -/
theorem sum_deliveredBlocks_concat (lastUpdate targetBlock : ℤ) (past : List Delivery)
    (d : Delivery) (f : ℤ → ℤ) :
    ∑ b ∈ deliveredBlocks lastUpdate targetBlock (past ++ [d]), f b
      = ∑ b ∈ deliveredBlocks lastUpdate targetBlock past, f b
        + if d.blockNum ≤ lastUpdate ∨ d.blockNum ∈ deliveredBlocks lastUpdate targetBlock past
          then 0 else f d.blockNum := by
  rw [deliveredBlocks_concat]
  by_cases hold : d.blockNum ≤ lastUpdate
  · rw [if_pos hold, if_pos (.inl hold), add_zero]
  · rw [if_neg hold]
    by_cases hmem : d.blockNum ∈ deliveredBlocks lastUpdate targetBlock past
    · rw [Finset.insert_eq_of_mem hmem, if_pos (.inr hmem), add_zero]
    · rw [Finset.sum_insert hmem, if_neg (not_or.mpr ⟨hold, hmem⟩), add_comm]

/-- The accepted logs of a batch and the interrupted ones make up the batch. -/
theorem batchDelta_calm_add_interrupted (s : States) (logs : List LogReceipt) (u reserve : String) :
    batchDelta lib u reserve (calmLogs lib s logs)
      + batchDelta lib u reserve (interruptedLogs lib s logs) = batchDelta lib u reserve logs := by
  conv_rhs => rw [← List.takeWhile_append_dropWhile
    (p := fun log ↦ !log.raises lib s.ctokens s.plugIn.isSome) (l := logs)]
  rw [batchDelta, batchDelta, batchDelta, List.map_append, List.sum_append]
  rfl

variable {s₀ : States} {targetBlock : ℤ}

/-- One message keeps the balances right exactly when it is counted right. -/
theorem appliedOnce_deliver_iff {past : List Delivery} {d : Delivery} {g : Globals States}
    (hcarries : d.Carries lib logsOf) (hmoved : ∃ m, s₀.Moved m g.states)
    (h : AppliedOnce lib logsOf s₀ targetBlock past g.states) :
    AppliedOnce lib logsOf s₀ targetBlock (past ++ [d]) (g.deliver lib d).states
      ↔ d.CountedRight lib logsOf s₀ targetBlock past g.states.lastUpdate := by
  obtain ⟨m, hmoved⟩ := hmoved
  simp only [AppliedOnce, sum_deliveredBlocks_concat, Delivery.CountedRight, MovesNothing]
  by_cases hcovered : d.blockNum ≤ s₀.lastUpdate ∨
      d.blockNum ∈ deliveredBlocks s₀.lastUpdate targetBlock past
  · simp only [hcovered, if_true, add_zero]
    rcases lt_or_ge d.blockNum g.states.lastUpdate with hlt | hge
    · rw [deliver_of_lt hcarries hlt]
      simp only [hlt, not_le.mpr hlt, not_true_eq_false, false_implies, implies_true, and_self,
        iff_true]
      exact h
    · simp only [(moved_deliver hcarries hge).colAmount, h _ _, hmoved.calmLogs, hge,
        not_lt.mpr hge, not_true_eq_false, false_implies, true_implies, and_true, true_and]
      exact forall₂_congr fun u reserve ↦ by rw [add_eq_left]
  · simp only [hcovered, if_false]
    rcases lt_or_ge d.blockNum g.states.lastUpdate with hlt | hge
    · rw [deliver_of_lt hcarries hlt]
      simp only [hlt, not_le.mpr hlt, not_false_eq_true, false_implies, true_implies, and_true]
      exact forall₂_congr fun u reserve ↦ by rw [h u reserve, ← add_assoc, left_eq_add]
    · simp only [(moved_deliver hcarries hge).colAmount, h _ _, hmoved.calmLogs, hge,
        not_lt.mpr hge, not_false_eq_true, false_implies, true_implies, true_and]
      refine forall₂_congr fun u reserve ↦ ?_
      rw [← batchDelta_calm_add_interrupted s₀ (logsOf d.blockNum) u reserve]
      constructor
      · intro heq
        linarith
      · intro heq
        linarith

theorem moved_run {deliveries : List Delivery} (hcarries : ∀ d ∈ deliveries, d.Carries lib logsOf)
    {g : Globals States} (hmoved : ∃ m, s₀.Moved m g.states) :
    ∀ past, past <+: deliveries →
      ∃ m, s₀.Moved m (runFrom (Globals.deliver lib) g past).states := by
  refine forall_prefix deliveries hmoved fun past d hpre ⟨m, hm⟩ ↦ ?_
  rw [runFrom_concat]
  have hd := hcarries d (hpre.subset (List.mem_append_right past (List.mem_singleton_self d)))
  rcases lt_or_ge d.blockNum (runFrom (Globals.deliver lib) g past).states.lastUpdate with hlt | hge
  · rw [deliver_of_lt hd hlt]
    exact ⟨m, hm⟩
  · exact ⟨_, hm.trans (moved_deliver hd hge)⟩

/-- **The hand-over.** After a synchronisation to a target block that completes, every balance has
every delivered transfer exactly once, at every point of the run of messages, if and only if every
message of the run is counted right. -/
theorem applied_once_iff {node : EthNode} (hnode : node.Exact logsOf) {delay : ℤ}
    (htarget : node.getBlockNumber = .ok (targetBlock + delay)) (g : Globals States)
    {g₁ : Globals States}
    (hsync : (onObject (plainStates.syncStates lib node delay)).run g = (.ok (), g₁))
    {deliveries : List Delivery} (hcarries : ∀ d ∈ deliveries, d.Carries lib logsOf) :
    (∀ past, past <+: deliveries → AppliedOnce lib logsOf g.states targetBlock past
        (runFrom (Globals.deliver lib) g₁ past).states) ↔
      ∀ past d, past ++ [d] <+: deliveries → d.CountedRight lib logsOf g.states targetBlock past
        (runFrom (Globals.deliver lib) g₁ past).states.lastUpdate := by
  rw [onObject, Proc.run_zoom, Prod.mk.injEq] at hsync
  have hstates : (plainStates.syncStates lib node delay).run g.states = (.ok (), g₁.states) :=
    Prod.ext hsync.1 (congrArg Globals.states hsync.2)
  obtain ⟨-, hmoved⟩ := syncStates_ok hnode htarget hstates
  refine forall_prefix_iff deliveries (fun u reserve ↦ ?_) fun past d hpre h ↦ ?_
  · rw [runFrom_nil, hmoved.colAmount]
    congr 2
    simp [deliveredBlocks]
  · rw [runFrom_concat]
    exact appliedOnce_deliver_iff
      (hcarries d (hpre.subset (List.mem_append_right past (List.mem_singleton_self d))))
      (moved_run hcarries ⟨_, hmoved⟩ past ((List.prefix_append past [d]).trans hpre)) h

end Handover

/-! ## A block that comes twice -/

/-- A program that knows one market. -/
def newMarketGlobals : Globals States := { idleGlobals [] with states := newMarketStates }

/-- The mint as the light node pushes it. -/
def mintDelivery : Delivery where
  response :=
    { blockHash := "0x"
      blockNumber := 101
      events := some [
        { address := "0xa07c5b74c9b40447a954e1466938b865b6bbea36"
          topics := mintLog.topics.map hexBytesHex
          txIndex := 0
          data := mintLog.data
          transactionHash := "0x" }] }
  node := ⟨fun _ ↦ .ok ["0xA07c5b74C9B40447a954e1466938b865b6BBea36"], fun _ ↦ .ok 0⟩
  clock := ⟨⟨0, fun _ ↦ 0⟩, 0, fun _ ↦ rfl, fun _ ↦ le_rfl, le_rfl⟩

theorem carries_mintDelivery : mintDelivery.Carries mintLibs mintedChain.logsOf := by
  have hempty : bytesFromPrefixed "0x" = .ok [] := bytesFromPrefixed_hexBytesHex []
  have haddress : mintLibs.toChecksumAddress "0xa07c5b74c9b40447a954e1466938b865b6bbea36"
      = .ok "0xA07c5b74C9B40447a954e1466938b865b6BBea36" := rfl
  rw [Delivery.Carries, mintDelivery, converter]
  simp only [List.mapM_cons, List.mapM_nil, converterEvent, haddress, mapM_bytesFromPrefixed,
    hempty]
  rfl

theorem update_mintLog : States.update mintLibs mintLog
    = (States.updatePlugIn mintLibs mintLog >>= fun _ ↦
      States.applyChange "0xA07c5b74C9B40447a954e1466938b865b6BBea36"
        (.transfer "0xa07c5b74c9b40447a954e1466938b865b6bbea36"
          "0x9109358674f1c9a1a945a1d9880fb7ef1ddc43a3" 9)) := by
  rw [States.update_eq, States.applyUsers, usersChange_mintLibs]
  rfl

/-- What the cache does with the mint. -/
theorem updateAll_mintLog : highProfitSates.updateAll mintLibs [mintLog] ∅
    = (do
      let types ← Proc.zoom HighProfitSates.toStates
        (fun s h ↦ HighProfitSates.writeThrough { h with toStates := s })
        (States.updatePlugIn mintLibs mintLog >>= fun _ ↦
          States.applyChange "0xA07c5b74C9B40447a954e1466938b865b6BBea36"
            (.transfer "0xa07c5b74c9b40447a954e1466938b865b6bbea36"
              "0x9109358674f1c9a1a945a1d9880fb7ef1ddc43a3" 9))
      Proc.forEach types.entries fun e ↦
        if e.2 = .added then Proc.modify (HighProfitSates.mergeUser e.1) else pure ()
      Proc.modify fun h ↦ { h with updateUsers := h.updateUsers.update types }
      return types) >>= fun temp ↦ pure (Dict.update ∅ temp) := by
  rw [← update_mintLog]
  rfl

theorem converter_mintDelivery : converter mintLibs mintDelivery.response = .ok [mintLog] := by
  have hlogs : mintedChain.logsOf mintDelivery.blockNum = [mintLog] := rfl
  rw [← hlogs]
  exact carries_mintDelivery

theorem names_mintLog : ∃ log ∈ [mintLog],
    log.names mintLibs "0x9109358674f1c9a1a945a1d9880fb7ef1ddc43a3" :=
  ⟨mintLog, List.mem_singleton_self mintLog, _, logChange_mintLibs, .inr rfl⟩

/-- A market in which a unit is worth a unit. -/
def unitMarket : CtokenInfos where
  risks := ⟨10 ^ 18, 0, 10 ^ 18, 0⟩
  balances := newCtokenBalances
  price := some (.init (10 ^ 18) 0)

/-- The program after its synchronisation to the block of the mint. -/
theorem newMarketGlobals_syncs : ∃ s₁ : States,
    (plainStates.syncStates mintLibs (mintedChain.node (101 + 0)) 0).run newMarketStates
      = (.ok (), s₁) ∧
    (onObject (plainStates.syncStates mintLibs (mintedChain.node (101 + 0)) 0)).run newMarketGlobals
      = (.ok (), { newMarketGlobals with states := s₁ }) := by
  obtain ⟨l, -, hrun⟩ := mintedChain_syncs
  refine ⟨_, hrun, ?_⟩
  have hstates : newMarketGlobals.states = newMarketStates := rfl
  have hnode : mintedChain.node (101 + 0) = mintedChain.node 101 := rfl
  rw [onObject, Proc.run_zoom, hstates, hnode, hrun]

theorem applied_once_iff_mint : ∃ g₁,
    (onObject (plainStates.syncStates mintLibs (mintedChain.node (101 + 0)) 0)).run newMarketGlobals
      = (.ok (), g₁) ∧
    ((∀ past, past <+: [mintDelivery] → AppliedOnce mintLibs mintedChain.logsOf newMarketStates 101
        past (runFrom (Globals.deliver mintLibs) g₁ past).states) ↔
      ∀ past d, past ++ [d] <+: [mintDelivery] → d.CountedRight mintLibs mintedChain.logsOf
        newMarketStates 101 past
        (runFrom (Globals.deliver mintLibs) g₁ past).states.lastUpdate) := by
  obtain ⟨s₁, -, hsync⟩ := newMarketGlobals_syncs
  have hnode := mintedChain.reports_node (101 + 0)
  refine ⟨_, hsync, applied_once_iff hnode.getLogs hnode.getBlockNumber newMarketGlobals hsync ?_⟩
  rintro d hd
  rw [List.mem_singleton.mp hd]
  exact carries_mintDelivery

/-- The block the synchronisation ended at is pushed afterwards, and its mint is counted again. -/
theorem not_applied_once_target : ∃ g₁,
    (onObject (plainStates.syncStates mintLibs (mintedChain.node (101 + 0)) 0)).run newMarketGlobals
      = (.ok (), g₁) ∧ mintDelivery.Carries mintLibs mintedChain.logsOf ∧
    ¬ ∀ past, past <+: [mintDelivery] → AppliedOnce mintLibs mintedChain.logsOf newMarketStates 101
        past (runFrom (Globals.deliver mintLibs) g₁ past).states := by
  obtain ⟨s₁, hrun, hsync⟩ := newMarketGlobals_syncs
  refine ⟨_, hsync, carries_mintDelivery, fun hall ↦ ?_⟩
  have hnode := mintedChain.reports_node (101 + 0)
  obtain ⟨hlast, hmoved⟩ := syncStates_ok hnode.getLogs hnode.getBlockNumber hrun
  have hlast' : s₁.lastUpdate = 101 := hlast
  have hbefore := hall [] List.nil_prefix
  have hafter := hall [mintDelivery] (List.prefix_refl _)
  rw [runFrom_nil] at hbefore
  rw [runFrom_singleton, ← List.nil_append [mintDelivery]] at hafter
  have hcounted := (appliedOnce_deliver_iff carries_mintDelivery ⟨_, hmoved⟩ hbefore).mp hafter
  have hcovered : mintDelivery.blockNum ∈ deliveredBlocks newMarketStates.lastUpdate 101 [] := by
    decide
  have hnothing := hcounted.2.1 hlast'.le (.inr hcovered)
    "0x9109358674f1c9a1a945a1d9880fb7ef1ddc43a3" "0xA07c5b74C9B40447a954e1466938b865b6BBea36"
  have hlogs : mintedChain.logsOf mintDelivery.blockNum = [mintLog] := rfl
  have hcalm : calmLogs mintLibs newMarketStates [mintLog] = [mintLog] :=
    calmLogs_of_calm fun log hlog ↦ List.mem_singleton.mp hlog ▸ raises_mintLog
  rw [hlogs, hcalm, batchDelta, List.map_singleton, List.sum_singleton, LogReceipt.colDelta,
    logChange_mintLibs] at hnothing
  exact absurd hnothing (by decide)

end CompoundLiquidation
