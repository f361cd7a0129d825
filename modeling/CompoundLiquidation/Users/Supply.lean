import CompoundLiquidation.Python.Run
import CompoundLiquidation.Python.Sum
import CompoundLiquidation.Users.Effects
import CompoundLiquidation.Users.Persist

/-!
# Supply under replay

A market mints by a transfer from its own address and redeems by a transfer to it. The replay books
such a transfer on the market's address as on any other and moves `total_supply` along. So what the
users hold is the supply and what the market's address holds is its negative, and every log keeps
both, whether sender and receiver are two users, one user, or the market itself on either side.
-/

namespace CompoundLiquidation

open Python
open scoped BigOperators

/-! ## Balances -/

namespace States

/-- The collateral in a market of all users except the market's own address. -/
def heldByUsers (s : States) (reserve : String) : ℤ :=
  s.usersStates.sum fun u states ↦ if u = reserve.toLower then 0
    else (states.reserves.get? reserve).elim 0 CompReserve.colAmount

theorem heldByUsers_eq (s : States) (reserve : String) {K : Finset String}
    (hK : ∀ u ∈ s.usersStates.keys, u ∈ K) : s.heldByUsers reserve
      = ∑ u ∈ K, if u = reserve.toLower then 0 else s.colAmount u reserve := by
  rw [heldByUsers, Dict.sum_eq_finsetSum _ hK]
  refine Finset.sum_congr rfl fun u _ ↦ ?_
  rw [colAmount]
  rcases s.usersStates.get? u with _ | states
  · rw [Option.elim_none, Option.bind_none, Option.elim_none, ite_self]
  · rfl

/-- For every market the users hold the supply and its own address the negative of it. -/
def SupplyConserved (s : States) : Prop :=
  ∀ reserve infos, s.ctokens.get? reserve = some infos →
    s.heldByUsers reserve = infos.balances.totalSupply ∧
      s.colAmount reserve.toLower reserve = - infos.balances.totalSupply

end States

/-! ## Logs -/

section Log

variable {lib : EthLibs} {log : LogReceipt}

/-- What a log adds to the supply of a market. -/
def LogReceipt.supplyDelta (lib : EthLibs) (reserve : String) (log : LogReceipt) : ℤ :=
  match States.logChange lib log with
  | some (market, .transfer fromUser toUser amount) => if market = reserve then
      (if fromUser = reserve.toLower then amount else 0)
        - if toUser = reserve.toLower then amount else 0
    else 0
  | _ => 0

theorem totalSupply_step {s : States} {reserve : String} {infos : CtokenInfos}
    (h : s.ctokens.get? reserve = some infos) :
    ∃ infos', (s.step lib log).ctokens.get? reserve = some infos' ∧
      infos'.balances.totalSupply = infos.balances.totalSupply + log.supplyDelta lib reserve := by
  rw [States.ctokens_step, LogReceipt.supplyDelta]
  rcases States.logChange lib log with _ | ⟨market, change⟩
  · exact ⟨infos, h, (add_zero _).symm⟩
  have hmodify : ∀ f : CtokenInfos → CtokenInfos,
      (∀ i, (f i).balances.totalSupply = i.balances.totalSupply) →
      ∃ infos', (s.ctokens.modify market f).get? reserve = some infos' ∧
        infos'.balances.totalSupply = infos.balances.totalSupply + 0 := by
    intro f hf
    rw [Dict.get?_modify, h, add_zero]
    split_ifs
    · exact ⟨_, rfl, hf infos⟩
    · exact ⟨infos, rfl, rfl⟩
  rcases change with ⟨fromUser, toUser, amount⟩ | ⟨borrower, amount, totalBorrow⟩ | _ | _ | _
  · simp only [UsersChange.onCtokens]
    by_cases hmarket : market = reserve
    · subst hmarket
      rw [if_pos rfl]
      by_cases hfrom : fromUser = market.toLower
      · by_cases hto : toUser = market.toLower
        · simp [hfrom, hto, h]
        · simp [hfrom, hto, h]
      · by_cases hto : toUser = market.toLower
        · simp [hfrom, hto, h]
        · simp [hfrom, hto, h]
    · have hne : reserve ≠ market := fun heq ↦ hmarket heq.symm
      rw [if_neg hmarket]
      refine ⟨infos, ?_, (add_zero _).symm⟩
      split_ifs
      · rw [Dict.get?_modify_of_ne _ _ hne, Dict.get?_modify_of_ne _ _ hne, h]
      · rw [Dict.get?_modify_of_ne _ _ hne, h]
      · rw [Dict.get?_modify_of_ne _ _ hne, h]
      · exact h
  all_goals exact hmodify _ fun _ ↦ rfl

/-- A log about a known market does not raise. -/
private theorem raises_of_transfer {s : States} {market fromUser toUser : String} {amount : ℤ}
    {infos : CtokenInfos} (h : s.ctokens.get? market = some infos)
    (hchange : States.logChange lib log = some (market, .transfer fromUser toUser amount)) :
    log.raises lib s.ctokens s.plugIn.isSome = false := by
  have husers := States.usersChange_of_logChange hchange
  rw [LogReceipt.raises, States.vaiChange_of_usersChange husers, husers]
  simp [UsersChange.raises, h, Except.isOk, Except.toBool]

/-- A log that moves collateral in a known market moves it for the two users it names. -/
private theorem colAmount_step_of_known {s : States} {reserve : String} {infos : CtokenInfos}
    (h : s.ctokens.get? reserve = some infos) (u : String) :
    (s.step lib log).colAmount u reserve = s.colAmount u reserve + log.colDelta lib u reserve := by
  rw [States.colAmount_step]
  by_cases hraises : log.raises lib s.ctokens s.plugIn.isSome = true
  · have hzero : log.colDelta lib u reserve = 0 := by
      rw [LogReceipt.colDelta]
      rcases hchange : States.logChange lib log with _ | ⟨market, change⟩
      · rfl
      · rcases change with ⟨fromUser, toUser, amount⟩ | _ | _ | _ | _
        · refine if_neg fun hmarket ↦ ?_
          rw [raises_of_transfer (hmarket ▸ h) hchange] at hraises
          exact Bool.false_ne_true hraises
        all_goals rfl
    rw [if_pos hraises, hzero]
  · rw [if_neg hraises]

private theorem ite_sub_ite_zero (p : Prop) [Decidable p] (a b : ℤ) :
    ((if p then 0 else a) - if p then 0 else b) = if p then 0 else a - b := by
  by_cases hp : p
  · rw [if_pos hp, if_pos hp, if_pos hp, sub_self]
  · rw [if_neg hp, if_neg hp, if_neg hp]

private theorem ite_ite_comm (u v own : String) (a : ℤ) :
    (if u = own then 0 else if u = v then a else 0)
      = if u = v then (if v = own then 0 else a) else 0 := by
  by_cases hv : u = v
  · rw [if_pos hv, if_pos hv, hv]
  · rw [if_neg hv, if_neg hv, ite_self]

/-- What a log moves between the users other than the market moves its supply. -/
private theorem sum_colDelta {K : Finset String} (reserve : String)
    (hK : ∀ u, log.names lib u → u ∈ K) :
    (∑ u ∈ K, if u = reserve.toLower then 0 else log.colDelta lib u reserve)
      = log.supplyDelta lib reserve := by
  rcases hchange : States.logChange lib log with _ | ⟨market, change⟩
  · simp only [LogReceipt.colDelta, LogReceipt.supplyDelta, hchange, ite_self,
      Finset.sum_const_zero]
  rcases change with ⟨fromUser, toUser, amount⟩ | _ | _ | _ | _
  · simp only [LogReceipt.colDelta, LogReceipt.supplyDelta, hchange]
    by_cases hmarket : market = reserve
    · simp only [if_pos hmarket, UsersChange.transferDelta]
      have hfrom : fromUser ∈ K := hK _ ⟨_, hchange, Or.inl rfl⟩
      have hto : toUser ∈ K := hK _ ⟨_, hchange, Or.inr rfl⟩
      have hsplit : ∀ u, (if u = reserve.toLower then 0
          else (if u = toUser then amount else 0) - if u = fromUser then amount else 0)
          = (if u = toUser then (if toUser = reserve.toLower then 0 else amount) else 0)
            - if u = fromUser then (if fromUser = reserve.toLower then 0 else amount) else 0 := by
        intro u
        rw [← ite_sub_ite_zero, ite_ite_comm u toUser, ite_ite_comm u fromUser]
      rw [Finset.sum_congr rfl fun u _ ↦ hsplit u, Finset.sum_sub_distrib, Finset.sum_ite_eq',
        Finset.sum_ite_eq', if_pos hto, if_pos hfrom]
      split_ifs
      · ring
      · ring
      · ring
      · ring
    · simp only [if_neg hmarket, ite_self, Finset.sum_const_zero]
  all_goals simp only [LogReceipt.colDelta, LogReceipt.supplyDelta, hchange, ite_self,
    Finset.sum_const_zero]

/-- On the market's own address the log leaves the opposite. -/
private theorem colDelta_own (reserve : String) :
    log.colDelta lib reserve.toLower reserve = - log.supplyDelta lib reserve := by
  rw [LogReceipt.colDelta, LogReceipt.supplyDelta]
  rcases States.logChange lib log with _ | ⟨market, change⟩
  · rfl
  rcases change with ⟨fromUser, toUser, amount⟩ | _ | _ | _ | _
  · simp only [UsersChange.transferDelta]
    by_cases hmarket : market = reserve
    · rw [if_pos hmarket, if_pos hmarket, neg_sub]
      simp only [eq_comm]
    · rw [if_neg hmarket, if_neg hmarket, neg_zero]
  all_goals rfl

/-- Every log keeps the supply conserved. -/
theorem States.SupplyConserved.step {s : States} (h : s.SupplyConserved) (lib : EthLibs)
    (log : LogReceipt) : (s.step lib log).SupplyConserved := by
  intro reserve infos' hinfos'
  rcases hinfos : s.ctokens.get? reserve with _ | infos
  · have hnone := isNone_ctokens_step lib log s reserve
    rw [hinfos, hinfos', Option.isNone_some, Option.isNone_none] at hnone
    exact absurd hnone Bool.false_ne_true
  obtain ⟨hheld, hown⟩ := h reserve infos hinfos
  obtain ⟨infos₂, hinfos₂, hsupply⟩ := @totalSupply_step lib log _ _ _ hinfos
  rw [Option.some_inj.mp (hinfos'.symm.trans hinfos₂), hsupply]
  refine ⟨?_, ?_⟩
  · -- both sums over one set that holds the users of both states
    let K := s.usersStates.keys.toFinset ∪ (s.step lib log).usersStates.keys.toFinset
    have hbefore : ∀ u ∈ s.usersStates.keys, u ∈ K := fun u hu ↦
      Finset.mem_union_left _ (List.mem_toFinset.mpr hu)
    have hafter : ∀ u ∈ (s.step lib log).usersStates.keys, u ∈ K := fun u hu ↦
      Finset.mem_union_right _ (List.mem_toFinset.mpr hu)
    have hnames : ∀ u, log.names lib u → u ∈ K := fun u hu ↦
      hafter u (mem_keys_step_of_names hu s)
    have hterm : ∀ u, (if u = reserve.toLower then 0 else (s.step lib log).colAmount u reserve)
        = (if u = reserve.toLower then 0 else s.colAmount u reserve)
          + if u = reserve.toLower then 0 else log.colDelta lib u reserve := by
      intro u
      rw [colAmount_step_of_known hinfos]
      split_ifs
      · rfl
      · rfl
    rw [heldByUsers_eq _ _ hafter, Finset.sum_congr rfl fun u _ ↦ hterm u,
      Finset.sum_add_distrib, sum_colDelta reserve hnames, ← heldByUsers_eq _ _ hbefore, hheld]
  · rw [colAmount_step_of_known hinfos, hown, colDelta_own]
    ring

end Log

/-! ## Trimming and runs -/

/-- A record that `trim` takes away is one without collateral. -/
theorem States.colAmount_trim (s : States) (u reserve : String) :
    s.trim.colAmount u reserve = s.colAmount u reserve := by
  rw [colAmount, colAmount, trim, Dict.get?_mapWithKey]
  rcases s.usersStates.get? u with _ | states
  · rfl
  · simp only [Option.map_some, Option.bind_some, Dict.get?_filter]
    rcases states.reserves.get? reserve with _ | r
    · rfl
    · by_cases hempty : r.isEmpty = true
      · have hcol : r.colAmount = 0 := by
          rw [CompReserve.isEmpty, decide_eq_true_eq] at hempty
          exact hempty.1
        simp [Option.filter, hempty, hcol]
      · simp [Option.filter, hempty]

theorem States.SupplyConserved.trim {s : States} (h : s.SupplyConserved) :
    s.trim.SupplyConserved := by
  intro reserve infos hinfos
  obtain ⟨hheld, hown⟩ := h reserve infos hinfos
  have hkeys : s.trim.usersStates.keys = s.usersStates.keys := Dict.keys_mapWithKey _ _
  have hK : ∀ u ∈ s.usersStates.keys, u ∈ s.usersStates.keys.toFinset := fun u hu ↦
    List.mem_toFinset.mpr hu
  have hK' : ∀ u ∈ s.trim.usersStates.keys, u ∈ s.usersStates.keys.toFinset := by
    rw [hkeys]
    exact hK
  refine ⟨?_, by rw [colAmount_trim, hown]⟩
  rw [heldByUsers_eq _ _ hK', ← hheld, heldByUsers_eq _ _ hK]
  simp only [colAmount_trim]

/-- What is done to a state between two starts of the program. -/
inductive StatesOp where
  | update (log : LogReceipt)
  | trim
deriving DecidableEq

/-- The state after an operation. -/
def StatesOp.apply (lib : EthLibs) (s : States) : StatesOp → States
  | .update log => s.step lib log
  | .trim => s.trim

/-- **Supply conservation.** Logs of every kind and trims, in any order, keep the supply of every
market conserved. -/
theorem supplyConserved_run (lib : EthLibs) {s : States} (h : s.SupplyConserved)
    (ops : List StatesOp) : (runFrom (StatesOp.apply lib) s ops).SupplyConserved := by
  refine runFrom_invariant (fun t op ht ↦ ?_) h ops
  rcases op with log | _
  · exact ht.step lib log
  · exact ht.trim

/-- One market of which nobody has anything yet. -/
def newMarketStates : States :=
  States.new ∅ (Dict.set ∅ "0xA07c5b74C9B40447a954e1466938b865b6BBea36"
    ⟨newCtokenRisks, newCtokenBalances, none⟩) 100 ""

/-- Nine units minted to a user. -/
def mintLog : LogReceipt where
  address := "0xA07c5b74C9B40447a954e1466938b865b6BBea36"
  topics := [natToBytes 32 0xddf252ad1be2c89b69c2b068fc378daa952ba7f163c4a11628f55a4df523b3ef,
    natToBytes 32 0xA07c5b74C9B40447a954e1466938b865b6BBea36,
    natToBytes 32 0x9109358674f1c9a1a945a1d9880fb7ef1ddc43a3]
  data := hexBytesHex (natToBytes 32 9)
  blockNumber := 101
  blockHash := []
  transactionIndex := 0
  transactionHash := []

/-- The mint, read with libraries that know the address of the market. -/
theorem usersChange_mintLog {lib : EthLibs}
    (hmarket : lib.toChecksumAddress "0xA07c5b74C9B40447a954e1466938b865b6BBea36"
      = .ok "0xA07c5b74C9B40447a954e1466938b865b6BBea36")
    (hdecode : lib.decode [.uint256] (natToBytes 32 9) = .ok (9, ())) :
    usersChange lib mintLog = .ok (some ("0xA07c5b74C9B40447a954e1466938b865b6BBea36",
      .transfer "0xa07c5b74c9b40447a954e1466938b865b6bbea36"
        "0x9109358674f1c9a1a945a1d9880fb7ef1ddc43a3" 9)) := by
  have hevent : usersEventAbi (hexBytesHex (natToBytes 32
      0xddf252ad1be2c89b69c2b068fc378daa952ba7f163c4a11628f55a4df523b3ef))
      = some .transfer := by decide +kernel
  have hdata : mintLog.decodeData lib [.uint256] = .ok (9, ()) := by
    rw [LogReceipt.decodeData, mintLog, bytesFromPrefixed_hexBytesHex, ok_bind, hdecode]
  have haddress : lib.toChecksumAddress mintLog.address
      = .ok "0xA07c5b74C9B40447a954e1466938b865b6BBea36" := hmarket
  have htopic : mintLog.topic0 = .ok (hexBytesHex (natToBytes 32
      0xddf252ad1be2c89b69c2b068fc378daa952ba7f163c4a11628f55a4df523b3ef)) := rfl
  have hfrom : mintLog.topicAddress 1 = .ok "0xa07c5b74c9b40447a954e1466938b865b6bbea36" := by
    decide +kernel
  have hto : mintLog.topicAddress 2 = .ok "0x9109358674f1c9a1a945a1d9880fb7ef1ddc43a3" := by
    decide +kernel
  rw [usersChange, if_neg (by decide), htopic, ok_bind, hevent]
  simp only [LogReceipt.usersData, hdata, haddress, hfrom, hto]
  rfl

theorem supplyConserved_run_mint : (runFrom (StatesOp.apply (staticLibs
    [("0xA07c5b74C9B40447a954e1466938b865b6BBea36",
      "0xA07c5b74C9B40447a954e1466938b865b6BBea36")])) newMarketStates
    [.update mintLog, .trim]).SupplyConserved := by
  refine supplyConserved_run _ (fun reserve infos hinfos ↦ ?_) _
  have hsupply : infos.balances.totalSupply = 0 := by
    rw [newMarketStates, States.new, Dict.get?_set, Dict.get?_empty,
      Option.ite_none_right_eq_some, Option.some_inj] at hinfos
    rw [← hinfos.2]
    rfl
  rw [hsupply]
  exact ⟨rfl, rfl⟩

end CompoundLiquidation
