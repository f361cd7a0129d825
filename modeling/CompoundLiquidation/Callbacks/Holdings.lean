import CompoundLiquidation.Callbacks.Users
import CompoundLiquidation.Users.Agreement

/-!
# Changes that change nothing

Between two states a user may hold the same amounts and every market may stand as before, although
a log has been applied in between: a transfer of nothing, a transfer to oneself, an amount that
is already there, or a log about a market that is not known. Which changes these are depends on the
change and the state before. A record that was made blank holds as much as no record.
-/

namespace CompoundLiquidation

open Python

/-! ## What users hold -/

namespace States

/-- The record of a user in a market, a blank one where there is none. -/
def record (s : States) (u reserve : String) : CompReserve :=
  ((s.usersStates.get? u).bind (·.reserves.get? reserve)).getD newReserve

/-- The balance of a user in a market, the debt and its index. -/
def holding (s : States) (u reserve : String) : ℤ × ℤ × ℤ := (s.record u reserve).amounts

theorem record_eq (s : States) (u reserve : String) :
    (s.usersStates.getD u newUserStates).reserves.getD reserve newReserve = s.record u reserve := by
  rw [record]
  rcases hu : s.usersStates.get? u with _ | states
  · rw [Dict.getD_of_get?_eq_none hu]
    rfl
  · rw [Dict.getD_of_get? hu]
    rfl

/-- The risks and the balances of a market. -/
def market (s : States) (reserve : String) : Option (CtokenRiskParams × CtokenBalances) :=
  (s.ctokens.get? reserve).map fun infos ↦ (infos.risks, infos.balances)

/-- All balances, debts, token risks and token balances are the same. -/
structure SameHoldings (s s' : States) : Prop where
  users : ∀ u reserve, s'.holding u reserve = s.holding u reserve
  markets : ∀ reserve, s'.market reserve = s.market reserve

namespace SameHoldings

theorem refl (s : States) : s.SameHoldings s := ⟨fun _ _ ↦ rfl, fun _ ↦ rfl⟩

theorem symm {s s' : States} (h : s.SameHoldings s') : s'.SameHoldings s :=
  ⟨fun u reserve ↦ (h.users u reserve).symm, fun reserve ↦ (h.markets reserve).symm⟩

theorem trans {s s' s'' : States} (h : s.SameHoldings s') (h' : s'.SameHoldings s'') :
    s.SameHoldings s'' :=
  ⟨fun u reserve ↦ (h'.users u reserve).trans (h.users u reserve),
    fun reserve ↦ (h'.markets reserve).trans (h.markets reserve)⟩

end SameHoldings

/-- An assignment to the states of one user that leaves the amounts alone. -/
theorem sameHoldings_modify (usr : String) (f : UserStates → UserStates)
    (hf : ∀ states reserve, ((f states).reserves.get? reserve).map CompReserve.amounts
      = (states.reserves.get? reserve).map CompReserve.amounts) (s : States) :
    s.SameHoldings { s with usersStates := s.usersStates.modify usr f } := by
  have hamounts : ∀ x : Option CompReserve,
      (x.getD newReserve).amounts = (x.map CompReserve.amounts).getD newReserve.amounts :=
    fun x ↦ by cases x <;> rfl
  refine ⟨fun u reserve ↦ ?_, fun _ ↦ rfl⟩
  rw [holding, holding, record, record, hamounts, hamounts, Dict.get?_modify]
  split_ifs
  · rcases s.usersStates.get? u with _ | states
    · rfl
    · exact congrArg (Option.getD · _) (hf states reserve)
  · rfl

theorem sameHoldings_setHealthFactor (usr : String) (hf : HealthFactor) (s : States) :
    s.SameHoldings (s.setHealthFactor usr hf) :=
  sameHoldings_modify usr (fun states ↦ { states with healthFactor := hf }) (fun _ _ ↦ rfl) s

theorem sameHoldings_setVaiRepay (usr : String) (vaiRepay : ℤ) (s : States) :
    s.SameHoldings (s.setVaiRepay usr vaiRepay) :=
  sameHoldings_modify usr (fun states ↦ { states with vaiRepay := vaiRepay }) (fun _ _ ↦ rfl) s

theorem sameHoldings_refreshFlags (usr : String) (assets : List String) (s : States) :
    s.SameHoldings (s.refreshFlags usr assets) := by
  refine sameHoldings_modify usr (UserStates.withFlags assets) (fun states reserve ↦ ?_) s
  rw [UserStates.withFlags, Dict.get?_mapWithKey, Option.map_map]
  rfl

end States

/-! ## Idle changes -/

/-- The change writes what is already there. -/
def UsersChange.Idle (s : States) (reserve : String) : UsersChange → Prop
  | .transfer fromUser toUser amount =>
    amount = 0 ∨ fromUser = toUser ∨
      ((fromUser = reserve.toLower ∨ toUser = reserve.toLower) ∧ s.ctokens.get? reserve = none)
  | .debt borrower amount totalBorrow =>
    (s.holding borrower reserve).2.1 = amount ∧
      ∀ infos, s.ctokens.get? reserve = some infos →
        (s.holding borrower reserve).2.2 = infos.risks.borrowIndex ∧
          infos.balances.totalBorrow = totalBorrow
  | .accrueInterest interestAccumulated borrowIndex totalBorrow =>
    ∀ infos, s.ctokens.get? reserve = some infos →
      infos.risks.borrowIndex = borrowIndex ∧ infos.balances.totalBorrow = totalBorrow ∧
        infos.risks.reserveFactor * interestAccumulated / expScale = 0
  | .totalReserve new =>
    ∀ infos, s.ctokens.get? reserve = some infos → infos.balances.totalReserve = new
  | .reserveFactor new =>
    ∀ infos, s.ctokens.get? reserve = some infos → infos.risks.reserveFactor = new

section Applied

variable {reserve : String} {change : UsersChange} {s s' : States}

/-- The record after a change: one record of each user it names is written. -/
theorem Applied.record_eq (h : Applied reserve change s s') (u key : String) :
    s'.record u key = match change.post s.ctokens reserve u with
      | none => s.record u key
      | some f => if key = reserve then f (s.record u reserve) else s.record u key := by
  have hu := h.users u
  rcases hpost : change.post s.ctokens reserve u with _ | f
  · rw [hpost] at hu
    exact congrArg (fun states ↦ (Option.bind states (·.reserves.get? key)).getD newReserve) hu
  · rw [hpost] at hu
    simp only at hu
    rw [States.record, hu, Option.bind_some, UserStates.touch, Dict.get?_set, s.record_eq]
    simp only
    split_ifs with hkey
    · rfl
    · rw [← s.record_eq]
      rfl

theorem Applied.users_iff (h : Applied reserve change s s') :
    (∀ u key, s'.holding u key = s.holding u key) ↔
      ∀ u f, change.post s.ctokens reserve u = some f →
        (f (s.record u reserve)).amounts = s.holding u reserve := by
  constructor
  · intro hsame u f hf
    have hu := hsame u reserve
    rw [States.holding, h.record_eq u reserve, hf] at hu
    simpa only [↓reduceIte] using hu
  · intro hwritten u key
    rw [States.holding, h.record_eq u key]
    rcases hpost : change.post s.ctokens reserve u with _ | f
    · rfl
    · simp only
      split_ifs with hkey
      · rw [hwritten u f hpost, hkey]
      · rfl

/-- One market may change. -/
theorem market_modify_iff {f : CtokenInfos → CtokenInfos}
    (hctk : s'.ctokens = s.ctokens.modify reserve f) :
    (∀ key, s'.market key = s.market key) ↔
      ∀ infos, s.ctokens.get? reserve = some infos →
        (f infos).risks = infos.risks ∧ (f infos).balances = infos.balances := by
  have hmarket : ∀ key, s'.market key = if key = reserve then
      (s.ctokens.get? key).map fun infos ↦ ((f infos).risks, (f infos).balances)
      else s.market key := by
    intro key
    rw [States.market, States.market, hctk, Dict.get?_modify]
    split_ifs
    · rw [Option.map_map]
      rfl
    · rfl
  constructor
  · intro hsame infos hinfos
    have hkey := hsame reserve
    rw [hmarket, if_pos rfl, States.market, hinfos, Option.map_some, Option.map_some,
      Option.some_inj, Prod.mk.injEq] at hkey
    exact hkey
  · intro hwritten key
    rw [hmarket]
    split_ifs with hkey
    · subst hkey
      rw [States.market]
      rcases hinfos : s.ctokens.get? key with _ | infos
      · rfl
      · obtain ⟨hrisks, hbalances⟩ := hwritten infos hinfos
        rw [Option.map_some, Option.map_some, hrisks, hbalances]
    · rfl

/-- A change of one market only. -/
theorem Applied.sameHoldings_iff_of_market (h : Applied reserve change s s')
    (hpost : ∀ u, change.post s.ctokens reserve u = none) {f : CtokenInfos → CtokenInfos}
    (hctk : change.onCtokens reserve s.ctokens = s.ctokens.modify reserve f) :
    s.SameHoldings s' ↔ ∀ infos, s.ctokens.get? reserve = some infos →
      (f infos).risks = infos.risks ∧ (f infos).balances = infos.balances := by
  rw [← market_modify_iff (h.ctokens.trans hctk)]
  refine ⟨fun hsame ↦ hsame.markets, fun hmarkets ↦ ⟨h.users_iff.mpr fun u f hf ↦ ?_, hmarkets⟩⟩
  rw [hpost u] at hf
  cases hf

/-- A transfer that moves nothing between two users moves nothing between the users and the
market. -/
theorem onCtokens_transfer {fromUser toUser : String} {amount : ℤ}
    (hidle : (UsersChange.transfer fromUser toUser amount).Idle s reserve) (key : String) :
    (((UsersChange.transfer fromUser toUser amount).onCtokens reserve s.ctokens).get? key)
      = s.ctokens.get? key := by
  simp only [UsersChange.onCtokens]
  rcases hidle with rfl | rfl | ⟨-, hnone⟩
  · -- adding nothing to the supply
    have hzero : ∀ ctk : Dict String CtokenInfos, (ctk.modify reserve fun infos ↦
        { infos with balances.totalSupply := infos.balances.totalSupply + 0 }) = ctk := by
      intro ctk
      simp only [add_zero]
      exact Dict.modify_id ctk reserve
    simp only [neg_zero, hzero, ite_self]
  · split_ifs
    · rw [Dict.modify_modify]
      simp only [add_neg_cancel_right]
      rw [Dict.modify_id]
    · rfl
  · simp only [Dict.modify_of_get?_eq_none _ hnone, ite_self]

/-- A transfer moves something, or it is one of three. -/
theorem Applied.sameHoldings_iff_of_transfer {fromUser toUser : String} {amount : ℤ}
    (h : Applied reserve (.transfer fromUser toUser amount) s s') :
    s.SameHoldings s' ↔ (UsersChange.transfer fromUser toUser amount).Idle s reserve := by
  have hraises : (UsersChange.transfer fromUser toUser amount).raises s.ctokens reserve = true ↔
      (fromUser = reserve.toLower ∨ toUser = reserve.toLower) ∧
        s.ctokens.get? reserve = none := by
    rw [UsersChange.raises, Bool.and_eq_true, Bool.or_eq_true, decide_eq_true_eq,
      decide_eq_true_eq, Option.isNone_iff_eq_none]
  constructor
  · intro hsame
    by_contra hnot
    simp only [UsersChange.Idle, not_or] at hnot
    obtain ⟨hamount, hother, hmoves⟩ := hnot
    have hwritten := h.users_iff.mp hsame.users fromUser
    simp only [UsersChange.post, true_or, ↓reduceIte, Option.some_inj, forall_eq',
      if_neg (mt hraises.mp hmoves)] at hwritten
    have hcol := congrArg Prod.fst hwritten
    simp only [UsersChange.transferDelta, if_neg hother, ↓reduceIte, CompReserve.amounts,
      States.holding] at hcol
    omega
  · intro hidle
    refine ⟨h.users_iff.mpr fun u f hf ↦ ?_, fun key ↦ ?_⟩
    · simp only [UsersChange.post, Option.ite_none_right_eq_some, Option.some_inj] at hf
      obtain ⟨-, rfl⟩ := hf
      split_ifs with hr
      · rfl
      · have hzero : UsersChange.transferDelta fromUser toUser amount u = 0 := by
          rcases hidle with rfl | rfl | hmoves
          · rw [UsersChange.transferDelta, ite_self, ite_self, sub_self]
          · rw [UsersChange.transferDelta, sub_self]
          · exact absurd (hraises.mpr hmoves) hr
        simp only [hzero, add_zero]
        rfl
    · rw [States.market, States.market, h.ctokens, onCtokens_transfer hidle]

/-- A debt is there already, with the index of its market. -/
theorem Applied.users_iff_of_debt {borrower : String} {amount totalBorrow : ℤ}
    (h : Applied reserve (.debt borrower amount totalBorrow) s s') :
    (∀ u key, s'.holding u key = s.holding u key) ↔
      (s.holding borrower reserve).2.1 = amount ∧ ∀ infos, s.ctokens.get? reserve = some infos →
        (s.holding borrower reserve).2.2 = infos.risks.borrowIndex := by
  have hborrower : (∀ u f, (UsersChange.debt borrower amount totalBorrow).post s.ctokens reserve u
        = some f → (f (s.record u reserve)).amounts = s.holding u reserve) ↔
      ∀ f, (UsersChange.debt borrower amount totalBorrow).post s.ctokens reserve borrower = some f →
        (f (s.record borrower reserve)).amounts = s.holding borrower reserve := by
    refine ⟨fun hwritten ↦ hwritten borrower, fun hwritten u f hf ↦ ?_⟩
    obtain rfl : u = borrower := by
      by_contra hother
      rw [UsersChange.post, if_neg hother] at hf
      cases hf
    exact hwritten f hf
  rw [h.users_iff, hborrower]
  simp only [UsersChange.post, ↓reduceIte, Option.some_inj, forall_eq', States.holding]
  rcases s.ctokens.get? reserve with _ | infos
  · simp only [CompReserve.amounts, Prod.mk.injEq, reduceCtorEq, false_imp_iff, implies_true,
      and_true, true_and]
    exact eq_comm
  · simp only [CompReserve.amounts, Prod.mk.injEq, true_and, Option.some_inj, forall_eq']
    exact and_congr eq_comm eq_comm

theorem Applied.sameHoldings_iff_of_debt {borrower : String} {amount totalBorrow : ℤ}
    (h : Applied reserve (.debt borrower amount totalBorrow) s s') :
    s.SameHoldings s' ↔ (UsersChange.debt borrower amount totalBorrow).Idle s reserve := by
  have hmarkets := market_modify_iff h.ctokens
  have hbalances : ∀ balances : CtokenBalances,
      ({ balances with totalBorrow := totalBorrow } : CtokenBalances) = balances ↔
        balances.totalBorrow = totalBorrow := by
    intro balances
    simp only [CtokenBalances.ext_iff, true_and, and_true]
    exact eq_comm
  simp only [true_and, hbalances] at hmarkets
  constructor
  · intro hsame
    obtain ⟨hdebt, hindex⟩ := h.users_iff_of_debt.mp hsame.users
    exact ⟨hdebt, fun infos hinfos ↦
      ⟨hindex infos hinfos, hmarkets.mp hsame.markets infos hinfos⟩⟩
  · rintro ⟨hdebt, hmarket⟩
    exact ⟨h.users_iff_of_debt.mpr ⟨hdebt, fun infos hinfos ↦ (hmarket infos hinfos).1⟩,
      hmarkets.mpr fun infos hinfos ↦ (hmarket infos hinfos).2⟩

/-- **Changes that change nothing.** Applying a change leaves all amounts as they are iff it is
idle. -/
theorem Applied.sameHoldings_iff (h : Applied reserve change s s') :
    s.SameHoldings s' ↔ change.Idle s reserve := by
  rcases change with ⟨fromUser, toUser, amount⟩ | ⟨borrower, amount, totalBorrow⟩ |
    ⟨interestAccumulated, borrowIndex, totalBorrow⟩ | new | new
  · exact h.sameHoldings_iff_of_transfer
  · exact h.sameHoldings_iff_of_debt
  · rw [h.sameHoldings_iff_of_market (fun _ ↦ rfl) rfl]
    refine forall_congr' fun infos ↦ imp_congr_right fun _ ↦ ?_
    obtain ⟨⟨index, factor, rate, seized⟩, ⟨reserves, borrow, supply⟩, price⟩ := infos
    simp only [CtokenRiskParams.mk.injEq, CtokenBalances.mk.injEq, and_true]
    omega
  · rw [h.sameHoldings_iff_of_market (fun _ ↦ rfl) rfl]
    refine forall_congr' fun infos ↦ imp_congr_right fun _ ↦ ?_
    obtain ⟨risks, ⟨reserves, borrow, supply⟩, price⟩ := infos
    simp only [CtokenBalances.mk.injEq, true_and, and_true]
    exact eq_comm
  · rw [h.sameHoldings_iff_of_market (fun _ ↦ rfl) rfl]
    refine forall_congr' fun infos ↦ imp_congr_right fun _ ↦ ?_
    obtain ⟨⟨index, factor, rate, seized⟩, balances, price⟩ := infos
    simp only [CtokenRiskParams.mk.injEq, true_and, and_true]
    exact eq_comm

end Applied

/-- The log is not read as a change, or as an idle one. -/
def LogReceipt.Idle (lib : EthLibs) (s : States) (log : LogReceipt) : Prop :=
  ∀ reserve change, States.logChange lib log = some (reserve, change) → change.Idle s reserve

theorem sameHoldings_step_iff (lib : EthLibs) (log : LogReceipt) (s : States) :
    s.SameHoldings (s.step lib log) ↔ log.Idle lib s := by
  rcases hchange : States.logChange lib log with _ | ⟨reserve, change⟩
  · obtain ⟨plugIn, hstate⟩ := (States.run_update_of_no_change hchange s).2
    refine iff_of_true ?_ fun reserve change hlog ↦ ?_
    · rw [States.step, hstate]
      exact ⟨fun _ _ ↦ rfl, fun _ ↦ rfl⟩
    · rw [hchange] at hlog
      cases hlog
  · rw [(States.applied_step hchange s).sameHoldings_iff, LogReceipt.Idle, hchange]
    refine ⟨fun hidle market read hread ↦ ?_, fun hidle ↦ hidle reserve change rfl⟩
    obtain ⟨rfl, rfl⟩ := Prod.mk.inj (Option.some.inj hread)
    exact hidle

end CompoundLiquidation
