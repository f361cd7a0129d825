import CompoundLiquidation.Users.States

/-!
# What an update does

`States.update` is a sequence of tests and assignments. The lemmas here say once what it amounts
to, for every log and every state, so that no later proof has to follow the sequence again. A log
that is read as a change acts on the records of the users it names, one record each, by a function
that depends on the change and the cToken data alone (`UsersChange.post`). It does so also when it
raises half way, only that the function is then a different one.
-/

namespace CompoundLiquidation

open Python

/-! ## Records -/

/-- A record of the user, made blank where there is none, replaced by `f` of it. -/
def UserStates.touch (reserve : String) (f : CompReserve → CompReserve) (states : UserStates) :
    UserStates :=
  { states with
    reserves := states.reserves.set reserve (f (states.reserves.getD reserve newReserve)) }

theorem UserStates.touch_touch (reserve : String) (f g : CompReserve → CompReserve)
    (states : UserStates) : (states.touch reserve f).touch reserve g
      = states.touch reserve fun r ↦ g (f r) := by
  have hget : (states.reserves.set reserve (f (states.reserves.getD reserve newReserve))).getD
      reserve newReserve = f (states.reserves.getD reserve newReserve) :=
    Dict.getD_of_get? (Dict.get?_set_self _ _ _)
  rw [touch, touch, touch, hget, Dict.set_set]

/-- An assignment to a record that has just been touched. -/
theorem UserStates.modify_touch (reserve : String) (f g : CompReserve → CompReserve)
    (states : UserStates) :
    { states.touch reserve f with reserves := (states.touch reserve f).reserves.modify reserve g }
      = states.touch reserve fun r ↦ g (f r) := by
  rw [touch, touch]
  simp only [Dict.modify_set_self]

namespace States

/-- The same for a user, who is added where there is none. -/
def touch (user reserve : String) (f : CompReserve → CompReserve) (s : States) : States :=
  { s with usersStates :=
      s.usersStates.set user ((s.usersStates.getD user newUserStates).touch reserve f) }

@[simp] theorem ctokens_touch (user reserve : String) (f : CompReserve → CompReserve) (s : States) :
    (s.touch user reserve f).ctokens = s.ctokens := rfl

theorem get?_touch (user reserve u : String) (f : CompReserve → CompReserve) (s : States) :
    (s.touch user reserve f).usersStates.get? u = if u = user then
      some ((s.usersStates.getD user newUserStates).touch reserve f) else s.usersStates.get? u :=
  Dict.get?_set _ _ _ _

theorem touch_touch (user reserve : String) (f g : CompReserve → CompReserve) (s : States) :
    (s.touch user reserve f).touch user reserve g = s.touch user reserve fun r ↦ g (f r) := by
  have hget : (s.touch user reserve f).usersStates.getD user newUserStates
      = (s.usersStates.getD user newUserStates).touch reserve f :=
    Dict.getD_of_get? (Dict.get?_set_self _ _ _)
  rw [touch, hget, UserStates.touch_touch]
  simp only [touch, Dict.set_set]

theorem onReserve_touch (user reserve : String) (f g : CompReserve → CompReserve) (s : States) :
    (s.touch user reserve f).onReserve user reserve g
      = s.touch user reserve fun r ↦ g (f r) := by
  rw [onReserve, touch, touch]
  simp only [Dict.modify_set_self, UserStates.modify_touch]

/-- Whether `check_user_and_reserve` finds the record. -/
def changeType (usersStates : Dict String UserStates) (user reserve : String) : ChangeType :=
  match (usersStates.get? user).bind (·.reserves.get? reserve) with
  | none => .added
  | some _ => .exists

/-- `check_user_and_reserve` touches the record without changing it. -/
theorem run_checkUserAndReserve (user reserve : String) (s : States) :
    (checkUserAndReserve user reserve).run s
      = (.ok (changeType s.usersStates user reserve), s.touch user reserve id) := by
  have hstate : addReserve user reserve (addUser user s) = s.touch user reserve id := by
    rcases huser : s.usersStates.get? user with _ | states
    · have hget : s.usersStates.getD user newUserStates = newUserStates :=
        Dict.getD_of_get?_eq_none huser
      rw [addUser, huser, touch, hget, addReserve]
      simp only [Dict.modify_set_self]
      rfl
    · have hget : s.usersStates.getD user newUserStates = states := Dict.getD_of_get? huser
      rw [addUser, huser, touch, hget, addReserve]
      rcases hreserve : states.reserves.get? reserve with _ | r
      · simp only [Dict.modify_of_get?_eq_some _ huser, hreserve, UserStates.touch,
          Dict.getD_of_get?_eq_none hreserve, id_eq]
      · simp only [Dict.modify_of_get?_eq_some _ huser, hreserve, UserStates.touch,
          Dict.getD_of_get? hreserve, id_eq, Dict.set_of_get?_eq_some hreserve]
  rw [checkUserAndReserve, changeType]
  simp only [Proc.run_bind, Proc.run_read, Proc.run_modify, hstate]
  rcases (s.usersStates.get? user).bind (·.reserves.get? reserve) with _ | r
  · rfl
  · rfl

theorem get?_onReserve (user reserve u : String) (f : CompReserve → CompReserve) (s : States) :
    (s.onReserve user reserve f).usersStates.get? u = if u = user then
      (s.usersStates.get? u).map fun states ↦
        { states with reserves := states.reserves.modify reserve f }
      else s.usersStates.get? u := Dict.get?_modify _ _ _ _

/-- An assignment to a record that an earlier step has touched. -/
theorem get?_onReserve_of_touched {s s' : States} {user reserve u : String}
    {f g : CompReserve → CompReserve} (h : s'.usersStates.get? u
      = some ((s.usersStates.getD u newUserStates).touch reserve f)) :
    (s'.onReserve user reserve g).usersStates.get? u
      = some ((s.usersStates.getD u newUserStates).touch reserve fun r ↦
          if u = user then g (f r) else f r) := by
  rw [get?_onReserve, h]
  by_cases hu : u = user
  · rw [if_pos hu, Option.map_some, UserStates.modify_touch]
    simp only [if_pos hu]
  · rw [if_neg hu]
    simp only [if_neg hu]

end States

/-! ## Changes -/

namespace UsersChange

/-- The change is about a market that is not in `ctokens` and needs it there. -/
def raises (ctk : Dict String CtokenInfos) (reserve : String) : UsersChange → Bool
  | .transfer fromUser toUser _ =>
    (fromUser = reserve.toLower || toUser = reserve.toLower) && (ctk.get? reserve).isNone
  | _ => (ctk.get? reserve).isNone

/-- What a transfer adds to the collateral of a user. -/
def transferDelta (fromUser toUser : String) (amount : ℤ) (u : String) : ℤ :=
  (if u = toUser then amount else 0) - if u = fromUser then amount else 0

/-- What a change does to the user's record of its market; `none` for a user it does not name. A
transfer that raises has only looked for the records, a debt has got as far as the amount. -/
def post (ctk : Dict String CtokenInfos) (reserve : String) :
    UsersChange → String → Option (CompReserve → CompReserve)
  | .transfer fromUser toUser amount, u =>
    if u = fromUser ∨ u = toUser then some fun r ↦
      if (transfer fromUser toUser amount).raises ctk reserve then r
      else { r with colAmount := r.colAmount + transferDelta fromUser toUser amount u }
    else none
  | .debt borrower amount _, u =>
    if u = borrower then some fun r ↦
      match ctk.get? reserve with
      | none => { r with debtAmount := amount }
      | some infos => { r with debtAmount := amount, debtInterest := infos.risks.borrowIndex }
    else none
  | _, _ => none

/-- The users a change names. -/
def names : UsersChange → String → Prop
  | .transfer fromUser toUser _, u => u = fromUser ∨ u = toUser
  | .debt borrower _ _, u => u = borrower
  | _, _ => False

/-- The users a change names are those it acts on. -/
theorem post_eq_none_iff {change : UsersChange} {ctk : Dict String CtokenInfos}
    {reserve u : String} : change.post ctk reserve u = none ↔ ¬ change.names u := by
  rcases change with ⟨fromUser, toUser, amount⟩ | ⟨borrower, amount, totalBorrow⟩ | _ | _ | _
  · simp only [post, names, ite_eq_right_iff, reduceCtorEq, imp_false]
  · simp only [post, names, ite_eq_right_iff, reduceCtorEq, imp_false]
  all_goals simp only [post, names, not_false_eq_true]

/-- What a change does to the cToken data. -/
def onCtokens (reserve : String) (change : UsersChange) (ctk : Dict String CtokenInfos) :
    Dict String CtokenInfos :=
  match change with
  | .transfer fromUser toUser amount =>
    let addSupply (a : ℤ) (infos : CtokenInfos) : CtokenInfos :=
      { infos with balances.totalSupply := infos.balances.totalSupply + a }
    let ctk := if fromUser = reserve.toLower then ctk.modify reserve (addSupply amount) else ctk
    if toUser = reserve.toLower then ctk.modify reserve (addSupply (-amount)) else ctk
  | .debt _ _ totalBorrow => ctk.modify reserve fun infos ↦
      { infos with balances.totalBorrow := totalBorrow }
  | .accrueInterest interestAccumulated borrowIndex totalBorrow => ctk.modify reserve fun infos ↦
      { infos with
        risks.borrowIndex := borrowIndex
        balances.totalBorrow := totalBorrow
        balances.totalReserve := infos.balances.totalReserve
          + infos.risks.reserveFactor * interestAccumulated / expScale }
  | .totalReserve new => ctk.modify reserve fun infos ↦
      { infos with balances.totalReserve := new }
  | .reserveFactor new => ctk.modify reserve fun infos ↦
      { infos with risks.reserveFactor := new }

/-- `users_changed`. A transfer from a user to the same user looks for the record twice, and the
second time it is there. -/
def types (usersStates : Dict String UserStates) (reserve : String) :
    UsersChange → Dict String ChangeType
  | .transfer fromUser toUser _ =>
    (Dict.set ∅ fromUser (States.changeType usersStates fromUser reserve)).set toUser
      (if toUser = fromUser then .exists else States.changeType usersStates toUser reserve)
  | .debt borrower _ _ => Dict.set ∅ borrower (States.changeType usersStates borrower reserve)
  | _ => ∅

theorem mem_keys_types_iff {change : UsersChange} {usersStates : Dict String UserStates}
    {reserve u : String} : u ∈ (change.types usersStates reserve).keys ↔ change.names u := by
  rcases change with ⟨fromUser, toUser, amount⟩ | ⟨borrower, amount, totalBorrow⟩ | _ | _ | _
  · simp only [types, names, Dict.mem_keys_set, Dict.keys_empty, List.not_mem_nil, or_false]
    exact or_comm
  · simp only [types, names, Dict.mem_keys_set, Dict.keys_empty, List.not_mem_nil, or_false]
  all_goals simp only [types, names, Dict.keys_empty, List.not_mem_nil]

end UsersChange

/-- The state after a change, whether or not it raises. -/
structure Applied (reserve : String) (change : UsersChange) (s s' : States) : Prop where
  users : ∀ u, s'.usersStates.get? u = match change.post s.ctokens reserve u with
    | none => s.usersStates.get? u
    | some f => some ((s.usersStates.getD u newUserStates).touch reserve f)
  ctokens : s'.ctokens = change.onCtokens reserve s.ctokens
  lastUpdate : s'.lastUpdate = s.lastUpdate
  blockHash : s'.blockHash = s.blockHash
  plugIn : s'.plugIn = s.plugIn

/-- A user a change names is in the state after it. -/
theorem Applied.get?_of_names {reserve : String} {change : UsersChange} {s s' : States}
    (hs : Applied reserve change s s') {u : String}
    (hu : change.names u) : ∃ own, s'.usersStates.get? u = some own := by
  have hown := hs.users u
  rcases hpost : change.post s.ctokens reserve u with _ | f
  · exact absurd hu (UsersChange.post_eq_none_iff.mp hpost)
  · rw [hpost] at hown
    exact ⟨_, hown⟩

namespace States

/-- The two searches in front of a transfer. -/
private theorem run_twoChecks {α : Type} (reserve fromUser toUser : String) (s : States)
    (rest : ChangeType → ChangeType → Proc States Error α) :
    (checkUserAndReserve fromUser reserve >>= fun changeType1 ↦
      checkUserAndReserve toUser reserve >>= fun changeType2 ↦ rest changeType1 changeType2).run s
    = (rest (changeType s.usersStates fromUser reserve)
        (if toUser = fromUser then .exists else changeType s.usersStates toUser reserve)).run
        ((s.touch fromUser reserve id).touch toUser reserve id) := by
  rw [Proc.run_bind, run_checkUserAndReserve]
  simp only [Proc.run_bind, run_checkUserAndReserve]
  have htype : changeType (s.touch fromUser reserve id).usersStates toUser reserve
      = if toUser = fromUser then .exists else changeType s.usersStates toUser reserve := by
    rw [changeType, get?_touch]
    by_cases h : toUser = fromUser
    · rw [if_pos h, if_pos h, Option.bind_some, UserStates.touch, Dict.get?_set_self]
    · rw [if_neg h, if_neg h, changeType]
  rw [htype]

/-- Afterwards both records are there. -/
private theorem get?_twoTouches (reserve fromUser toUser u : String) (s : States) :
    ((s.touch fromUser reserve id).touch toUser reserve id).usersStates.get? u
      = if u = fromUser ∨ u = toUser then
          some ((s.usersStates.getD u newUserStates).touch reserve fun r ↦ r)
        else s.usersStates.get? u := by
  rw [get?_touch, get?_touch]
  by_cases hto : u = toUser
  · rw [if_pos hto, if_pos (Or.inr hto)]
    by_cases hsame : toUser = fromUser
    · rw [← hsame, Dict.getD_of_get? (by rw [get?_touch, if_pos rfl]), UserStates.touch_touch, hto]
      rfl
    · rw [Dict.getD, get?_touch, if_neg hsame, ← Dict.getD, hto]
      rfl
  · rw [if_neg hto]
    by_cases hfrom : u = fromUser
    · rw [if_pos hfrom, if_pos (Or.inl hfrom), hfrom]
      rfl
    · rw [if_neg hfrom, if_neg (not_or.mpr ⟨hfrom, hto⟩)]

/-- The two assignments at the end of a transfer. -/
private theorem get?_moveAmount {reserve fromUser toUser : String} (amount : ℤ) (s : States)
    {s' : States}
    (h : s'.usersStates = ((s.touch fromUser reserve id).touch toUser reserve id).usersStates)
    (u : String) :
    ((s'.onReserve fromUser reserve fun r ↦ { r with colAmount := r.colAmount - amount }).onReserve
      toUser reserve fun r ↦ { r with colAmount := r.colAmount + amount }).usersStates.get? u
      = if u = fromUser ∨ u = toUser then
          some ((s.usersStates.getD u newUserStates).touch reserve fun r ↦ { r with
            colAmount := r.colAmount + UsersChange.transferDelta fromUser toUser amount u })
        else s.usersStates.get? u := by
  have htwo := get?_twoTouches reserve fromUser toUser u s
  rw [← h] at htwo
  by_cases hu : u = fromUser ∨ u = toUser
  · rw [if_pos hu] at htwo
    rw [if_pos hu, get?_onReserve_of_touched (get?_onReserve_of_touched htwo)]
    congr 2
    funext r
    rw [UsersChange.transferDelta]
    split_ifs
    · simp
    · simp
    · simp [sub_eq_add_neg]
    · simp
  · rw [if_neg hu] at htwo
    obtain ⟨hfrom, hto⟩ := not_or.mp hu
    rw [if_neg hu, get?_onReserve, if_neg hto, get?_onReserve, if_neg hfrom, htwo]

private theorem run_addSupply (reserve : String) (amount : ℤ) (s : States) :
    (addSupply reserve amount).run s = match s.ctokens.get? reserve with
      | none => (.error (.keyError reserve), s)
      | some _ => (.ok (), s.onCtoken reserve fun infos ↦
          { infos with balances.totalSupply := infos.balances.totalSupply + amount }) := by
  rw [addSupply, ctoken, Proc.run_bind, Proc.run_bind, Proc.run_read]
  simp only [Proc.run_ofExcept, Dict.item]
  rcases s.ctokens.get? reserve with _ | infos
  · rfl
  · rfl

private theorem run_moveSupply (reserve fromUser toUser : String) (amount : ℤ) {s : States}
    {ctk : Dict String CtokenInfos} (hctk : s.ctokens = ctk) :
    (moveSupply reserve fromUser toUser amount).run s
      = (if (UsersChange.transfer fromUser toUser amount).raises ctk reserve then
            .error (.keyError reserve) else .ok (),
          { s with ctokens :=
              (UsersChange.transfer fromUser toUser amount).onCtokens reserve ctk }) := by
  rw [moveSupply, UsersChange.raises, UsersChange.onCtokens, ← hctk]
  rcases hinfos : s.ctokens.get? reserve with _ | infos
  · have hmodify := fun f ↦ Dict.modify_of_get?_eq_none f hinfos
    by_cases hfrom : fromUser = reserve.toLower
    · simp [hfrom, Proc.run_bind, run_addSupply, hinfos, hmodify]
    · by_cases hto : toUser = reserve.toLower
      · simp [hfrom, hto, run_addSupply, hinfos, hmodify]
      · simp [hfrom, hto]
  · by_cases hfrom : fromUser = reserve.toLower
    · by_cases hto : toUser = reserve.toLower
      · simp [hfrom, hto, Proc.run_bind, run_addSupply, hinfos, onCtoken]
      · simp [hfrom, hto, Proc.run_bind, run_addSupply, hinfos, onCtoken]
    · by_cases hto : toUser = reserve.toLower
      · simp [hfrom, hto, run_addSupply, hinfos, onCtoken]
      · simp [hfrom, hto]

private theorem applied_applyTransfer (reserve fromUser toUser : String) (amount : ℤ) (s : States) :
    ((applyTransfer reserve fromUser toUser amount).run s).1
      = (if (UsersChange.transfer fromUser toUser amount).raises s.ctokens reserve then
          .error (.keyError reserve)
        else .ok ((UsersChange.transfer fromUser toUser amount).types s.usersStates reserve)) ∧
    Applied reserve (.transfer fromUser toUser amount) s
      ((applyTransfer reserve fromUser toUser amount).run s).2 := by
  have hctk : ((s.touch fromUser reserve id).touch toUser reserve id).ctokens = s.ctokens := rfl
  rw [applyTransfer, run_twoChecks, Proc.run_bind, run_moveSupply _ _ _ _ hctk]
  by_cases hraises : (UsersChange.transfer fromUser toUser amount).raises s.ctokens reserve
  · rw [if_pos hraises, if_pos hraises]
    refine ⟨rfl, ?_, rfl, rfl, rfl, rfl⟩
    intro u
    refine (get?_twoTouches reserve fromUser toUser u s).trans ?_
    simp only [UsersChange.post, if_pos hraises]
    split_ifs
    · rfl
    · rfl
  · rw [if_neg hraises, if_neg hraises]
    simp only [Proc.run_bind, Proc.run_modify, Proc.run_pure]
    refine ⟨rfl, ?_, rfl, rfl, rfl, rfl⟩
    intro u
    refine (get?_moveAmount amount s rfl u).trans ?_
    simp only [UsersChange.post, if_neg hraises]
    split_ifs
    · rfl
    · rfl

private theorem applied_applyDebt (reserve borrower : String) (amount totalBorrow : ℤ)
    (s : States) :
    ((applyDebt reserve borrower amount totalBorrow).run s).1
      = (if (UsersChange.debt borrower amount totalBorrow).raises s.ctokens reserve then
          .error (.keyError reserve)
        else .ok ((UsersChange.debt borrower amount totalBorrow).types s.usersStates reserve)) ∧
    Applied reserve (.debt borrower amount totalBorrow) s
      ((applyDebt reserve borrower amount totalBorrow).run s).2 := by
  rw [applyDebt, Proc.run_bind, run_checkUserAndReserve]
  obtain hinfos | ⟨infos, hinfos⟩ := Option.eq_none_or_eq_some (s.ctokens.get? reserve)
  · simp only [Proc.run_bind, Proc.run_modify, onReserve_touch, ctoken, Proc.run_read,
      Proc.run_ofExcept, Dict.item, ctokens_touch, UsersChange.raises, hinfos, okOr_none]
    refine ⟨rfl, ?_, (Dict.modify_of_get?_eq_none _ hinfos).symm, rfl, rfl, rfl⟩
    intro u
    rw [get?_touch]
    by_cases hu : u = borrower
    · rw [if_pos hu, hu]
      simp only [UsersChange.post, hinfos, ↓reduceIte, id_eq]
    · simp only [UsersChange.post, if_neg hu]
  · simp only [Proc.run_bind, Proc.run_modify, onReserve_touch, ctoken, Proc.run_read,
      Proc.run_ofExcept, Dict.item, ctokens_touch, UsersChange.raises, hinfos, okOr_some,
      Proc.run_pure]
    refine ⟨rfl, ?_, rfl, rfl, rfl, rfl⟩
    intro u
    refine (get?_touch borrower reserve u _ s).trans ?_
    by_cases hu : u = borrower
    · rw [if_pos hu, hu]
      simp only [UsersChange.post, hinfos, ↓reduceIte, id_eq]
    · simp only [UsersChange.post, if_neg hu]

/-- A change of the cToken data only. -/
private theorem applied_ctoken {change : UsersChange} {reserve : String}
    {f : CtokenInfos → CtokenInfos} (hpost : ∀ ctk u, change.post ctk reserve u = none)
    (hraises : ∀ ctk, change.raises ctk reserve = (ctk.get? reserve).isNone)
    (hon : ∀ ctk, change.onCtokens reserve ctk = ctk.modify reserve f)
    (htypes : ∀ users, change.types users reserve = ∅)
    (happly : applyChange reserve change = do
      let _ ← ctoken reserve
      Proc.modify (onCtoken reserve f)
      return ∅) (s : States) :
    ((applyChange reserve change).run s).1
      = (if change.raises s.ctokens reserve then .error (.keyError reserve)
        else .ok (change.types s.usersStates reserve)) ∧
    Applied reserve change s ((applyChange reserve change).run s).2 := by
  rw [happly, hraises, htypes]
  obtain hinfos | ⟨infos, hinfos⟩ := Option.eq_none_or_eq_some (s.ctokens.get? reserve)
  · simp only [Proc.run_bind, ctoken, Proc.run_read, Proc.run_ofExcept, Dict.item, hinfos,
      okOr_none]
    refine ⟨rfl, fun u ↦ ?_, ?_, rfl, rfl, rfl⟩
    · rw [hpost]
    · rw [hon]
      exact (Dict.modify_of_get?_eq_none _ hinfos).symm
  · simp only [Proc.run_bind, ctoken, Proc.run_read, Proc.run_ofExcept, Dict.item, hinfos,
      okOr_some, Proc.run_modify]
    refine ⟨rfl, fun u ↦ ?_, (hon _).symm, rfl, rfl, rfl⟩
    rw [hpost]
    rfl

/-- **What a change does**: its outcome and the state it leaves. -/
theorem applied_applyChange (reserve : String) (change : UsersChange) (s : States) :
    ((applyChange reserve change).run s).1
      = (if change.raises s.ctokens reserve then .error (.keyError reserve)
        else .ok (change.types s.usersStates reserve)) ∧
    Applied reserve change s ((applyChange reserve change).run s).2 := by
  rcases change with ⟨fromUser, toUser, amount⟩ | ⟨borrower, amount, totalBorrow⟩ |
    ⟨interestAccumulated, borrowIndex, totalBorrow⟩ | new | new
  · exact applied_applyTransfer reserve fromUser toUser amount s
  · exact applied_applyDebt reserve borrower amount totalBorrow s
  · exact applied_ctoken (fun _ _ ↦ rfl) (fun _ ↦ rfl) (fun _ ↦ rfl) (fun _ ↦ rfl) rfl s
  · exact applied_ctoken (fun _ _ ↦ rfl) (fun _ ↦ rfl) (fun _ ↦ rfl) (fun _ ↦ rfl) rfl s
  · exact applied_ctoken (fun _ _ ↦ rfl) (fun _ ↦ rfl) (fun _ ↦ rfl) (fun _ ↦ rfl) rfl s

/-! ## Updates -/

/-- The change a log asks for, if it is read as one. -/
def logChange (lib : EthLibs) (log : LogReceipt) : Option (String × UsersChange) :=
  match usersChange lib log with
  | .ok change => change
  | .error _ => none

private theorem usersEventAbi_of_vaiEventAbi {topic : String} {event : VaiEvent}
    (h : vaiEventAbi topic = some event) : usersEventAbi topic = none := by
  have htopic : topic = "0x002e68ab1600fc5e7290e2ceaa79e2f86b4dbaca84a48421e167e0b40409218a" ∨
      topic = "0x1db858e6f7e1a0d5e92c10c6507d42b3dabfe0a4867fe90c5a14d9963662ef7e" := by
    rw [vaiEventAbi] at h
    split_ifs at h with hmint hrepay
    · exact Or.inl hmint
    · exact Or.inr hrepay
  rcases htopic with rfl | rfl
  · decide +kernel
  · decide +kernel

/-- The plug-in ignores what the users' table knows. -/
theorem vaiChange_of_usersChange {lib : EthLibs} {log : LogReceipt}
    {rc : String × UsersChange} (h : usersChange lib log = .ok (some rc)) :
    vaiChange lib log = .ok none := by
  rw [usersChange] at h
  rw [vaiChange]
  by_cases hremoved : log.removed
  · simp [hremoved] at h
  rw [if_neg hremoved] at h ⊢
  rcases htopic : log.topic0 with e | topic
  · simp [htopic] at h
  rw [htopic, ok_bind] at h
  rw [ok_bind]
  rcases hvai : vaiEventAbi topic with _ | event
  · rfl
  · simp [usersEventAbi_of_vaiEventAbi hvai] at h

theorem run_updatePlugIn (lib : EthLibs) (log : LogReceipt) (s : States) :
    (updatePlugIn lib log).run s = match s.plugIn, vaiChange lib log with
      | none, _ => (.ok (), s)
      | some _, .error e => (.error e, s)
      | some _, .ok change =>
        (.ok (), { s with plugIn := s.plugIn.map (VaiState.store change) }) := by
  rw [updatePlugIn, Proc.run_bind, Proc.run_read]
  simp only
  rcases hplug : s.plugIn with _ | vai
  · rfl
  · rcases vaiChange lib log with e | change
    · rfl
    · simp only [Proc.run_bind, Proc.run_ofExcept, Proc.run_modify, hplug]

private theorem updatePlugIn_frame (lib : EthLibs) (log : LogReceipt) (s : States) :
    ∃ plugIn, ((updatePlugIn lib log).run s).2 = { s with plugIn := plugIn } := by
  rw [run_updatePlugIn]
  rcases s.plugIn with _ | vai
  · exact ⟨s.plugIn, rfl⟩
  · rcases vaiChange lib log with e | change
    · exact ⟨s.plugIn, rfl⟩
    · exact ⟨_, rfl⟩

/-- A log that asks for a change is applied as such. -/
theorem run_update_of_change {lib : EthLibs} {log : LogReceipt} {reserve : String}
    {change : UsersChange} (h : logChange lib log = some (reserve, change)) (s : States) :
    (update lib log).run s = (applyChange reserve change).run s := by
  have husers : usersChange lib log = .ok (some (reserve, change)) := by
    rw [logChange] at h
    rcases hchange : usersChange lib log with e | c
    · simp [hchange] at h
    · rw [hchange] at h
      rw [show c = _ from h]
  have hplug : (updatePlugIn lib log).run s = (.ok (), s) := by
    rw [run_updatePlugIn, vaiChange_of_usersChange husers]
    rcases hplugIn : s.plugIn with _ | vai
    · rfl
    · have hsame : { s with plugIn := some vai } = s := by rw [← hplugIn]
      exact Prod.ext rfl hsame
  rw [update, Proc.run_bind_of_ok hplug, husers]
  rfl

/-- Any other log leaves the users and the cToken data alone and reports no user. -/
theorem run_update_of_no_change {lib : EthLibs} {log : LogReceipt} (h : logChange lib log = none)
    (s : States) :
    (∀ types, ((update lib log).run s).1 = .ok types → types = ∅) ∧
      ∃ plugIn, ((update lib log).run s).2 = { s with plugIn := plugIn } := by
  have husers : usersChange lib log = .ok none ∨ ∃ e, usersChange lib log = .error e := by
    rw [logChange] at h
    rcases hchange : usersChange lib log with e | c
    · exact Or.inr ⟨e, rfl⟩
    · rw [hchange] at h
      rw [show c = none from h]
      exact Or.inl rfl
  obtain ⟨plugIn, hframe⟩ := updatePlugIn_frame lib log s
  rw [update, Proc.run_bind]
  match hrun : (updatePlugIn lib log).run s with
  | (.error e, s') =>
    rw [hrun] at hframe
    exact ⟨fun _ h ↦ (by cases h), plugIn, hframe⟩
  | (.ok (), s') =>
    rw [hrun] at hframe
    rcases husers with husers | ⟨e, husers⟩
    · rw [husers]
      exact ⟨fun types h ↦ (Except.ok.inj h).symm, plugIn, hframe⟩
    · rw [husers]
      exact ⟨fun _ h ↦ (by cases h), plugIn, hframe⟩

end States

end CompoundLiquidation
