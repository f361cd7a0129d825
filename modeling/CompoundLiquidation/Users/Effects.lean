import CompoundLiquidation.Users.Update

/-!
# One log, field by field

Each field of the state after a log is a function of the log and of what the same field was before;
only the records also look at the cToken data. Whether the log raises depends on the log, on which
markets are known, and on whether there is a plug-in. Two runs are compared field by field with
these lemmas.
-/

namespace CompoundLiquidation

open Python

/-- The users the change of a log names. -/
def LogReceipt.names (lib : EthLibs) (log : LogReceipt) (u : String) : Prop :=
  ∃ rc, States.logChange lib log = some rc ∧ rc.2.names u

/-- The log is one that `update` raises for, when it knows the markets in `ctk` and there is a
plug-in or none. -/
def LogReceipt.raises (lib : EthLibs) (ctk : Dict String CtokenInfos) (plugged : Bool)
    (log : LogReceipt) : Bool :=
  (plugged && !(vaiChange lib log).isOk) || match usersChange lib log with
    | .error _ => true
    | .ok none => false
    | .ok (some (reserve, change)) => change.raises ctk reserve

/-- What a log adds to the collateral of a user in a market. -/
def LogReceipt.colDelta (lib : EthLibs) (u reserve : String) (log : LogReceipt) : ℤ :=
  match States.logChange lib log with
  | some (market, .transfer fromUser toUser amount) =>
    if market = reserve then UsersChange.transferDelta fromUser toUser amount u else 0
  | _ => 0

/-- `col_amount` of a user's record, zero where there is none. -/
def States.colAmount (s : States) (u reserve : String) : ℤ :=
  ((s.usersStates.get? u).bind (·.reserves.get? reserve)).elim 0 CompReserve.colAmount

namespace States

/-- What `update` does behind the plug-in. -/
def applyUsers (lib : EthLibs) (log : LogReceipt) : Proc States Error (Dict String ChangeType) := do
  let change ← Proc.ofExcept (usersChange lib log)
  match change with
  | none => return ∅
  | some (reserve, change) => applyChange reserve change

theorem usersChange_of_logChange {lib : EthLibs} {log : LogReceipt} {rc : String × UsersChange}
    (h : logChange lib log = some rc) : usersChange lib log = .ok (some rc) := by
  rw [logChange] at h
  rcases hchange : usersChange lib log with e | c
  · simp [hchange] at h
  · rw [hchange] at h
    exact congrArg Except.ok h

theorem update_eq (lib : EthLibs) (log : LogReceipt) :
    update lib log = updatePlugIn lib log >>= fun _ ↦ applyUsers lib log := rfl

theorem plugIn_applyUsers (lib : EthLibs) (log : LogReceipt) (s : States) :
    ((applyUsers lib log).run s).2.plugIn = s.plugIn := by
  rw [applyUsers, Proc.run_bind, Proc.run_ofExcept]
  rcases usersChange lib log with e | _ | ⟨reserve, change⟩
  · rfl
  · rfl
  · exact (applied_applyChange reserve change s).2.plugIn

theorem applyUsers_ok_iff (lib : EthLibs) (log : LogReceipt) (s : States) :
    (∃ types, ((applyUsers lib log).run s).1 = .ok types) ↔ (match usersChange lib log with
      | .error _ => true
      | .ok none => false
      | .ok (some (reserve, change)) => change.raises s.ctokens reserve) = false := by
  rw [applyUsers, Proc.run_bind, Proc.run_ofExcept]
  rcases usersChange lib log with e | _ | ⟨reserve, change⟩
  · exact iff_of_false (by rintro ⟨_, h⟩; cases h) Bool.true_eq_false.mp
  · exact iff_of_true ⟨∅, rfl⟩ rfl
  · simp only [(applied_applyChange reserve change s).1]
    by_cases hraises : change.raises s.ctokens reserve = true
    · rw [if_pos hraises, hraises]
      exact iff_of_false (by rintro ⟨_, h⟩; cases h) Bool.true_eq_false.mp
    · rw [if_neg hraises]
      exact iff_of_true ⟨_, rfl⟩ (Bool.eq_false_iff.mpr hraises)

/-- The state after a log. What was done before a raise stays. -/
def step (lib : EthLibs) (s : States) (log : LogReceipt) : States := ((update lib log).run s).2

section Step

variable {lib : EthLibs} {log : LogReceipt}

theorem applied_step {reserve : String} {change : UsersChange}
    (hchange : logChange lib log = some (reserve, change)) (s : States) :
    Applied reserve change s (s.step lib log) := by
  rw [step, run_update_of_change hchange]
  exact (applied_applyChange reserve change s).2

theorem usersStates_step_of_no_change (h : logChange lib log = none) (s : States) :
    (s.step lib log).usersStates = s.usersStates := by
  obtain ⟨plugIn, hstate⟩ := (run_update_of_no_change h s).2
  rw [step, hstate]

theorem ctokens_step (lib : EthLibs) (log : LogReceipt) (s : States) :
    (s.step lib log).ctokens = match logChange lib log with
      | some (reserve, change) => change.onCtokens reserve s.ctokens
      | none => s.ctokens := by
  rcases hchange : logChange lib log with _ | ⟨reserve, change⟩
  · obtain ⟨plugIn, hstate⟩ := (run_update_of_no_change hchange s).2
    rw [step, hstate]
  · exact (applied_step hchange s).ctokens

theorem lastUpdate_step (lib : EthLibs) (log : LogReceipt) (s : States) :
    (s.step lib log).lastUpdate = s.lastUpdate := by
  rcases hchange : logChange lib log with _ | ⟨reserve, change⟩
  · obtain ⟨plugIn, hstate⟩ := (run_update_of_no_change hchange s).2
    rw [step, hstate]
  · exact (applied_step hchange s).lastUpdate

/-- The storage of the plug-in follows its own events. -/
theorem plugIn_step (lib : EthLibs) (log : LogReceipt) (s : States) :
    (s.step lib log).plugIn = match vaiChange lib log with
      | .ok change => s.plugIn.map (VaiState.store change)
      | .error _ => s.plugIn := by
  have hplug := run_updatePlugIn lib log s
  rw [step, update_eq]
  rcases hs : s.plugIn with _ | vai
  · rw [hs] at hplug
    rw [Proc.run_bind_of_ok hplug, plugIn_applyUsers, hs]
    rcases vaiChange lib log with e | change
    · rfl
    · rfl
  · rw [hs] at hplug
    rcases hvai : vaiChange lib log with e | change
    · rw [hvai] at hplug
      rw [Proc.run_bind_of_error hplug, hs]
    · rw [hvai] at hplug
      rw [Proc.run_bind_of_ok hplug, plugIn_applyUsers]

/-- A market stays known, and an unknown one unknown. -/
theorem isNone_ctokens_step (lib : EthLibs) (log : LogReceipt) (s : States) (reserve : String) :
    ((s.step lib log).ctokens.get? reserve).isNone = (s.ctokens.get? reserve).isNone := by
  have hmodify : ∀ (ctk : Dict String CtokenInfos) (r : String) (f : CtokenInfos → CtokenInfos),
      ((ctk.modify r f).get? reserve).isNone = (ctk.get? reserve).isNone := by
    intro ctk r f
    rw [Dict.get?_modify]
    split_ifs
    · rw [Option.isNone_map]
    · rfl
  rw [ctokens_step]
  rcases logChange lib log with _ | ⟨market, change⟩
  · rfl
  · rcases change with ⟨fromUser, toUser, amount⟩ | _ | _ | _ | _
    · simp only [UsersChange.onCtokens]
      split_ifs
      · rw [hmodify, hmodify]
      · rw [hmodify]
      · rw [hmodify]
      · rfl
    all_goals exact hmodify _ _ _

theorem isSome_plugIn_step (lib : EthLibs) (log : LogReceipt) (s : States) :
    (s.step lib log).plugIn.isSome = s.plugIn.isSome := by
  rw [plugIn_step]
  rcases vaiChange lib log with e | change
  · rfl
  · rw [Option.isSome_map]

/-- A user's states after a log: one record changed if the log names the user. -/
theorem get?_step (lib : EthLibs) (log : LogReceipt) (s : States) (u : String) :
    (s.step lib log).usersStates.get? u = match logChange lib log with
      | none => s.usersStates.get? u
      | some (reserve, change) => match change.post s.ctokens reserve u with
        | none => s.usersStates.get? u
        | some f => some ((s.usersStates.getD u newUserStates).touch reserve f) := by
  rcases hchange : logChange lib log with _ | ⟨reserve, change⟩
  · rw [usersStates_step_of_no_change hchange]
  · exact (applied_step hchange s).users u

theorem get?_step_of_not_names {u : String} (hu : ¬ log.names lib u) (s : States) :
    (s.step lib log).usersStates.get? u = s.usersStates.get? u := by
  rw [get?_step]
  rcases hchange : logChange lib log with _ | ⟨reserve, change⟩
  · rfl
  · have hpost : change.post s.ctokens reserve u = none :=
      UsersChange.post_eq_none_iff.mpr fun hnames ↦ hu ⟨_, hchange, hnames⟩
    simp only [hpost]

theorem mem_keys_step_of_names {u : String} (hu : log.names lib u) (s : States) :
    u ∈ (s.step lib log).usersStates.keys := by
  obtain ⟨⟨reserve, change⟩, hchange, hnames⟩ := hu
  exact Dict.mem_keys_iff.mpr ((applied_step hchange s).get?_of_names hnames)

theorem colAmount_of_touch {s s' : States} {u reserve market : String}
    {f : CompReserve → CompReserve} (h : s'.usersStates.get? u
      = some ((s.usersStates.getD u newUserStates).touch market f)) :
    s'.colAmount u reserve = if reserve = market
      then (f (((s.usersStates.get? u).bind (·.reserves.get? reserve)).getD newReserve)).colAmount
      else s.colAmount u reserve := by
  have hrecord : ∀ key, (s.usersStates.getD u newUserStates).reserves.get? key
      = (s.usersStates.get? u).bind (·.reserves.get? key) := by
    intro key
    rcases hu : s.usersStates.get? u with _ | states
    · rw [Dict.getD_of_get?_eq_none hu]
      rfl
    · rw [Dict.getD_of_get? hu]
      rfl
  rw [colAmount, h, Option.bind_some, UserStates.touch, Dict.get?_set]
  by_cases hmarket : reserve = market
  · rw [if_pos hmarket, if_pos hmarket, Option.elim_some, Dict.getD, hrecord, hmarket]
  · rw [if_neg hmarket, if_neg hmarket, hrecord, colAmount]

/-- **The effect on collateral.** A log that raises moves nothing, any other its transfer. -/
theorem colAmount_step (lib : EthLibs) (log : LogReceipt) (s : States) (u reserve : String) :
    (s.step lib log).colAmount u reserve = s.colAmount u reserve
      + if log.raises lib s.ctokens s.plugIn.isSome then 0 else log.colDelta lib u reserve := by
  have hstep := get?_step lib log s u
  rw [LogReceipt.colDelta]
  rcases hchange : logChange lib log with _ | ⟨market, change⟩
  · rw [hchange] at hstep
    simp only [colAmount, hstep, ite_self, add_zero]
  · have hblank : ∀ x : Option CompReserve, (x.getD newReserve).colAmount
        = x.elim 0 CompReserve.colAmount := fun x ↦ by cases x <;> rfl
    rw [hchange] at hstep
    simp only at hstep
    rcases change with ⟨fromUser, toUser, amount⟩ | ⟨borrower, amount, totalBorrow⟩ | _ | _ | _
    · have hraises : log.raises lib s.ctokens s.plugIn.isSome
          = (UsersChange.transfer fromUser toUser amount).raises s.ctokens market := by
        have husers := usersChange_of_logChange hchange
        rw [LogReceipt.raises, vaiChange_of_usersChange husers, husers]
        simp [Except.isOk, Except.toBool]
      rw [hraises]
      rcases hpost : (UsersChange.transfer fromUser toUser amount).post s.ctokens market u
        with _ | f
      · rw [hpost] at hstep
        have hdelta : UsersChange.transferDelta fromUser toUser amount u = 0 := by
          have hnames := UsersChange.post_eq_none_iff.mp hpost
          simp only [UsersChange.names, not_or] at hnames
          rw [UsersChange.transferDelta, if_neg hnames.1, if_neg hnames.2, sub_self]
        simp only [colAmount, hstep, hdelta, ite_self, add_zero]
      · rw [hpost] at hstep
        rw [colAmount_of_touch hstep]
        dsimp only
        by_cases hmarket : reserve = market
        · simp only [UsersChange.post, Option.ite_none_right_eq_some, Option.some_inj] at hpost
          rw [if_pos hmarket, ← hpost.2, if_pos hmarket.symm, colAmount]
          split_ifs
          · rw [hblank, add_zero]
          · rw [← hblank]
        · rw [if_neg hmarket, if_neg (Ne.symm hmarket), ite_self, add_zero]
    · simp only [ite_self, add_zero]
      rcases hpost : (UsersChange.debt borrower amount totalBorrow).post s.ctokens market u
        with _ | f
      · rw [hpost] at hstep
        rw [colAmount, colAmount, hstep]
      · rw [hpost] at hstep
        rw [colAmount_of_touch hstep]
        by_cases hmarket : reserve = market
        · simp only [UsersChange.post, Option.ite_none_right_eq_some, Option.some_inj] at hpost
          rw [if_pos hmarket, ← hpost.2, colAmount, ← hblank]
          rcases s.ctokens.get? market with _ | infos
          · rfl
          · rfl
        · rw [if_neg hmarket]
    all_goals
      simp only [UsersChange.post] at hstep
      simp only [colAmount, hstep, ite_self, add_zero]

/-- The outcome of a log: it raises, or the users it names are reported. -/
theorem update_ok_iff (lib : EthLibs) (log : LogReceipt) (s : States) :
    (∃ types, ((update lib log).run s).1 = .ok types) ↔
      log.raises lib s.ctokens s.plugIn.isSome = false := by
  have hplug := run_updatePlugIn lib log s
  rw [update_eq, LogReceipt.raises, Bool.or_eq_false_iff]
  rcases hs : s.plugIn with _ | vai
  · rw [hs] at hplug
    rw [Proc.run_bind_of_ok hplug, applyUsers_ok_iff]
    exact ⟨fun h ↦ ⟨rfl, h⟩, fun h ↦ h.2⟩
  · rw [hs] at hplug
    rcases hvai : vaiChange lib log with e | c
    · rw [hvai] at hplug
      rw [Proc.run_bind_of_error hplug]
      exact iff_of_false (by rintro ⟨_, h⟩; cases h) fun h ↦ Bool.true_eq_false.mp h.1
    · rw [hvai] at hplug
      rw [Proc.run_bind_of_ok hplug, applyUsers_ok_iff]
      exact ⟨fun h ↦ ⟨rfl, h⟩, fun h ↦ h.2⟩

/-- The users a log reports are those it names. -/
theorem mem_keys_types_iff {s : States} {types : Dict String ChangeType}
    (h : ((update lib log).run s).1 = .ok types) (u : String) :
    u ∈ types.keys ↔ log.names lib u := by
  rcases hchange : logChange lib log with _ | ⟨reserve, change⟩
  · rw [(run_update_of_no_change hchange s).1 types h]
    exact iff_of_false List.not_mem_nil fun ⟨rc, hrc, _⟩ ↦
      absurd (hchange.symm.trans hrc) (Option.some_ne_none rc).symm
  · rw [run_update_of_change hchange, (applied_applyChange reserve change s).1] at h
    have htypes : change.types s.usersStates reserve = types := by
      by_cases hraises : change.raises s.ctokens reserve = true
      · simp [hraises] at h
      · rw [if_neg hraises] at h
        exact Except.ok.inj h
    have hnames : log.names lib u ↔ change.names u := by
      refine ⟨fun ⟨rc, hrc, hu⟩ ↦ ?_, fun hu ↦ ⟨_, hchange, hu⟩⟩
      rwa [Option.some_inj.mp (hrc.symm.trans hchange)] at hu
    rw [hnames, ← htypes]
    exact UsersChange.mem_keys_types_iff

/-- Whether a log raises depends on which markets are known. -/
theorem raises_congr {ctk ctk' : Dict String CtokenInfos}
    (h : ∀ reserve, (ctk.get? reserve).isNone = (ctk'.get? reserve).isNone) (plugged : Bool)
    (log : LogReceipt) : log.raises lib ctk plugged = log.raises lib ctk' plugged := by
  rw [LogReceipt.raises, LogReceipt.raises]
  congr 1
  rcases usersChange lib log with e | _ | ⟨reserve, change⟩
  · rfl
  · rfl
  · rcases change with ⟨fromUser, toUser, amount⟩ | _ | _ | _ | _
    all_goals simp only [UsersChange.raises, h]

/-- No log changes which logs raise. -/
theorem raises_step (log' : LogReceipt) (s : States) :
    log'.raises lib (s.step lib log).ctokens (s.step lib log).plugIn.isSome
      = log'.raises lib s.ctokens s.plugIn.isSome := by
  rw [isSome_plugIn_step]
  exact raises_congr (isNone_ctokens_step lib log s) _ log'

end Step

end States

end CompoundLiquidation
