import CompoundLiquidation.Users.Replay
import CompoundLiquidation.Users.Sync

/-!
# What the two classes of states have in common

An update of the cache does more than one of the base class, but only to records: it merges those of
the parent in. The outcome of a log, the users it brings in, their health factors and VAI debts, the
block number and the storage of the plug-in are what the base class makes of them. The results of
this module are therefore about both classes at once.
-/

namespace CompoundLiquidation

open Python

/-- What a user's states hold beside the records. -/
def UserStates.account (states : UserStates) : HealthFactor × ℤ :=
  (states.healthFactor, states.vaiRepay)

/-- The account of a user who is in the states. -/
def States.account? (s : States) (u : String) : Option (HealthFactor × ℤ) :=
  (s.usersStates.get? u).map UserStates.account

theorem States.getD_account? (s : States) (u : String) :
    (s.account? u).getD newUserStates.account
      = (s.usersStates.getD u newUserStates).account := by
  rw [account?, Dict.getD]
  rcases s.usersStates.get? u with _ | states
  · rfl
  · rfl

theorem States.account?_refreshFlags (usr : String) (assets : List String) (s : States)
    (u : String) : (s.refreshFlags usr assets).account? u = s.account? u := by
  rw [account?, account?, refreshFlags, Dict.get?_modify]
  split_ifs
  · rw [Option.map_map]
    rfl
  · rfl

/-- The users whose VAI debt a log asks to read again. -/
def LogReceipt.namesVai (lib : EthLibs) (log : LogReceipt) (u : String) : Prop :=
  vaiChange lib log = .ok (some u)

instance (lib : EthLibs) (log : LogReceipt) (u : String) : Decidable (log.namesVai lib u) :=
  inferInstanceAs (Decidable (vaiChange lib log = .ok (some u)))

/-- The users in the storage of the plug-in. -/
def States.Pending (s : States) (u : String) : Prop :=
  ∃ vai, s.plugIn = some vai ∧ u ∈ vai.storage.keys

instance (s : States) (u : String) : Decidable (s.Pending u) :=
  match hplug : s.plugIn with
  | none => .isFalse fun ⟨vai, hvai, _⟩ ↦ Option.some_ne_none vai (hvai.symm.trans hplug)
  | some vai => decidable_of_iff (u ∈ vai.storage.keys)
      ⟨fun hu ↦ ⟨vai, hplug, hu⟩,
        fun ⟨_, hvai, hu⟩ ↦ Option.some_inj.mp (hvai.symm.trans hplug) ▸ hu⟩

/-- The class treats everything but records as the base class does. -/
structure StatesClass.Extends {S : Type} (K : StatesClass S) : Prop where
  outcome : ∀ lib log o, ((K.update lib log).run o).1 = ((States.update lib log).run (K.states o)).1
  account? : ∀ lib log o u, (K.states ((K.update lib log).run o).2).account? u
    = ((K.states o).step lib log).account? u
  lastUpdate : ∀ lib log o, (K.states ((K.update lib log).run o).2).lastUpdate
    = (K.states o).lastUpdate
  plugIn : ∀ lib log o, (K.states ((K.update lib log).run o).2).plugIn
    = ((K.states o).step lib log).plugIn
  ctokens : ∀ lib log o, (K.states ((K.update lib log).run o).2).ctokens
    = ((K.states o).step lib log).ctokens

theorem extends_plainStates : plainStates.Extends where
  outcome _ _ _ := rfl
  account? _ _ _ _ := rfl
  lastUpdate lib log s := States.lastUpdate_step lib log s
  plugIn _ _ _ := rfl
  ctokens _ _ _ := rfl

/-! ## The cache -/

namespace HighProfitSates

theorem account?_mergeUser (v u : String) (h : HighProfitSates) :
    (h.mergeUser v).account? u = h.account? u := by
  rw [States.account?, States.account?, get?_mergeUser]
  split_ifs
  · rw [merged]
    rcases h.parentUsers.get? u with _ | old
    · rfl
    · rw [Option.map_map]
      rfl
  · rfl

theorem mergeUsers_beside (l : List String) : ∀ h : HighProfitSates,
    (∀ u, (h.mergeUsers l).account? u = h.account? u) ∧
      (h.mergeUsers l).lastUpdate = h.lastUpdate ∧ (h.mergeUsers l).plugIn = h.plugIn ∧
      (h.mergeUsers l).ctokens = h.ctokens := by
  have hmerge : ∀ (v : String) (h : HighProfitSates),
      (h.mergeUser v).lastUpdate = h.lastUpdate ∧ (h.mergeUser v).plugIn = h.plugIn := by
    intro v h
    rw [mergeUser]
    rcases h.parentUsers.get? v with _ | old
    · exact ⟨rfl, rfl⟩
    · exact ⟨rfl, rfl⟩
  induction l with
  | nil => exact fun _ ↦ ⟨fun _ ↦ rfl, rfl, rfl, rfl⟩
  | cons v l ih =>
    intro h
    obtain ⟨haccount, hlast, hplug, hctokens⟩ := ih (h.mergeUser v)
    refine ⟨fun u ↦ (haccount u).trans (account?_mergeUser v u h), ?_, ?_, ?_⟩
    · exact hlast.trans (hmerge v h).1
    · exact hplug.trans (hmerge v h).2
    · exact hctokens.trans (ctokens_mergeUser v h)

theorem extends_highProfitSates : highProfitSates.Extends where
  outcome := outcome_update
  account? lib log h u := by
    obtain ⟨updateUsers, hstate⟩ := state_update lib log h
    have hrun : ((highProfitSates.update lib log).run h).2 = _ := hstate
    rw [hrun]
    exact (mergeUsers_beside _ _).1 u
  lastUpdate lib log h := by
    obtain ⟨updateUsers, hstate⟩ := state_update lib log h
    have hrun : ((highProfitSates.update lib log).run h).2 = _ := hstate
    rw [hrun]
    exact (mergeUsers_beside _ _).2.1.trans (States.lastUpdate_step lib log h.toStates)
  plugIn lib log h := by
    obtain ⟨updateUsers, hstate⟩ := state_update lib log h
    have hrun : ((highProfitSates.update lib log).run h).2 = _ := hstate
    rw [hrun]
    exact (mergeUsers_beside _ _).2.2.1
  ctokens lib log h := by
    obtain ⟨updateUsers, hstate⟩ := state_update lib log h
    have hrun : ((highProfitSates.update lib log).run h).2 = _ := hstate
    rw [hrun]
    exact (mergeUsers_beside _ _).2.2.2

end HighProfitSates

/-! ## Batches -/

section Batch

variable {lib : EthLibs} {log : LogReceipt}

/-- A user whom a log names is in the states afterwards, with a blank account if it is a new one. -/
theorem States.account?_step_of_names {u : String} (hu : log.names lib u) (s : States) :
    (s.step lib log).account? u = some ((s.account? u).getD newUserStates.account) := by
  have hstep := get?_step lib log s u
  obtain ⟨⟨reserve, change⟩, hchange, hnames⟩ := hu
  rw [hchange] at hstep
  rcases hpost : change.post s.ctokens reserve u with _ | f
  · exact absurd hnames (UsersChange.post_eq_none_iff.mp hpost)
  · simp only [hpost] at hstep
    rw [account?, account?, hstep, Option.map_some, Dict.getD]
    rcases s.usersStates.get? u with _ | states
    · rfl
    · rfl

theorem States.account?_step_of_not_names {u : String} (hu : ¬ log.names lib u) (s : States) :
    (s.step lib log).account? u = s.account? u := by
  rw [account?, account?, get?_step_of_not_names hu]

/-- The plug-in stores the users whose VAI debt the log is about. -/
theorem States.pending_step (s : States) (u : String) : (s.step lib log).Pending u ↔
    s.Pending u ∨ s.plugIn.isSome ∧ log.namesVai lib u := by
  rw [Pending, plugIn_step, LogReceipt.namesVai]
  rcases hplug : s.plugIn with _ | vai
  · rcases vaiChange lib log with e | change
    · simp [Pending, hplug]
    · simp [Pending, hplug]
  · rcases vaiChange lib log with e | change
    · simp [Pending, hplug]
    · rcases change with _ | user
      · simp [Pending, hplug, VaiState.store]
      · simp [Pending, hplug, VaiState.store, Dict.mem_keys_set, or_comm, eq_comm]

variable {S : Type} {K : StatesClass S}

/-- What a list of logs has done beside the records. -/
structure Batched (lib : EthLibs) (logs : List LogReceipt) (s s' : States) : Prop where
  named : ∀ u, (∃ log ∈ logs, log.names lib u) →
    s'.account? u = some ((s.account? u).getD newUserStates.account)
  unnamed : ∀ u, (¬ ∃ log ∈ logs, log.names lib u) → s'.account? u = s.account? u
  lastUpdate : s'.lastUpdate = s.lastUpdate
  plugged : s'.plugIn.isSome = s.plugIn.isSome
  pending : ∀ u, s'.Pending u ↔
    s.Pending u ∨ s.plugIn.isSome ∧ ∃ log ∈ logs, log.namesVai lib u

theorem Batched.refl (lib : EthLibs) (s : States) : Batched lib [] s s where
  named _ := fun ⟨_, hlog, _⟩ ↦ absurd hlog List.not_mem_nil
  unnamed _ _ := rfl
  lastUpdate := rfl
  plugged := rfl
  pending u := by simp

theorem Batched.trans {logs logs' : List LogReceipt} {s s' s'' : States}
    (h : Batched lib logs s s') (h' : Batched lib logs' s' s'') :
    Batched lib (logs ++ logs') s s'' where
  named u hu := by
    by_cases hfirst : ∃ log ∈ logs, log.names lib u
    · by_cases hlater : ∃ log ∈ logs', log.names lib u
      · rw [h'.named u hlater, h.named u hfirst, Option.getD_some]
      · rw [h'.unnamed u hlater, h.named u hfirst]
    · have hlater : ∃ log ∈ logs', log.names lib u := by
        obtain ⟨log, hmem, hnames⟩ := hu
        rcases List.mem_append.mp hmem with hmem | hmem
        · exact absurd ⟨log, hmem, hnames⟩ hfirst
        · exact ⟨log, hmem, hnames⟩
      rw [h'.named u hlater, h.unnamed u hfirst]
  unnamed u hu := by
    rw [h'.unnamed u, h.unnamed u]
    · exact fun ⟨log, hmem, hnames⟩ ↦ hu ⟨log, List.mem_append_left _ hmem, hnames⟩
    · exact fun ⟨log, hmem, hnames⟩ ↦ hu ⟨log, List.mem_append_right _ hmem, hnames⟩
  lastUpdate := h'.lastUpdate.trans h.lastUpdate
  plugged := h'.plugged.trans h.plugged
  pending u := by
    rw [h'.pending, h.pending, h.plugged]
    simp only [List.mem_append, or_and_right, exists_or]
    rw [or_assoc, ← and_or_left]

variable {S : Type} {K : StatesClass S}

/-- One log, whether or not it raises. -/
theorem batched_update (hK : K.Extends) (log : LogReceipt) (o : S) :
    Batched lib [log] (K.states o) (K.states ((K.update lib log).run o).2) where
  named u hu := by
    simp only [List.mem_singleton, exists_eq_left] at hu
    rw [hK.account?, States.account?_step_of_names hu]
  unnamed u hu := by
    simp only [List.mem_singleton, exists_eq_left] at hu
    rw [hK.account?, States.account?_step_of_not_names hu]
  lastUpdate := hK.lastUpdate lib log o
  plugged := by
    rw [hK.plugIn, States.isSome_plugIn_step]
  pending u := by
    have hpending := @States.pending_step lib log (K.states o) u
    simp only [States.Pending, hK.plugIn, List.mem_singleton, exists_eq_left] at hpending ⊢
    exact hpending

/-- What a batch that goes through has done. -/
theorem batched_updateAll (hK : K.Extends) {logs : List LogReceipt} :
    ∀ {users users' : Dict String ChangeType} {o o' : S},
    (K.updateAll lib logs users).run o = (.ok users', o') →
    (∀ u, u ∈ users'.keys ↔ u ∈ users.keys ∨ ∃ log ∈ logs, log.names lib u) ∧
      Batched lib logs (K.states o) (K.states o') := by
  induction logs with
  | nil =>
    intro users users' o o' h
    obtain ⟨husers, ho⟩ := Prod.mk.inj h
    rw [← Except.ok.inj husers, ← ho]
    exact ⟨fun u ↦ by simp, .refl lib _⟩
  | cons log logs ih =>
    intro users users' o o' h
    obtain ⟨types, o₁, hone, hrest⟩ := Proc.run_bind_ok h
    obtain ⟨hkeys, hbatch⟩ := ih hrest
    have houtcome := hK.outcome lib log o
    have hfirst : Batched lib [log] (K.states o) (K.states ((K.update lib log).run o).2) :=
      batched_update hK log o
    rw [hone] at houtcome hfirst
    have htypes := States.mem_keys_types_iff houtcome.symm
    refine ⟨fun u ↦ ?_, hfirst.trans hbatch⟩
    rw [hkeys, Dict.mem_keys_update, htypes]
    simp only [List.mem_cons, exists_eq_or_imp, or_assoc]

/-- The logs of a batch that are handed to `update`: all up to the first one that raises. -/
def handledLogs (lib : EthLibs) (s : States) : List LogReceipt → List LogReceipt
  | [] => []
  | log :: logs =>
    if log.raises lib s.ctokens s.plugIn.isSome then [log] else log :: handledLogs lib s logs

theorem handledLogs_congr {s s' : States} (logs : List LogReceipt)
    (h : ∀ log : LogReceipt, log.raises lib s'.ctokens s'.plugIn.isSome
      = log.raises lib s.ctokens s.plugIn.isSome) :
    handledLogs lib s' logs = handledLogs lib s logs := by
  induction logs with
  | nil => rfl
  | cons log logs ih => rw [handledLogs, handledLogs, h, ih]

/-- What a batch has done, whether or not a log of it raises. -/
theorem batched_handledLogs (hK : K.Extends) (logs : List LogReceipt) :
    ∀ (users : Dict String ChangeType) (o : S), Batched lib (handledLogs lib (K.states o) logs)
      (K.states o) (K.states ((K.updateAll lib logs users).run o).2) := by
  induction logs with
  | nil => exact fun _ o ↦ .refl lib (K.states o)
  | cons log logs ih =>
    intro users o
    have hok := States.update_ok_iff lib log (K.states o)
    have hfirst : Batched lib [log] (K.states o) (K.states ((K.update lib log).run o).2) :=
      batched_update hK log o
    have houtcome := hK.outcome lib log o
    have hctokens := hK.ctokens lib log o
    have hplugIn := hK.plugIn lib log o
    rw [StatesClass.updateAll, Proc.run_bind, handledLogs]
    rcases hrun : (K.update lib log).run o with ⟨e | types, o₁⟩
    · rw [hrun] at hfirst houtcome
      rw [← houtcome] at hok
      have hraises : log.raises lib (K.states o).ctokens (K.states o).plugIn.isSome = true := by
        rw [← Bool.not_eq_false, ← hok]
        rintro ⟨_, h⟩
        cases h
      rw [if_pos hraises]
      exact hfirst
    · rw [hrun] at hfirst houtcome hctokens hplugIn
      rw [← houtcome] at hok
      have hcalm : ¬ log.raises lib (K.states o).ctokens (K.states o).plugIn.isSome = true :=
        Bool.not_eq_true _ ▸ hok.mp ⟨types, rfl⟩
      have hsame : handledLogs lib (K.states o₁) logs = handledLogs lib (K.states o) logs := by
        refine handledLogs_congr logs fun log' ↦ ?_
        simp only at hctokens hplugIn
        rw [hctokens, hplugIn, States.raises_step]
      rw [if_neg hcalm, ← hsame]
      exact hfirst.trans (ih (users.update types) o₁)

end Batch

end CompoundLiquidation
