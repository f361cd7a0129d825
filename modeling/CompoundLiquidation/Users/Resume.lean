import CompoundLiquidation.Users.Supply
import CompoundLiquidation.Users.Sync

/-!
# Resuming a synchronisation

A synchronisation that raised is simply started again: `last_update` says how far it came. A window
has three phases, though, and `last_update` is advanced between the second and the third. Where the
third one raises, the balances of the window are in, its blocks are not asked for again, and the
users whose turn had not come keep the collateral flags they had.

The resumed call is compared with one that was never interrupted. The two states agree in all but
flags at every window from the failure on, and the flags of a user agree as soon as both calls have
refreshed them.
-/

namespace CompoundLiquidation

open Python

/-! ## Chains and nodes -/

/-- What does not change while a synchronisation is running: the logs of every block, and the
markets every user has entered. -/
structure Chain where
  logsOf : ℤ → List LogReceipt
  assetsIn : String → List String

/-- A node that always answers. -/
def Chain.node (chain : Chain) (blockNumber : ℤ) : EthNode where
  getBlockNumber := .ok blockNumber
  getLogs fromBlock toBlock := .ok (rangeLogs chain.logsOf fromBlock toBlock)
  getAssetsIn _ user := .ok (chain.assetsIn user)

/-- A node that answers with what is on the chain, or raises. -/
structure EthNode.Reports (node : EthNode) (chain : Chain) (blockNumber : ℤ) : Prop where
  getBlockNumber : node.getBlockNumber = .ok blockNumber
  getLogs : node.Exact chain.logsOf
  getAssetsIn : ∀ b user assets, node.getAssetsIn b user = .ok assets →
    assets = chain.assetsIn user

theorem Chain.reports_node (chain : Chain) (blockNumber : ℤ) :
    (chain.node blockNumber).Reports chain blockNumber where
  getBlockNumber := rfl
  getLogs _ _ _ h := (Except.ok.inj h).symm
  getAssetsIn _ _ _ h := (Except.ok.inj h).symm

theorem mem_rangeLogs {logsOf : ℤ → List LogReceipt} {fromBlock toBlock : ℤ} {log : LogReceipt} :
    log ∈ rangeLogs logsOf fromBlock toBlock ↔
      ∃ b, fromBlock ≤ b ∧ b ≤ toBlock ∧ log ∈ logsOf b := by
  rw [rangeLogs, List.mem_flatMap]
  constructor
  · rintro ⟨i, hi, hlog⟩
    rw [List.mem_range] at hi
    exact ⟨fromBlock + i, by omega, by omega, hlog⟩
  · rintro ⟨b, hfrom, hto, hlog⟩
    refine ⟨(b - fromBlock).toNat, List.mem_range.mpr (by omega), ?_⟩
    rwa [Int.toNat_of_nonneg (by omega), add_sub_cancel]

/-- A user is named by a log of the blocks from behind `lastUpdate` to `toBlock`. -/
def Chain.Names (lib : EthLibs) (chain : Chain) (lastUpdate toBlock : ℤ) (u : String) : Prop :=
  ∃ log ∈ rangeLogs chain.logsOf (lastUpdate + 1) toBlock, log.names lib u

section Resume

variable {lib : EthLibs} {chain : Chain}

theorem Chain.names_split {a b c : ℤ} (hab : a ≤ b) (hbc : b ≤ c) (u : String) :
    chain.Names lib a c u ↔ chain.Names lib a b u ∨ chain.Names lib b c u := by
  simp only [Chain.Names, mem_rangeLogs]
  constructor
  · rintro ⟨log, ⟨k, hk, hkc, hlog⟩, hnames⟩
    rcases le_or_gt k b with hkb | hkb
    · exact .inl ⟨log, ⟨k, hk, hkb, hlog⟩, hnames⟩
    · exact .inr ⟨log, ⟨k, hkb, hkc, hlog⟩, hnames⟩
  · rintro (⟨log, ⟨k, hk, hkb, hlog⟩, hnames⟩ | ⟨log, ⟨k, hk, hkc, hlog⟩, hnames⟩)
    · exact ⟨log, ⟨k, hk, hkb.trans hbc, hlog⟩, hnames⟩
    · exact ⟨log, ⟨k, by omega, hkc, hlog⟩, hnames⟩

/-! ## Flags -/

/-- A user with the flags of the chain. -/
def UserStates.refreshed (lib : EthLibs) (chain : Chain) (u : String) (states : UserStates) :
    UserStates :=
  match lib.toChecksumAddress u with
  | .ok user => states.withFlags (chain.assetsIn user)
  | .error _ => states

/-- The flags of a user are those of the chain. -/
def States.FlagsRight (lib : EthLibs) (chain : Chain) (s : States) (u : String) : Prop :=
  ∀ user, lib.toChecksumAddress u = .ok user → ∀ reserve r,
    (s.usersStates.get? u).bind (·.reserves.get? reserve) = some r →
      r.isColLiq = if reserve ∈ chain.assetsIn user then 1 else 0

theorem withFlags_withFlags (assets assets' : List String) (states : UserStates) :
    (states.withFlags assets).withFlags assets' = states.withFlags assets' := by
  rw [UserStates.withFlags, UserStates.withFlags, UserStates.withFlags]
  simp only [Dict.mapWithKey_mapWithKey]

theorem withFlags_eq_self_iff {assets : List String} {states : UserStates} :
    states.withFlags assets = states ↔ ∀ reserve r, states.reserves.get? reserve = some r →
      r.isColLiq = if reserve ∈ assets then 1 else 0 := by
  constructor
  · intro h reserve r hr
    have hget : (states.withFlags assets).reserves.get? reserve = some r :=
      (congrArg (fun states ↦ states.reserves.get? reserve) h).trans hr
    rw [UserStates.withFlags, Dict.get?_mapWithKey, hr, Option.map_some, Option.some_inj] at hget
    exact (congrArg CompReserve.isColLiq hget).symm
  · intro h
    have hsame : (states.reserves.mapWithKey fun reserve r ↦
        { r with isColLiq := if reserve ∈ assets then 1 else 0 }) = states.reserves := by
      conv_rhs => rw [← Dict.mapWithKey_id states.reserves]
      exact Dict.mapWithKey_congr fun reserve r hr ↦ by rw [← h reserve r hr]
    rw [UserStates.withFlags, hsame]

theorem flagsRight_iff {s : States} {u : String} : s.FlagsRight lib chain u ↔
    (s.usersStates.get? u).map (UserStates.refreshed lib chain u) = s.usersStates.get? u := by
  rw [States.FlagsRight]
  rcases s.usersStates.get? u with _ | states
  · simp
  rw [Option.map_some, Option.some_inj, UserStates.refreshed]
  rcases lib.toChecksumAddress u with e | user
  · exact iff_of_true (fun _ h ↦ (by cases h)) rfl
  · simp only [Except.ok.injEq, forall_eq', Option.bind_some, withFlags_eq_self_iff]

theorem refreshed_refreshed (u : String) (states : UserStates) :
    (states.refreshed lib chain u).refreshed lib chain u = states.refreshed lib chain u := by
  simp only [UserStates.refreshed]
  rcases lib.toChecksumAddress u with e | user
  · rfl
  · exact withFlags_withFlags _ _ states

/-! ## The hook -/

/-- The states after the users in `l` have been refreshed. -/
def States.refreshAll (lib : EthLibs) (chain : Chain) (l : List String) (s : States) : States :=
  { s with usersStates := s.usersStates.mapWithKey fun u states ↦
      if u ∈ l then states.refreshed lib chain u else states }

theorem States.get?_refreshAll (l : List String) (s : States) (u : String) :
    (s.refreshAll lib chain l).usersStates.get? u = if u ∈ l
      then (s.usersStates.get? u).map (UserStates.refreshed lib chain u)
      else s.usersStates.get? u := by
  rw [refreshAll, Dict.get?_mapWithKey]
  by_cases hu : u ∈ l
  · simp only [hu, if_true]
  · simp only [hu, if_false, Option.map_id']

theorem States.refreshAll_nil (s : States) : s.refreshAll lib chain [] = s := by
  rw [refreshAll]
  simp only [List.not_mem_nil, if_false, Dict.mapWithKey_id]

/-- Refreshing one user after the other. -/
theorem States.refreshAll_cons {u user : String} (hu : lib.toChecksumAddress u = .ok user)
    (l : List String) (s : States) :
    (s.refreshFlags u (chain.assetsIn user)).refreshAll lib chain l
      = s.refreshAll lib chain (u :: l) := by
  have hone : ∀ states : UserStates, states.withFlags (chain.assetsIn user)
      = states.refreshed lib chain u := by
    intro states
    rw [UserStates.refreshed, hu]
  rw [refreshAll, refreshAll, refreshFlags]
  simp only [Dict.modify, Dict.mapWithKey_mapWithKey]
  congr 2
  funext v states
  by_cases hv : v = u
  · subst hv
    simp only [if_true, hone, refreshed_refreshed, ite_self, List.mem_cons, true_or]
  · simp only [hv, if_false, List.mem_cons, false_or]

variable (lib) in
/-- The hook refreshes users in order, up to the first one for whom something raises. -/
theorem run_userStateExtendHook {node : EthNode} {blockNumber : ℤ}
    (hnode : node.Reports chain blockNumber) (b : ℤ) (l : List String) : ∀ s : States,
    ∃ done rest, l = done ++ rest ∧
      ((Proc.forEach l fun usr ↦ plainStates.onBase
        (States.reloadAndExtendStates lib (node.getAssetsIn b) usr)).run s).2
          = s.refreshAll lib chain done ∧
      (((Proc.forEach l fun usr ↦ plainStates.onBase
        (States.reloadAndExtendStates lib (node.getAssetsIn b) usr)).run s).1 = .ok () →
          rest = [] ∧ ∀ u ∈ l, ∃ user, lib.toChecksumAddress u = .ok user) := by
  induction l with
  | nil =>
    intro s
    exact ⟨[], [], rfl, s.refreshAll_nil.symm, fun _ ↦ ⟨rfl, fun _ h ↦ absurd h List.not_mem_nil⟩⟩
  | cons v l ih =>
    intro s
    have hfirst := States.run_reloadAndExtendStates lib (node.getAssetsIn b) v s
    rw [Proc.forEach_cons, Proc.run_bind, StatesClass.onBase, Proc.run_zoom]
    have hstates : plainStates.states s = s := rfl
    rw [hstates, hfirst]
    rcases hv : lib.toChecksumAddress v with e | user
    · exact ⟨[], v :: l, rfl, s.refreshAll_nil.symm, fun h ↦ (by cases h)⟩
    rw [ok_bind]
    rcases hassets : node.getAssetsIn b user with e | assets
    · exact ⟨[], v :: l, rfl, s.refreshAll_nil.symm, fun h ↦ (by cases h)⟩
    rcases s.usersStates.get? v with _ | states
    · exact ⟨[], v :: l, rfl, s.refreshAll_nil.symm, fun h ↦ (by cases h)⟩
    obtain ⟨done, rest, hl, hstate, hok⟩ := ih (s.refreshFlags v assets)
    refine ⟨v :: done, rest, congrArg (v :: ·) hl, ?_, fun h ↦ ?_⟩
    · rw [← States.refreshAll_cons hv, ← hnode.getAssetsIn b user assets hassets]
      exact hstate
    · obtain ⟨hrest, hknown⟩ := hok h
      refine ⟨hrest, fun u hu ↦ ?_⟩
      rcases List.mem_cons.mp hu with rfl | hu
      · exact ⟨user, hv⟩
      · exact hknown u hu

/-- On a node that always answers the hook goes through for users who are there. -/
theorem run_userStateExtendHook_node {blockNumber : ℤ} (b : ℤ) (l : List String) : ∀ s : States,
    (∀ u ∈ l, u ∈ s.usersStates.keys) → (∀ u ∈ l, ∃ user, lib.toChecksumAddress u = .ok user) →
    (Proc.forEach l fun usr ↦ plainStates.onBase
      (States.reloadAndExtendStates lib ((chain.node blockNumber).getAssetsIn b) usr)).run s
        = (.ok (), s.refreshAll lib chain l) := by
  induction l with
  | nil => exact fun s _ _ ↦ congrArg (Prod.mk _) s.refreshAll_nil.symm
  | cons v l ih =>
    intro s hkeys hknown
    obtain ⟨user, hv⟩ := hknown v List.mem_cons_self
    obtain ⟨states, hstates⟩ := Dict.mem_keys_iff.mp (hkeys v List.mem_cons_self)
    have hfirst : (plainStates.onBase (States.reloadAndExtendStates lib
        ((chain.node blockNumber).getAssetsIn b) v)).run s
        = (.ok (), s.refreshFlags v (chain.assetsIn user)) := by
      have hstate : plainStates.states s = s := rfl
      rw [StatesClass.onBase, Proc.run_zoom, hstate, States.run_reloadAndExtendStates, hv, hstates]
      rfl
    have hkeys' : (s.refreshFlags v (chain.assetsIn user)).usersStates.keys = s.usersStates.keys :=
      Dict.keys_modify _ _ _
    rw [Proc.forEach_cons, Proc.run_bind_of_ok hfirst, ih _ ?_ ?_, States.refreshAll_cons hv]
    · rw [hkeys']
      exact fun u hu ↦ hkeys u (List.mem_cons_of_mem v hu)
    · exact fun u hu ↦ hknown u (List.mem_cons_of_mem v hu)

/-! ## States that differ in flags -/

/-- The two states agree in all but the collateral flags. -/
structure States.SameButFlags (s t : States) : Prop where
  users : ∀ u, (s.usersStates.get? u).map (UserStates.withFlags [])
    = (t.usersStates.get? u).map (UserStates.withFlags [])
  ctokens : s.ctokens = t.ctokens
  lastUpdate : s.lastUpdate = t.lastUpdate
  plugged : s.plugIn.isSome = t.plugIn.isSome

/-- No change looks at a flag. -/
theorem UsersChange.post_flag {change : UsersChange} {ctk : Dict String CtokenInfos}
    {reserve u : String} {f : CompReserve → CompReserve} (h : change.post ctk reserve u = some f)
    (r : CompReserve) (flag : ℤ) :
    f { r with isColLiq := flag } = { f r with isColLiq := flag } := by
  rcases change with ⟨fromUser, toUser, amount⟩ | ⟨borrower, amount, totalBorrow⟩ | _ | _ | _
  · simp only [post, Option.ite_none_right_eq_some, Option.some_inj] at h
    rw [← h.2]
    split_ifs
    · rfl
    · rfl
  · simp only [post, Option.ite_none_right_eq_some, Option.some_inj] at h
    rw [← h.2]
    rcases ctk.get? reserve with _ | infos
    · rfl
    · rfl
  all_goals cases h

theorem touch_withFlags {reserve : String} {f : CompReserve → CompReserve}
    (hf : ∀ r flag, f { r with isColLiq := flag } = { f r with isColLiq := flag })
    (states : UserStates) :
    (states.touch reserve f).withFlags [] = (states.withFlags []).touch reserve f := by
  have hreserves : (states.reserves.set reserve (f (states.reserves.getD reserve newReserve))
        ).mapWithKey (fun _ r ↦ { r with isColLiq := 0 })
      = (states.reserves.mapWithKey fun _ r ↦ { r with isColLiq := 0 }).set reserve
          (f ((states.reserves.mapWithKey fun _ r ↦ { r with isColLiq := 0 }).getD reserve
            newReserve)) := by
    refine Dict.ext_get? ?_ fun key ↦ ?_
    · simp only [Dict.keys_mapWithKey, Dict.keys_set]
    · rw [Dict.get?_mapWithKey, Dict.get?_set, Dict.get?_set, Dict.get?_mapWithKey]
      by_cases hkey : key = reserve
      · rw [if_pos hkey, if_pos hkey, Option.map_some, Dict.getD, Dict.getD, Dict.get?_mapWithKey]
        rcases states.reserves.get? reserve with _ | r
        · exact congrArg some (hf newReserve 0).symm
        · exact congrArg some (hf r 0).symm
      · rw [if_neg hkey, if_neg hkey]
  simp only [UserStates.withFlags, UserStates.touch, List.not_mem_nil, if_false, hreserves]

namespace States

theorem SameButFlags.refl (s : States) : s.SameButFlags s := ⟨fun _ ↦ rfl, rfl, rfl, rfl⟩

theorem SameButFlags.getD_withFlags {s t : States} (h : s.SameButFlags t) (u : String) :
    (s.usersStates.getD u newUserStates).withFlags []
      = (t.usersStates.getD u newUserStates).withFlags [] := by
  have hu := h.users u
  rw [Dict.getD, Dict.getD]
  rcases hs : s.usersStates.get? u with _ | states
  · rw [hs, Option.map_none, eq_comm, Option.map_eq_none_iff] at hu
    rw [hu]
  · rw [hs, Option.map_some, eq_comm, Option.map_eq_some_iff] at hu
    obtain ⟨states', hstates', heq⟩ := hu
    rw [hstates', Option.getD_some, Option.getD_some, heq]

theorem SameButFlags.step {s t : States} (h : s.SameButFlags t) (log : LogReceipt) :
    (s.step lib log).SameButFlags (t.step lib log) where
  users u := by
    rw [get?_step, get?_step]
    rcases logChange lib log with _ | ⟨reserve, change⟩
    · exact h.users u
    · simp only [h.ctokens]
      rcases hpost : change.post t.ctokens reserve u with _ | f
      · exact h.users u
      · have hflag := UsersChange.post_flag hpost
        rw [Option.map_some, Option.map_some, touch_withFlags hflag, touch_withFlags hflag,
          h.getD_withFlags]
  ctokens := by rw [ctokens_step, ctokens_step, h.ctokens]
  lastUpdate := by rw [lastUpdate_step, lastUpdate_step, h.lastUpdate]
  plugged := by rw [isSome_plugIn_step, isSome_plugIn_step, h.plugged]

theorem SameButFlags.run {logs : List LogReceipt} : ∀ {s t : States}, s.SameButFlags t →
    (runFrom (States.step lib) s logs).SameButFlags (runFrom (States.step lib) t logs) := by
  induction logs with
  | nil => exact fun h ↦ h
  | cons log logs ih => exact fun h ↦ ih (h.step log)

theorem get?_run_of_not_names {logs : List LogReceipt} {u : String}
    (hu : ¬ ∃ log ∈ logs, log.names lib u) : ∀ s : States,
    (runFrom (States.step lib) s logs).usersStates.get? u = s.usersStates.get? u := by
  induction logs with
  | nil => exact fun _ ↦ rfl
  | cons log logs ih =>
    intro s
    have hlog : ¬ log.names lib u := fun h ↦ hu ⟨log, List.mem_cons_self, h⟩
    refine (ih (fun ⟨log', hmem, h⟩ ↦ hu ⟨log', List.mem_cons_of_mem log hmem, h⟩) _).trans ?_
    exact get?_step_of_not_names hlog s

theorem mem_keys_step {u : String} {s : States} (hu : u ∈ s.usersStates.keys) (log : LogReceipt) :
    u ∈ (s.step lib log).usersStates.keys := by
  by_cases hnames : log.names lib u
  · exact mem_keys_step_of_names hnames s
  · rw [Dict.mem_keys_iff, get?_step_of_not_names hnames, ← Dict.mem_keys_iff]
    exact hu

/-- A user named by a log of a run is there at its end. -/
theorem mem_keys_run {logs : List LogReceipt} {u : String} : ∀ {s : States},
    (u ∈ s.usersStates.keys ∨ ∃ log ∈ logs, log.names lib u) →
    u ∈ (runFrom (States.step lib) s logs).usersStates.keys := by
  induction logs with
  | nil =>
    rintro s (hu | ⟨log, hlog, -⟩)
    · exact hu
    · exact absurd hlog List.not_mem_nil
  | cons log logs ih =>
    rintro s (hu | ⟨log', hlog', hnames⟩)
    · exact ih (.inl (mem_keys_step hu log))
    · rcases List.mem_cons.mp hlog' with rfl | hlog'
      · exact ih (.inl (mem_keys_step_of_names hnames s))
      · exact ih (.inr ⟨log', hlog', hnames⟩)

theorem SameButFlags.refreshAll {s t : States} (h : s.SameButFlags t) (l l' : List String) :
    (s.refreshAll lib chain l).SameButFlags (t.refreshAll lib chain l') where
  users u := by
    have hblank : ∀ states : UserStates,
        (states.refreshed lib chain u).withFlags [] = states.withFlags [] := by
      intro states
      rw [UserStates.refreshed]
      rcases lib.toChecksumAddress u with e | user
      · rfl
      · exact withFlags_withFlags _ _ states
    have hmap : ∀ x : Option UserStates, (x.map (UserStates.refreshed lib chain u)).map
        (UserStates.withFlags []) = x.map (UserStates.withFlags []) := by
      intro x
      rw [Option.map_map]
      congr 1
      exact funext hblank
    rw [get?_refreshAll, get?_refreshAll]
    split_ifs
    all_goals simp only [hmap, h.users]
  ctokens := h.ctokens
  lastUpdate := h.lastUpdate
  plugged := h.plugged

/-- Once both have refreshed a user, the user is the same in both. -/
theorem SameButFlags.get?_refreshAll {s t : States} (h : s.SameButFlags t) {l l' : List String}
    {u user : String} (hl : u ∈ l) (hl' : u ∈ l') (hu : lib.toChecksumAddress u = .ok user) :
    (s.refreshAll lib chain l).usersStates.get? u
      = (t.refreshAll lib chain l').usersStates.get? u := by
  have hrefreshed : ∀ states : UserStates, states.refreshed lib chain u
      = (states.withFlags []).withFlags (chain.assetsIn user) := by
    intro states
    rw [UserStates.refreshed, hu, withFlags_withFlags]
  have hmap : ∀ x : Option UserStates, x.map (UserStates.refreshed lib chain u)
      = (x.map (UserStates.withFlags [])).map (UserStates.withFlags (chain.assetsIn user)) := by
    intro x
    rw [Option.map_map]
    congr 1
    exact funext hrefreshed
  rw [States.get?_refreshAll, States.get?_refreshAll, if_pos hl, if_pos hl', hmap, hmap, h.users]

end States

/-! ## Windows -/

/-- The states after the logs of a window and the new block number. -/
def States.advanced (lib : EthLibs) (chain : Chain) (toBlock : ℤ) (s : States) : States :=
  { runFrom (States.step lib) s (rangeLogs chain.logsOf (s.lastUpdate + 1) toBlock) with
    lastUpdate := toBlock }

theorem States.usersStates_advanced (toBlock : ℤ) (s : States) :
    (s.advanced lib chain toBlock).usersStates = (runFrom (States.step lib) s
      (rangeLogs chain.logsOf (s.lastUpdate + 1) toBlock)).usersStates := rfl

theorem States.refreshAll_congr {l l' : List String} (h : ∀ u, u ∈ l ↔ u ∈ l') (s : States) :
    s.refreshAll lib chain l = s.refreshAll lib chain l' := by
  rw [refreshAll, refreshAll]
  simp only [h]

/-- A window whose logs are fetched and accepted has only its hook left. -/
theorem run_queryWindow_of_ok {node : EthNode} {targetBlock toBlock : ℤ} {s s' : States}
    {logs : List LogReceipt} {users : Dict String ChangeType}
    (hto : toBlock = StatesClass.windowEnd (s.lastUpdate + 1) targetBlock)
    (hlogs : node.getLogs (s.lastUpdate + 1) toBlock = .ok logs)
    (hall : (plainStates.updateAll lib logs ∅).run s = (.ok users, s')) :
    (plainStates.queryWindow lib node targetBlock).run s
      = (Proc.forEach users.keys fun usr ↦ plainStates.onBase
          (States.reloadAndExtendStates lib (node.getAssetsIn toBlock) usr)).run
            { s' with lastUpdate := toBlock } := by
  rw [run_queryWindow, ← hto, hlogs]
  simp only [hall]
  rfl

/-- A window whose logs are all accepted fails when its logs are fetched, and has done nothing, or
gets them applied and refreshes the users they name as far as it comes. -/
theorem queryWindow_cases {node : EthNode} {blockNumber targetBlock toBlock : ℤ} {s : States}
    (hnode : node.Reports chain blockNumber)
    (hto : toBlock = StatesClass.windowEnd (s.lastUpdate + 1) targetBlock)
    (hcalm : ∀ log ∈ rangeLogs chain.logsOf (s.lastUpdate + 1) toBlock,
      log.raises lib s.ctokens s.plugIn.isSome = false) :
    (plainStates.queryWindow lib node targetBlock).run s
        = (.error (.exception "get logs failed"), s) ∨
      ∃ done rest, (∀ u, u ∈ done ++ rest ↔ chain.Names lib s.lastUpdate toBlock u) ∧
        ((plainStates.queryWindow lib node targetBlock).run s).2
          = (s.advanced lib chain toBlock).refreshAll lib chain done ∧
        (((plainStates.queryWindow lib node targetBlock).run s).1 = .ok () → rest = [] ∧
          ∀ u, chain.Names lib s.lastUpdate toBlock u →
            ∃ user, lib.toChecksumAddress u = .ok user) := by
  rcases hlogs : node.getLogs (s.lastUpdate + 1) toBlock with e | logs
  · rw [run_queryWindow, ← hto, hlogs]
    exact .inl rfl
  · refine .inr ?_
    rw [← hnode.getLogs _ _ _ hlogs] at hcalm
    obtain ⟨users, s', hall⟩ := updateAll_of_calm ∅ hcalm
    obtain ⟨hs', -, hkeys⟩ := updateAll_ok hall
    have hnamed : ∀ u, u ∈ users.keys ↔ chain.Names lib s.lastUpdate toBlock u := by
      intro u
      rw [hkeys, Chain.Names, ← hnode.getLogs _ _ _ hlogs]
      simp
    have hadvanced : { s' with lastUpdate := toBlock } = s.advanced lib chain toBlock := by
      rw [hs', hnode.getLogs _ _ _ hlogs, States.advanced]
    obtain ⟨done, rest, hl, hstate, hok⟩ := run_userStateExtendHook lib hnode toBlock
      users.keys (s.advanced lib chain toBlock)
    rw [run_queryWindow_of_ok hto hlogs hall, hadvanced]
    refine ⟨done, rest, fun u ↦ by rw [← hl, hnamed], hstate, fun h ↦ ?_⟩
    obtain ⟨hrest, hknown⟩ := hok h
    exact ⟨hrest, fun u hu ↦ hknown u ((hnamed u).mpr hu)⟩

/-- A window goes through on a node that always answers, if its logs are accepted and the users
they name have addresses. -/
theorem queryWindow_node (blockNumber : ℤ) {targetBlock toBlock : ℤ} {s : States}
    (hto : toBlock = StatesClass.windowEnd (s.lastUpdate + 1) targetBlock)
    (hcalm : ∀ log ∈ rangeLogs chain.logsOf (s.lastUpdate + 1) toBlock,
      log.raises lib s.ctokens s.plugIn.isSome = false)
    (hknown : ∀ u, chain.Names lib s.lastUpdate toBlock u →
      ∃ user, lib.toChecksumAddress u = .ok user) :
    ∃ l, (∀ u, u ∈ l ↔ chain.Names lib s.lastUpdate toBlock u) ∧
      (plainStates.queryWindow lib (chain.node blockNumber) targetBlock).run s
        = (.ok (), (s.advanced lib chain toBlock).refreshAll lib chain l) := by
  have hlogs : (chain.node blockNumber).getLogs (s.lastUpdate + 1) toBlock
      = .ok (rangeLogs chain.logsOf (s.lastUpdate + 1) toBlock) := rfl
  obtain ⟨users, s', hall⟩ := updateAll_of_calm ∅ hcalm
  obtain ⟨hs', -, hkeys⟩ := updateAll_ok hall
  have hnamed : ∀ u, u ∈ users.keys ↔ chain.Names lib s.lastUpdate toBlock u := by
    intro u
    rw [hkeys, Chain.Names]
    simp
  have hadvanced : { s' with lastUpdate := toBlock } = s.advanced lib chain toBlock := by
    rw [hs', States.advanced]
  refine ⟨users.keys, hnamed, ?_⟩
  rw [run_queryWindow_of_ok hto hlogs hall, hadvanced]
  refine run_userStateExtendHook_node toBlock users.keys (s.advanced lib chain toBlock) ?_ ?_
  · exact fun u hu ↦ States.mem_keys_run (.inr ((hnamed u).mp hu))
  · exact fun u hu ↦ hknown u ((hnamed u).mp hu)

/-- A window that went through on such a node had nothing to raise for. -/
theorem queryWindow_node_ok {blockNumber targetBlock toBlock : ℤ} {s s' : States}
    (hto : toBlock = StatesClass.windowEnd (s.lastUpdate + 1) targetBlock)
    (h : (plainStates.queryWindow lib (chain.node blockNumber) targetBlock).run s = (.ok (), s')) :
    (∀ log ∈ rangeLogs chain.logsOf (s.lastUpdate + 1) toBlock,
        log.raises lib s.ctokens s.plugIn.isSome = false) ∧
      ∀ u, chain.Names lib s.lastUpdate toBlock u →
        ∃ user, lib.toChecksumAddress u = .ok user := by
  have hcalm : ∀ log ∈ rangeLogs chain.logsOf (s.lastUpdate + 1) toBlock,
      log.raises lib s.ctokens s.plugIn.isSome = false := by
    have hlogs : (chain.node blockNumber).getLogs (s.lastUpdate + 1) toBlock
        = .ok (rangeLogs chain.logsOf (s.lastUpdate + 1) toBlock) := rfl
    rw [run_queryWindow, ← hto, hlogs] at h
    rcases hall : (plainStates.updateAll lib
        (rangeLogs chain.logsOf (s.lastUpdate + 1) toBlock) ∅).run s with ⟨e | users, s₂⟩
    · simp only [hall] at h
      cases (Prod.mk.inj h).1
    · exact (updateAll_ok hall).2.1
  refine ⟨hcalm, ?_⟩
  rcases queryWindow_cases (chain.reports_node blockNumber) hto hcalm with hfail | ⟨_, _, _, _, hok⟩
  · rw [hfail] at h
    cases (Prod.mk.inj h).1
  · exact (hok (congrArg Prod.fst h)).2

theorem States.get?_advanced_of_not_names {toBlock : ℤ} {s : States} {u : String}
    (hu : ¬ chain.Names lib s.lastUpdate toBlock u) :
    (s.advanced lib chain toBlock).usersStates.get? u = s.usersStates.get? u :=
  States.get?_run_of_not_names hu s

theorem States.SameButFlags.advanced {s t : States} (h : s.SameButFlags t) (toBlock : ℤ) :
    (s.advanced lib chain toBlock).SameButFlags (t.advanced lib chain toBlock) := by
  have hrun : (runFrom (States.step lib) s
        (rangeLogs chain.logsOf (t.lastUpdate + 1) toBlock)).SameButFlags
      (runFrom (States.step lib) t (rangeLogs chain.logsOf (t.lastUpdate + 1) toBlock)) := h.run
  rw [States.advanced, States.advanced, h.lastUpdate]
  exact ⟨hrun.users, hrun.ctokens, rfl, hrun.plugged⟩

/-- The same window on two states that differ in flags. -/
theorem States.SameButFlags.window {s t : States} (h : s.SameButFlags t) {toBlock : ℤ}
    {l l' : List String} (hl : ∀ u, u ∈ l ↔ chain.Names lib t.lastUpdate toBlock u)
    (hl' : ∀ u, u ∈ l' ↔ chain.Names lib t.lastUpdate toBlock u)
    (hknown : ∀ u, chain.Names lib t.lastUpdate toBlock u →
      ∃ user, lib.toChecksumAddress u = .ok user) :
    ∀ u, ((s.advanced lib chain toBlock).refreshAll lib chain l).usersStates.get? u
        = ((t.advanced lib chain toBlock).refreshAll lib chain l').usersStates.get? u ↔
      s.usersStates.get? u = t.usersStates.get? u ∨ chain.Names lib t.lastUpdate toBlock u := by
  intro u
  by_cases hu : chain.Names lib t.lastUpdate toBlock u
  · obtain ⟨user, huser⟩ := hknown u hu
    exact iff_of_true ((h.advanced toBlock).get?_refreshAll ((hl u).mpr hu) ((hl' u).mpr hu) huser)
      (.inr hu)
  · have hs : ¬ chain.Names lib s.lastUpdate toBlock u := h.lastUpdate ▸ hu
    rw [States.get?_refreshAll, States.get?_refreshAll, if_neg ((hl u).not.mpr hu),
      if_neg ((hl' u).not.mpr hu), States.get?_advanced_of_not_names hs,
      States.get?_advanced_of_not_names hu, or_iff_left hu]

/-! ## The loop from the failure on -/

theorem lt_windowEnd {lastUpdate targetBlock : ℤ} (h : lastUpdate < targetBlock) :
    lastUpdate < StatesClass.windowEnd (lastUpdate + 1) targetBlock ∧
      StatesClass.windowEnd (lastUpdate + 1) targetBlock ≤ targetBlock := by
  rw [StatesClass.windowEnd]
  split_ifs
  · omega
  · omega

theorem Chain.not_names_of_le {lastUpdate toBlock : ℤ} (h : toBlock ≤ lastUpdate) (u : String) :
    ¬ chain.Names lib lastUpdate toBlock u := by
  rintro ⟨log, hlog, -⟩
  obtain ⟨b, hfrom, hto, -⟩ := mem_rangeLogs.mp hlog
  omega

/-- One round of the loop. -/
theorem run_queryEventsLoop_succ (node : EthNode) (targetBlock : ℤ) (n : ℕ) (s : States) :
    (plainStates.queryEventsLoop lib node targetBlock (n + 1)).run s
      = if s.lastUpdate < targetBlock then
          (plainStates.queryWindow lib node targetBlock >>= fun _ ↦
            plainStates.queryEventsLoop lib node targetBlock n).run s
        else (.ok (), s) := by
  have hstates : plainStates.states s = s := rfl
  rw [StatesClass.queryEventsLoop, Proc.run_bind, Proc.run_read]
  simp only [hstates]
  split_ifs
  · rfl
  · rfl

/-- More rounds than blocks are missing make no difference. -/
theorem queryEventsLoop_fuel {node : EthNode} (hnode : node.Exact chain.logsOf) {targetBlock : ℤ}
    (m : ℕ) : ∀ (n : ℕ) {s : States}, (targetBlock - s.lastUpdate).toNat ≤ m →
    (targetBlock - s.lastUpdate).toNat ≤ n →
    (plainStates.queryEventsLoop lib node targetBlock m).run s
      = (plainStates.queryEventsLoop lib node targetBlock n).run s := by
  have hzero : ∀ (n : ℕ) {s : States}, targetBlock ≤ s.lastUpdate →
      (plainStates.queryEventsLoop lib node targetBlock n).run s = (.ok (), s) := by
    intro n s hdone
    rcases n with _ | n
    · rfl
    · rw [run_queryEventsLoop_succ, if_neg (Int.not_lt.mpr hdone)]
  induction m with
  | zero =>
    intro n s hm _
    rw [hzero 0 (by omega), hzero n (by omega)]
  | succ m ih =>
    intro n s hm hn
    rcases le_or_gt targetBlock s.lastUpdate with hdone | hlt
    · rw [hzero _ hdone, hzero _ hdone]
    rcases n with _ | n
    · omega
    rw [run_queryEventsLoop_succ, run_queryEventsLoop_succ, if_pos hlt, if_pos hlt, Proc.run_bind,
      Proc.run_bind]
    rcases hwindow : (plainStates.queryWindow lib node targetBlock).run s with ⟨e | _, s'⟩
    · rfl
    · have hlast := (queryWindow_ok hnode hwindow).1
      have hend := lt_windowEnd hlt
      exact ih n (by omega) (by omega)

/-- **The resumed call.** From states that differ in flags alone, calls on a node that always
answers go on alike. At the end a user is the same in both if it was so before, or if a log of the
remaining blocks names the user. -/
theorem queryEventsLoop_resumed {blockNumber targetBlock : ℤ} (n : ℕ) : ∀ {s t t' : States},
    s.SameButFlags t → (targetBlock - s.lastUpdate).toNat ≤ n →
    (plainStates.queryEventsLoop lib (chain.node blockNumber) targetBlock n).run t = (.ok (), t') →
    ∃ s', (plainStates.queryEventsLoop lib (chain.node blockNumber) targetBlock n).run s
        = (.ok (), s') ∧ s'.SameButFlags t' ∧
      ∀ u, s'.usersStates.get? u = t'.usersStates.get? u ↔
        s.usersStates.get? u = t.usersStates.get? u ∨
          chain.Names lib s.lastUpdate targetBlock u := by
  induction n with
  | zero =>
    intro s t t' hsame hn ht
    refine ⟨s, rfl, (Prod.mk.inj ht).2 ▸ hsame, fun u ↦ ?_⟩
    rw [← (Prod.mk.inj ht).2, or_iff_left (Chain.not_names_of_le (by omega) u)]
  | succ n ih =>
    intro s t t' hsame hn ht
    rw [run_queryEventsLoop_succ] at ht ⊢
    rw [hsame.lastUpdate]
    by_cases hlt : t.lastUpdate < targetBlock
    · rw [if_pos hlt] at ht ⊢
      obtain ⟨_, t₁, hwindow, hrest⟩ := Proc.run_bind_ok ht
      obtain ⟨toBlock, hto⟩ : ∃ toBlock, toBlock = StatesClass.windowEnd (t.lastUpdate + 1)
        targetBlock := ⟨_, rfl⟩
      obtain ⟨hcalm, hknown⟩ := queryWindow_node_ok hto hwindow
      have hcalm' : ∀ log ∈ rangeLogs chain.logsOf (s.lastUpdate + 1) toBlock,
          log.raises lib s.ctokens s.plugIn.isSome = false := by
        rw [hsame.lastUpdate, hsame.ctokens, hsame.plugged]
        exact hcalm
      have hto' := hto
      have hknown' := hknown
      rw [← hsame.lastUpdate] at hto' hknown'
      obtain ⟨l, hl, ht₁⟩ := queryWindow_node blockNumber hto hcalm hknown
      obtain ⟨l', hl', hs₁⟩ := queryWindow_node blockNumber hto' hcalm' hknown'
      rw [hsame.lastUpdate] at hl'
      obtain ⟨-, rfl⟩ := Prod.mk.inj (ht₁.symm.trans hwindow)
      obtain ⟨hend, hend'⟩ := lt_windowEnd hlt
      rw [← hto] at hend hend'
      have hlast : ((s.advanced lib chain toBlock).refreshAll lib chain l').lastUpdate = toBlock :=
        rfl
      have hfuel : (targetBlock - ((s.advanced lib chain toBlock).refreshAll lib chain
          l').lastUpdate).toNat ≤ n := by
        rw [hsame.lastUpdate] at hn
        omega
      obtain ⟨s', hs', hsame', heq⟩ := ih ((hsame.advanced toBlock).refreshAll l' l) hfuel hrest
      refine ⟨s', (Proc.run_bind_of_ok hs₁).trans hs', hsame', fun u ↦ ?_⟩
      rw [heq, hlast, hsame.window hl' hl hknown, Chain.names_split hend.le hend', or_assoc]
    · rw [if_neg hlt] at ht ⊢
      refine ⟨s, rfl, (Prod.mk.inj ht).2 ▸ hsame, fun u ↦ ?_⟩
      rw [← (Prod.mk.inj ht).2, or_iff_left (Chain.not_names_of_le (Int.not_lt.mp hlt) u)]

/-- Where the call on a failing node and the uninterrupted call on a good one have come to the same
block: `s₁` is what the failure left, and `t₁` is what the other call has at that block. -/
structure Interrupted (lib : EthLibs) (chain : Chain) (targetBlock : ℤ) (s s₁ t₁ : States) :
    Prop where
  same : s₁.SameButFlags t₁
  lower : s.lastUpdate ≤ s₁.lastUpdate
  upper : s₁.lastUpdate ≤ max s.lastUpdate targetBlock
  untouched : ∀ u, ¬ chain.Names lib s.lastUpdate s₁.lastUpdate u →
    s₁.usersStates.get? u = s.usersStates.get? u
  right : ∀ u, s₁.usersStates.get? u = t₁.usersStates.get? u ↔
    (chain.Names lib s.lastUpdate s₁.lastUpdate u → s₁.FlagsRight lib chain u)

theorem Interrupted.refl (targetBlock : ℤ) (s : States) :
    Interrupted lib chain targetBlock s s s where
  same := .refl s
  lower := le_rfl
  upper := le_max_left _ _
  untouched _ _ := rfl
  right u := iff_of_true rfl fun h ↦ absurd h (Chain.not_names_of_le le_rfl u)

/-- The hook stopped behind the users in `done`. -/
theorem interrupted_hook {targetBlock toBlock : ℤ} {s : States} {done rest l : List String}
    (hend : s.lastUpdate < toBlock ∧ toBlock ≤ targetBlock)
    (hdone : ∀ u, u ∈ done ++ rest ↔ chain.Names lib s.lastUpdate toBlock u)
    (hl : ∀ u, u ∈ l ↔ chain.Names lib s.lastUpdate toBlock u) :
    Interrupted lib chain targetBlock s
      ((s.advanced lib chain toBlock).refreshAll lib chain done)
      ((s.advanced lib chain toBlock).refreshAll lib chain l) where
  same := (States.SameButFlags.refl _).refreshAll done l
  lower := hend.1.le
  upper := le_max_of_le_right hend.2
  untouched u hu := by
    have hnames : ¬ chain.Names lib s.lastUpdate toBlock u := hu
    have hu' : u ∉ done := fun h ↦ hnames ((hdone u).mp (List.mem_append_left rest h))
    rw [States.get?_refreshAll, if_neg hu', States.get?_advanced_of_not_names hnames]
  right u := by
    have hlast : ((s.advanced lib chain toBlock).refreshAll lib chain done).lastUpdate = toBlock :=
      rfl
    rw [flagsRight_iff, hlast, ← hl, States.get?_refreshAll, States.get?_refreshAll]
    by_cases hu : u ∈ done
    · have hul : u ∈ l := (hl u).mpr ((hdone u).mp (List.mem_append_left rest hu))
      rw [if_pos hu, if_pos hul, Option.map_map]
      refine iff_of_true rfl fun _ ↦ ?_
      congr 1
      exact funext fun states ↦ refreshed_refreshed u states
    · rw [if_neg hu]
      by_cases hul : u ∈ l
      · rw [if_pos hul]
        exact ⟨fun h _ ↦ h.symm, fun h ↦ (h hul).symm⟩
      · rw [if_neg hul]
        exact iff_of_true rfl fun h ↦ absurd h hul

/-- A completed window in front. -/
theorem Interrupted.after_window {targetBlock toBlock : ℤ} {s s₁ t₁ : States} {l : List String}
    (hend : s.lastUpdate < toBlock ∧ toBlock ≤ targetBlock)
    (hl : ∀ u, u ∈ l ↔ chain.Names lib s.lastUpdate toBlock u)
    (h : Interrupted lib chain targetBlock
      ((s.advanced lib chain toBlock).refreshAll lib chain l) s₁ t₁) :
    Interrupted lib chain targetBlock s s₁ t₁ := by
  have hlast : ((s.advanced lib chain toBlock).refreshAll lib chain l).lastUpdate = toBlock := rfl
  obtain ⟨hsame, hlower, hupper, huntouched, hright⟩ := h
  rw [hlast] at hlower hupper huntouched hright
  refine ⟨hsame, hend.1.le.trans hlower, by omega, fun u hu ↦ ?_, fun u ↦ ?_⟩
  · rw [Chain.names_split hend.1.le hlower, not_or] at hu
    rw [huntouched u hu.2, States.get?_refreshAll, if_neg ((hl u).not.mpr hu.1),
      States.get?_advanced_of_not_names hu.1]
  · rw [hright, Chain.names_split hend.1.le hlower]
    refine ⟨fun h hu ↦ ?_, fun h hu ↦ h (.inr hu)⟩
    by_cases hlater : chain.Names lib toBlock s₁.lastUpdate u
    · exact h hlater
    -- refreshed in the window in front, and not named since
    · have hul : u ∈ l := (hl u).mpr (hu.resolve_right hlater)
      rw [flagsRight_iff, huntouched u hlater, States.get?_refreshAll, if_pos hul, Option.map_map]
      congr 1
      exact funext fun states ↦ refreshed_refreshed u states

/-- **The failure.** -/
theorem queryEventsLoop_interrupted {node : EthNode} {blockNumber targetBlock : ℤ}
    (hnode : node.Reports chain blockNumber) (n : ℕ) : ∀ {s s₁ s' : States} {e : Error},
    (targetBlock - s.lastUpdate).toNat ≤ n →
    (plainStates.queryEventsLoop lib node targetBlock n).run s = (.error e, s₁) →
    (plainStates.queryEventsLoop lib (chain.node blockNumber) targetBlock n).run s = (.ok (), s') →
    ∃ t₁ m, Interrupted lib chain targetBlock s s₁ t₁ ∧ (targetBlock - t₁.lastUpdate).toNat ≤ m ∧
      (plainStates.queryEventsLoop lib (chain.node blockNumber) targetBlock m).run t₁
        = (.ok (), s') := by
  induction n with
  | zero => exact fun _ h _ ↦ (by cases (Prod.mk.inj h).1)
  | succ n ih =>
    intro s s₁ s' e hn hfail hfull
    have hfull' := hfull
    rw [run_queryEventsLoop_succ] at hfail hfull
    by_cases hlt : s.lastUpdate < targetBlock
    · rw [if_pos hlt] at hfail hfull
      obtain ⟨_, t₁, hwindow, hrest⟩ := Proc.run_bind_ok hfull
      obtain ⟨toBlock, hto⟩ : ∃ toBlock, toBlock = StatesClass.windowEnd (s.lastUpdate + 1)
        targetBlock := ⟨_, rfl⟩
      have hend := lt_windowEnd hlt
      rw [← hto] at hend
      obtain ⟨hcalm, hknown⟩ := queryWindow_node_ok hto hwindow
      obtain ⟨l, hl, ht₁⟩ := queryWindow_node blockNumber hto hcalm hknown
      obtain ⟨-, rfl⟩ := Prod.mk.inj (ht₁.symm.trans hwindow)
      have hfuel : (targetBlock - ((s.advanced lib chain toBlock).refreshAll lib chain
          l).lastUpdate).toNat ≤ n := by
        have hlast : ((s.advanced lib chain toBlock).refreshAll lib chain l).lastUpdate = toBlock :=
          rfl
        omega
      rw [Proc.run_bind] at hfail
      rcases queryWindow_cases hnode hto hcalm with hfetch | ⟨done, rest, hdone, hstate, hok⟩
      · -- the logs could not be fetched: nothing has happened in this window
        rw [hfetch] at hfail
        obtain ⟨-, rfl⟩ := Prod.mk.inj hfail
        exact ⟨s, n + 1, .refl targetBlock s, hn, hfull'⟩
      · rcases hrun : (plainStates.queryWindow lib node targetBlock).run s with ⟨e' | _, s₂⟩
        · -- the hook raised
          rw [hrun] at hstate hfail
          obtain ⟨-, rfl⟩ := Prod.mk.inj hfail
          refine ⟨_, n, ?_, hfuel, hrest⟩
          exact (show s₂ = _ from hstate) ▸ interrupted_hook hend hdone hl
        · rw [hrun] at hstate hfail hok
          obtain ⟨rfl, -⟩ := hok rfl
          have hs₂ : s₂ = (s.advanced lib chain toBlock).refreshAll lib chain l := by
            refine hstate.trans (States.refreshAll_congr (fun u ↦ ?_) _)
            rw [hl, ← hdone, List.append_nil]
          subst hs₂
          obtain ⟨t₁, m, hinter, hm, hloop⟩ := ih hfuel hfail hrest
          exact ⟨t₁, m, hinter.after_window hend hl, hm, hloop⟩
    · rw [if_neg hlt] at hfail
      cases (Prod.mk.inj hfail).1

/-- The same users with the same balances, debts and flags, the same cToken data, and the same
block. -/
def States.SamePositions (s t : States) : Prop :=
  (∀ u, s.usersStates.get? u = t.usersStates.get? u) ∧ s.ctokens = t.ctokens ∧
    s.lastUpdate = t.lastUpdate

theorem run_syncStates {node : EthNode} {targetBlock delay : ℤ}
    (hnode : node.getBlockNumber = .ok (targetBlock + delay)) (s : States) :
    (plainStates.syncStates lib node delay).run s
      = (plainStates.queryEventsLoop lib node targetBlock
        (targetBlock - s.lastUpdate).toNat).run s := by
  have hdelay : targetBlock + delay - delay = targetBlock := by ring
  have hstates : plainStates.states s = s := rfl
  rw [StatesClass.syncStates, hnode, Proc.run_bind, Proc.run_ofExcept]
  simp only [hdelay, StatesClass.queryEventsLoopLiq, Proc.run_bind, Proc.run_read, hstates]

/-- **Resuming.** After a call that raised, the next one ends where an uninterrupted call would
have, exactly when every user named so far has the flags of the chain or is named again by a block
that is still to come. -/
theorem resumed_iff {node : EthNode} {targetBlock delay : ℤ}
    (hnode : node.Reports chain (targetBlock + delay)) {s s₁ s' : States} {e : Error}
    (hfail : (plainStates.syncStates lib node delay).run s = (.error e, s₁))
    (hfull : (plainStates.syncStates lib (chain.node (targetBlock + delay)) delay).run s
      = (.ok (), s')) :
    (∃ s'', (plainStates.syncStates lib (chain.node (targetBlock + delay)) delay).run s₁
        = (.ok (), s'') ∧ s''.SamePositions s') ↔
      ∀ u, chain.Names lib s.lastUpdate s₁.lastUpdate u →
        s₁.FlagsRight lib chain u ∨ chain.Names lib s₁.lastUpdate targetBlock u := by
  have hgood : (chain.node (targetBlock + delay)).Reports chain (targetBlock + delay) :=
    chain.reports_node _
  rw [run_syncStates hnode.getBlockNumber] at hfail
  rw [run_syncStates hgood.getBlockNumber] at hfull
  rw [run_syncStates hgood.getBlockNumber]
  obtain ⟨t₁, m, hinter, hm, hloop⟩ := queryEventsLoop_interrupted hnode _ le_rfl hfail hfull
  rw [← hinter.same.lastUpdate] at hm
  obtain ⟨s'', hs'', hsame, heq⟩ := queryEventsLoop_resumed m hinter.same hm hloop
  rw [queryEventsLoop_fuel hgood.getLogs m _ hm le_rfl] at hs''
  have husers : ∀ u, s''.usersStates.get? u = s'.usersStates.get? u ↔
      (chain.Names lib s.lastUpdate s₁.lastUpdate u →
        s₁.FlagsRight lib chain u ∨ chain.Names lib s₁.lastUpdate targetBlock u) := by
    intro u
    rw [heq, hinter.right]
    tauto
  constructor
  · rintro ⟨t, ht, hpositions, -⟩ u
    obtain ⟨-, rfl⟩ := Prod.mk.inj (hs''.symm.trans ht)
    exact (husers u).mp (hpositions u)
  · intro h
    exact ⟨s'', hs'', fun u ↦ (husers u).mpr (h u), hsame.ctokens, hsame.lastUpdate⟩

end Resume

/-! ## A lost refresh -/

/-- A mint in the market of `newMarketStates`, for a user who has entered it. -/
def mintedChain : Chain where
  logsOf b := if b = 101 then [mintLog] else []
  assetsIn _ := ["0xA07c5b74C9B40447a954e1466938b865b6BBea36"]

/-- The comptroller does not answer. -/
def silentNode : EthNode :=
  { mintedChain.node 101 with getAssetsIn := fun _ _ ↦ .error (.exception "") }

/-- The addresses of the mint. -/
def mintLibs : EthLibs := staticLibs
  [("0xA07c5b74C9B40447a954e1466938b865b6BBea36", "0xA07c5b74C9B40447a954e1466938b865b6BBea36"),
    ("0xa07c5b74c9b40447a954e1466938b865b6bbea36", "0xA07c5b74C9B40447a954e1466938b865b6BBea36"),
    ("0x9109358674f1c9a1a945a1d9880fb7ef1ddc43a3", "0x9109358674F1C9a1a945a1d9880fb7EF1DDC43a3")]

theorem usersChange_mintLibs :
    usersChange mintLibs mintLog = .ok (some ("0xA07c5b74C9B40447a954e1466938b865b6BBea36",
      .transfer "0xa07c5b74c9b40447a954e1466938b865b6bbea36"
        "0x9109358674f1c9a1a945a1d9880fb7ef1ddc43a3" 9)) :=
  usersChange_mintLog (by decide +kernel) (by decide +kernel)

theorem reports_silentNode : silentNode.Reports mintedChain 101 where
  getBlockNumber := rfl
  getLogs _ _ _ h := (Except.ok.inj h).symm
  getAssetsIn _ _ _ h := (by cases h)

theorem logChange_mintLibs :
    States.logChange mintLibs mintLog = some ("0xA07c5b74C9B40447a954e1466938b865b6BBea36",
      .transfer "0xa07c5b74c9b40447a954e1466938b865b6bbea36"
        "0x9109358674f1c9a1a945a1d9880fb7ef1ddc43a3" 9) := by
  rw [States.logChange, usersChange_mintLibs]

theorem raises_mintLog :
    mintLog.raises mintLibs newMarketStates.ctokens newMarketStates.plugIn.isSome = false := by
  rw [LogReceipt.raises, usersChange_mintLibs]
  decide +kernel

private theorem names_mintLog_iff (u : String) : mintLog.names mintLibs u ↔
    u = "0xa07c5b74c9b40447a954e1466938b865b6bbea36" ∨
      u = "0x9109358674f1c9a1a945a1d9880fb7ef1ddc43a3" := by
  rw [LogReceipt.names, logChange_mintLibs]
  simp only [Option.some_inj, exists_eq_left', UsersChange.names]

private theorem rangeLogs_minted : rangeLogs mintedChain.logsOf (100 + 1) 101 = [mintLog] := rfl

private theorem names_minted_iff (u : String) :
    mintedChain.Names mintLibs 100 101 u ↔ mintLog.names mintLibs u := by
  rw [Chain.Names, rangeLogs_minted]
  simp only [List.mem_singleton, exists_eq_left]

private theorem calm_minted :
    ∀ log ∈ rangeLogs mintedChain.logsOf (newMarketStates.lastUpdate + 1) 101,
      log.raises mintLibs newMarketStates.ctokens newMarketStates.plugIn.isSome = false := by
  intro log hlog
  have hmem : log ∈ rangeLogs mintedChain.logsOf (100 + 1) 101 := hlog
  rw [rangeLogs_minted, List.mem_singleton] at hmem
  rw [hmem]
  exact raises_mintLog

private theorem run_sync_minted {node : EthNode} (hnode : node.getBlockNumber = .ok (101 + 0)) :
    (plainStates.syncStates mintLibs node 0).run newMarketStates
      = (plainStates.queryWindow mintLibs node 101 >>= fun _ ↦ pure ()).run newMarketStates := by
  have hlt : newMarketStates.lastUpdate < 101 := by decide
  have hfuel : (101 - newMarketStates.lastUpdate).toNat = 0 + 1 := rfl
  rw [run_syncStates hnode, hfuel, run_queryEventsLoop_succ, if_pos hlt]
  rfl

/-- Where the comptroller does not answer, the logs are in and no flag is set. -/
theorem silentNode_fails : ∃ e, (plainStates.syncStates mintLibs silentNode 0).run newMarketStates
    = (.error e, newMarketStates.advanced mintLibs mintedChain 101) := by
  have hlogs : silentNode.getLogs (newMarketStates.lastUpdate + 1) 101
      = .ok (rangeLogs mintedChain.logsOf (newMarketStates.lastUpdate + 1) 101) := rfl
  obtain ⟨users, s', hall⟩ := updateAll_of_calm ∅ calm_minted
  obtain ⟨hs', -, hkeys⟩ := updateAll_ok hall
  have hadvanced : { s' with lastUpdate := 101 }
      = newMarketStates.advanced mintLibs mintedChain 101 := by
    rw [hs', States.advanced]
  have hfirst : ∀ (l : List String) (s : States), l ≠ [] → ∃ e,
      (Proc.forEach l fun usr ↦ plainStates.onBase (States.reloadAndExtendStates mintLibs
        (silentNode.getAssetsIn 101) usr)).run s = (.error e, s) := by
    intro l s hl
    obtain ⟨v, l, rfl⟩ := List.exists_cons_of_ne_nil hl
    have hstates : plainStates.states s = s := rfl
    rw [Proc.forEach_cons, Proc.run_bind, StatesClass.onBase, Proc.run_zoom, hstates,
      States.run_reloadAndExtendStates]
    rcases mintLibs.toChecksumAddress v with e | user
    · exact ⟨e, rfl⟩
    · exact ⟨.exception "", rfl⟩
  have hne : users.keys ≠ [] := by
    have hmem : "0x9109358674f1c9a1a945a1d9880fb7ef1ddc43a3" ∈ users.keys :=
      (hkeys _).mpr (.inr ⟨mintLog, List.mem_singleton_self _,
        (names_mintLog_iff _).mpr (.inr rfl)⟩)
    exact List.ne_nil_of_mem hmem
  obtain ⟨e, he⟩ := hfirst users.keys (newMarketStates.advanced mintLibs mintedChain 101) hne
  refine ⟨e, ?_⟩
  have hto : (101 : ℤ) = StatesClass.windowEnd (newMarketStates.lastUpdate + 1) 101 := rfl
  have hwindow : (plainStates.queryWindow mintLibs silentNode 101).run newMarketStates
      = (.error e, newMarketStates.advanced mintLibs mintedChain 101) := by
    rw [run_queryWindow_of_ok hto hlogs hall, hadvanced, he]
  rw [run_sync_minted rfl, Proc.run_bind_of_error hwindow]

/-- On a node that answers the synchronisation goes through. -/
theorem mintedChain_syncs : ∃ l, (∀ u, u ∈ l ↔ mintLog.names mintLibs u) ∧
    (plainStates.syncStates mintLibs (mintedChain.node 101) 0).run newMarketStates
      = (.ok (), (newMarketStates.advanced mintLibs mintedChain 101).refreshAll mintLibs
          mintedChain l) := by
  have hknown : ∀ u, mintedChain.Names mintLibs newMarketStates.lastUpdate 101 u →
      ∃ user, mintLibs.toChecksumAddress u = .ok user := by
    intro u hu
    rcases (names_mintLog_iff u).mp ((names_minted_iff u).mp hu) with rfl | rfl
    · exact ⟨_, rfl⟩
    · exact ⟨_, rfl⟩
  have hto : (101 : ℤ) = StatesClass.windowEnd (newMarketStates.lastUpdate + 1) 101 := rfl
  obtain ⟨l, hl, hrun⟩ := queryWindow_node 101 hto calm_minted hknown
  refine ⟨l, fun u ↦ (hl u).trans (names_minted_iff u), ?_⟩
  rw [run_sync_minted rfl, Proc.run_bind_of_ok hrun]
  rfl

theorem resumed_iff_minted : ∃ e s₁ s',
    (plainStates.syncStates mintLibs silentNode 0).run newMarketStates = (.error e, s₁) ∧
      (plainStates.syncStates mintLibs (mintedChain.node (101 + 0)) 0).run newMarketStates
        = (.ok (), s') ∧
      ((∃ s'', (plainStates.syncStates mintLibs (mintedChain.node (101 + 0)) 0).run s₁
          = (.ok (), s'') ∧ s''.SamePositions s') ↔
        ∀ u, mintedChain.Names mintLibs newMarketStates.lastUpdate s₁.lastUpdate u →
          s₁.FlagsRight mintLibs mintedChain u ∨
            mintedChain.Names mintLibs s₁.lastUpdate 101 u) := by
  obtain ⟨e, hfail⟩ := silentNode_fails
  obtain ⟨l, -, hfull⟩ := mintedChain_syncs
  exact ⟨e, _, _, hfail, hfull, resumed_iff reports_silentNode hfail hfull⟩

/-- A call whose hook raised, resumed on a node that answers: the user who received the mint still
has no collateral in the market. -/
theorem not_resumed_after_hook : ∃ e s₁ s',
    (plainStates.syncStates mintLibs silentNode 0).run newMarketStates = (.error e, s₁) ∧
      (plainStates.syncStates mintLibs (mintedChain.node 101) 0).run newMarketStates
        = (.ok (), s') ∧
      ¬ ∃ s'', (plainStates.syncStates mintLibs (mintedChain.node 101) 0).run s₁ = (.ok (), s'') ∧
        s''.SamePositions s' := by
  obtain ⟨e, hfail⟩ := silentNode_fails
  obtain ⟨l, hl, hfull⟩ := mintedChain_syncs
  refine ⟨e, _, _, hfail, hfull, ?_⟩
  rintro ⟨s'', hs'', hpositions, -⟩
  -- nothing is left to do for the second call
  have hresumed : (plainStates.syncStates mintLibs (mintedChain.node 101) 0).run
      (newMarketStates.advanced mintLibs mintedChain 101)
        = (.ok (), newMarketStates.advanced mintLibs mintedChain 101) := by
    have hnumber : (mintedChain.node 101).getBlockNumber = .ok (101 + 0) := rfl
    rw [run_syncStates hnumber]
    rfl
  obtain ⟨-, rfl⟩ := Prod.mk.inj (hresumed.symm.trans hs'')
  have huser := hpositions "0x9109358674f1c9a1a945a1d9880fb7ef1ddc43a3"
  have hmem : "0x9109358674f1c9a1a945a1d9880fb7ef1ddc43a3" ∈ l :=
    (hl _).mpr ((names_mintLog_iff _).mpr (.inr rfl))
  rw [States.get?_refreshAll, if_pos hmem] at huser
  have hright := flagsRight_iff.mpr huser.symm
  have hstate : (newMarketStates.advanced mintLibs mintedChain 101).usersStates
      = (newMarketStates.step mintLibs mintLog).usersStates := by
    have hrange : rangeLogs mintedChain.logsOf (newMarketStates.lastUpdate + 1) 101 = [mintLog] :=
      rangeLogs_minted
    rw [States.usersStates_advanced, hrange, runFrom_singleton]
  have hrecord : ((newMarketStates.advanced mintLibs mintedChain 101).usersStates.get?
      "0x9109358674f1c9a1a945a1d9880fb7ef1ddc43a3").bind
        (·.reserves.get? "0xA07c5b74C9B40447a954e1466938b865b6BBea36") = some ⟨9, 0, 0, 0⟩ := by
    rw [hstate, States.get?_step, logChange_mintLibs]
    decide +kernel
  have hflag := hright "0x9109358674F1C9a1a945a1d9880fb7EF1DDC43a3" rfl _ _ hrecord
  exact absurd hflag (by decide)

end CompoundLiquidation
