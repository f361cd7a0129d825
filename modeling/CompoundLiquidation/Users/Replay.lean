import CompoundLiquidation.Python.Run
import CompoundLiquidation.Users.Effects
import CompoundLiquidation.Users.HighProfit

/-!
# The cache against a full replay

The cache is meant to agree, user by user, with a plain `States` that was given the same logs. What
links the two is unconditional: a user the cache does not have is in the replay as the parent has
it, and the parent knows no record that the replay does not know (`Linked`). Whether they agree on
the users the cache has depends on every merge that was ever made, and for one log this is decided
by the state in front of it (`SafeFor`).
-/

namespace CompoundLiquidation

open Python

/-! ## The two steps -/

namespace HighProfitSates

/-- The state behind `super().update(log)`, with the state of the base class given. -/
def withStates (h : HighProfitSates) (s : States) : HighProfitSates :=
  writeThrough { h with toStates := s }

/-- The users a log adds to the cache or to a market in it. -/
def added (types : Dict String ChangeType) : List String :=
  (types.entries.filter fun e ↦ e.2 = .added).map Prod.fst

theorem nodup_added (types : Dict String ChangeType) : (added types).Nodup :=
  (List.filter_sublist.map Prod.fst).nodup types.nodup_keys

theorem mem_added_iff {types : Dict String ChangeType} {u : String} :
    u ∈ added types ↔ types.get? u = some .added := by
  rw [added, List.mem_map, Dict.get?_eq_some_iff]
  constructor
  · rintro ⟨⟨v, t⟩, he, rfl⟩
    obtain ⟨hmem, ht⟩ := List.mem_filter.mp he
    rw [decide_eq_true_eq] at ht
    exact ht ▸ hmem
  · intro hmem
    exact ⟨(u, .added), List.mem_filter.mpr ⟨hmem, decide_eq_true rfl⟩, rfl⟩

private theorem run_mergeLoop (entries : List (String × ChangeType)) : ∀ h : HighProfitSates,
    (Proc.forEach entries fun e ↦
      (if e.2 = .added then Proc.modify (mergeUser e.1) else pure () :
        Proc HighProfitSates Error Unit)).run h
      = (.ok (), h.mergeUsers ((entries.filter fun e ↦ e.2 = .added).map Prod.fst)) := by
  induction entries with
  | nil => exact fun _ ↦ rfl
  | cons e entries ih =>
    intro h
    rw [Proc.forEach_cons, Proc.run_bind]
    by_cases he : e.2 = .added
    · simp only [if_pos he, Proc.run_modify]
      rw [ih, List.filter_cons_of_pos (by simpa using he)]
      rfl
    · simp only [if_neg he, Proc.run_pure]
      rw [ih, List.filter_cons_of_neg (by simpa using he)]

/-- An update is one of the base class, written through, and the merges it calls for. -/
theorem state_update (lib : EthLibs) (log : LogReceipt) (h : HighProfitSates) :
    ∃ updateUsers, ((update lib log).run h).2 =
      { (h.withStates ((States.update lib log).run h.toStates).2).mergeUsers
          (match ((States.update lib log).run h.toStates).1 with
            | .ok types => added types
            | .error _ => []) with updateUsers := updateUsers } := by
  have hstates : (updateStates lib log).run h = (((States.update lib log).run h.toStates).1,
      h.withStates ((States.update lib log).run h.toStates).2) := rfl
  rw [update, Proc.run_bind, hstates]
  rcases ((States.update lib log).run h.toStates).1 with e | types
  · exact ⟨_, rfl⟩
  · simp only [Proc.run_bind, run_mergeLoop, Proc.run_modify, Proc.run_pure]
    exact ⟨_, rfl⟩

/-- It returns, or raises, what the base class does. -/
theorem outcome_update (lib : EthLibs) (log : LogReceipt) (h : HighProfitSates) :
    ((update lib log).run h).1 = ((States.update lib log).run h.toStates).1 := by
  have hstates : (updateStates lib log).run h = (((States.update lib log).run h.toStates).1,
      h.withStates ((States.update lib log).run h.toStates).2) := rfl
  rw [update, Proc.run_bind, hstates]
  rcases ((States.update lib log).run h.toStates).1 with e | types
  · rfl
  · simp only [Proc.run_bind, run_mergeLoop, Proc.run_modify, Proc.run_pure]

/-! ## What is left of the parent -/

theorem keys_syncUser {h : HighProfitSates} {u : String} (hu : u ∉ h.sharedUsers)
    (old : UserStates) : (h.syncUser u old).reserves.keys = old.reserves.keys := by
  rw [syncUser]
  rcases h.usersStates.get? u with _ | own
  · rfl
  · simp only [if_neg hu, Dict.keys_mapWithKey]

/-- The parent's copy of a user outside the common ones keeps its markets. -/
private theorem keys_parent_writeThrough {h : HighProfitSates} {u : String}
    (hu : u ∉ h.sharedUsers) {old' : UserStates} (hold' : h.writeThrough.parentUsers.get? u
      = some old') : ∃ old, h.parentUsers.get? u = some old ∧
        old'.reserves.keys = old.reserves.keys := by
  rw [get?_writeThrough, Option.map_eq_some_iff] at hold'
  obtain ⟨old, hold, rfl⟩ := hold'
  exact ⟨old, hold, keys_syncUser hu old⟩

private theorem keys_parent_mergeUser {h : HighProfitSates} {u v : String}
    (hu : u ∉ h.sharedUsers) {old' : UserStates} (hold' : (h.mergeUser v).parentUsers.get? u
      = some old') : ∃ old, h.parentUsers.get? u = some old ∧
        old'.reserves.keys = old.reserves.keys := by
  rw [mergeUser] at hold'
  rcases hv : h.parentUsers.get? v with _ | oldV
  · rw [hv] at hold'
    exact ⟨old', hold', rfl⟩
  · have hmerge : u ∉ (h.mergeReserves v oldV).sharedUsers := hu
    rw [hv] at hold'
    exact keys_parent_writeThrough hmerge hold'

theorem sharedUsers_mergeUsers (l : List String) : ∀ h : HighProfitSates,
    (h.mergeUsers l).sharedUsers = h.sharedUsers := by
  induction l with
  | nil => exact fun _ ↦ rfl
  | cons v l ih => exact fun h ↦ (ih _).trans (sharedUsers_mergeUser v h)

theorem ctokens_mergeUsers (l : List String) : ∀ h : HighProfitSates,
    (h.mergeUsers l).ctokens = h.ctokens := by
  induction l with
  | nil => exact fun _ ↦ rfl
  | cons v l ih => exact fun h ↦ (ih _).trans (ctokens_mergeUser v h)

private theorem keys_parent_mergeUsers {u : String} (l : List String) :
    ∀ {h : HighProfitSates}, u ∉ h.sharedUsers → ∀ {old' : UserStates},
      (h.mergeUsers l).parentUsers.get? u = some old' →
      ∃ old, h.parentUsers.get? u = some old ∧ old'.reserves.keys = old.reserves.keys := by
  induction l with
  | nil => exact fun {h} _ {old'} hold' ↦ ⟨old', hold', rfl⟩
  | cons v l ih =>
    intro h hu old' hold'
    obtain ⟨old₁, hold₁, hkeys₁⟩ := ih (by rwa [sharedUsers_mergeUser]) hold'
    obtain ⟨old, hold, hkeys⟩ := keys_parent_mergeUser hu hold₁
    exact ⟨old, hold, hkeys₁.trans hkeys⟩

theorem Consistent.mergeUsers (l : List String) : ∀ {h : HighProfitSates}, h.Consistent →
    (∀ v ∈ l, ∃ own, h.usersStates.get? v = some own) → (h.mergeUsers l).Consistent := by
  induction l with
  | nil => exact fun hc _ ↦ hc
  | cons v l ih =>
    intro h hc hcached
    exact ih (hc.mergeUser (hcached v List.mem_cons_self)) fun w hw ↦
      get?_mergeUser_some (hcached w (List.mem_cons_of_mem v hw))

theorem parent_mergeUsers_of_not_mem {u : String} {l : List String} (hu : u ∉ l) :
    ∀ {h : HighProfitSates}, h.Consistent → (∀ v ∈ l, ∃ own, h.usersStates.get? v = some own) →
      (h.mergeUsers l).parentUsers.get? u = h.parentUsers.get? u := by
  induction l with
  | nil => exact fun _ _ ↦ rfl
  | cons v l ih =>
    intro h hc hcached
    rw [List.mem_cons, not_or] at hu
    refine (ih hu.2 (hc.mergeUser (hcached v List.mem_cons_self)) fun w hw ↦
      get?_mergeUser_some (hcached w (List.mem_cons_of_mem v hw))).trans ?_
    exact parent_mergeUser_of_ne hc hu.1

end HighProfitSates

/-! ## The link -/

/-- The part of the relation between cache and replay that no log can break. -/
structure Linked (h : HighProfitSates) (full : States) : Prop where
  consistent : h.Consistent
  ctokens : h.ctokens = full.ctokens
  uncached : ∀ u, h.usersStates.get? u = none →
    full.usersStates.get? u = h.parentUsers.get? u
  known : ∀ u old, h.parentUsers.get? u = some old → ∃ all, full.usersStates.get? u = some all ∧
    ∀ key ∈ old.reserves.keys, key ∈ all.reserves.keys

theorem linked_new (fullStates : States) (profitThres : ℚ) :
    Linked (HighProfitSates.new fullStates profitThres) (States.new fullStates.usersStates
      fullStates.ctokens fullStates.lastUpdate fullStates.blockHash) where
  consistent := HighProfitSates.consistent_new fullStates profitThres
  ctokens := rfl
  uncached _ _ := rfl
  known _ old hold := ⟨old, hold, fun _ hkey ↦ hkey⟩

/-- Two pairs of states in which each user has gone the same way: unchanged, or touched in the
market by the same function. -/
def TouchAlike (reserve : String) (s s' full full' : States) : Prop :=
  ∀ u, (∃ f, s'.usersStates.get? u
      = some ((s.usersStates.getD u newUserStates).touch reserve f) ∧
    full'.usersStates.get? u
      = some ((full.usersStates.getD u newUserStates).touch reserve f)) ∨
    (s'.usersStates.get? u = s.usersStates.get? u ∧
      full'.usersStates.get? u = full.usersStates.get? u)

theorem mem_keys_touch {reserve key : String} {f : CompReserve → CompReserve}
    {states : UserStates} :
    key ∈ (states.touch reserve f).reserves.keys ↔ key = reserve ∨ key ∈ states.reserves.keys :=
  Dict.mem_keys_set

section Step

variable {h : HighProfitSates} {full s' full' : States} {reserve : String} {l : List String}

/-- Nobody leaves. -/
private theorem TouchAlike.some_of_some {s : States} (halike : TouchAlike reserve s s' full full')
    {u : String} (hu : ∃ own, s.usersStates.get? u = some own) :
    ∃ own, s'.usersStates.get? u = some own := by
  rcases halike u with ⟨f, hown, -⟩ | ⟨hown, -⟩
  · exact ⟨_, hown⟩
  · rwa [hown]

theorem consistent_withStates (hc : h.Consistent)
    (halike : TouchAlike reserve h.toStates s' full full') : (h.withStates s').Consistent := by
  refine HighProfitSates.consistent_writeThrough ?_ ?_
  · intro u hu
    obtain ⟨own, hown, hparent⟩ := hc.shared u hu
    exact ⟨halike.some_of_some ⟨own, hown⟩, own, hparent⟩
  · exact fun p hp ↦ halike.some_of_some (hc.cached p hp)

/-- A user both have in common is, after a step, in the parent with no market the replay lacks. -/
private theorem keys_shared (hl : Linked h full)
    (halike : TouchAlike reserve h.toStates s' full full') {u : String}
    (hu : u ∈ h.sharedUsers) {own' : UserStates} (hown' : s'.usersStates.get? u = some own') :
    ∃ all, full'.usersStates.get? u = some all ∧
      ∀ key ∈ own'.reserves.keys, key ∈ all.reserves.keys := by
  obtain ⟨own, hown, hparent⟩ := hl.consistent.shared u hu
  obtain ⟨all, hall, hkeys⟩ := hl.known u own hparent
  rcases halike u with ⟨f, htouch, hfull⟩ | ⟨hsame, hfull⟩
  · rw [Dict.getD_of_get? hown] at htouch
    rw [Dict.getD_of_get? hall] at hfull
    refine ⟨_, hfull, fun key hkey ↦ ?_⟩
    rw [← Option.some_inj.mp (htouch.symm.trans hown'), mem_keys_touch] at hkey
    exact mem_keys_touch.mpr (hkey.imp_right (hkeys key))
  · refine ⟨all, hfull.trans hall, fun key hkey ↦ ?_⟩
    rw [← Option.some_inj.mp (hown.symm.trans (hsame.symm.trans hown'))] at hkey
    exact hkeys key hkey

/-- Merging a user's own object into itself adds no market. -/
private theorem keys_merged_shared (hc : h.Consistent) {u : String} (hu : u ∈ h.sharedUsers)
    {own own' : UserStates} (hown : h.usersStates.get? u = some own)
    (hmerged : h.merged u = some own') : ∀ key ∈ own'.reserves.keys, key ∈ own.reserves.keys := by
  obtain ⟨own₂, hown₂, hparent⟩ := hc.shared u hu
  rw [Option.some_inj.mp (hown₂.symm.trans hown)] at hparent
  rw [HighProfitSates.merged, hparent] at hmerged
  simp only [hown, Option.map_some, Option.some_inj] at hmerged
  intro key hkey
  rw [← hmerged, Dict.mem_keys_iff, Dict.get?_mergeWith] at hkey
  rw [Dict.mem_keys_iff]
  obtain ⟨v, hv⟩ := hkey
  rcases hget : own.reserves.get? key with _ | r
  · simp [hget] at hv
  · exact ⟨r, rfl⟩

/-- The link survives every step. -/
theorem Linked.step (hl : Linked h full)
    (halike : TouchAlike reserve h.toStates s' full full') (hctk : s'.ctokens = full'.ctokens)
    (hnd : l.Nodup) (hmem : ∀ v ∈ l, ∃ own, s'.usersStates.get? v = some own) :
    Linked ((h.withStates s').mergeUsers l) full' := by
  have hc := consistent_withStates hl.consistent halike
  have hc' := HighProfitSates.Consistent.mergeUsers l hc hmem
  refine ⟨hc', ?_, ?_, ?_⟩
  · rw [HighProfitSates.ctokens_mergeUsers]
    exact hctk
  · intro u hu
    have hul : u ∉ l := by
      intro hul
      rw [HighProfitSates.get?_mergeUsers hnd u hc hmem, if_pos hul,
        HighProfitSates.merged_eq_none_iff] at hu
      obtain ⟨own, hown⟩ := hmem u hul
      exact Option.some_ne_none own (hown.symm.trans hu)
    rw [HighProfitSates.get?_mergeUsers hnd u hc hmem, if_neg hul] at hu
    rw [HighProfitSates.parent_mergeUsers_of_not_mem hul hc hmem, HighProfitSates.withStates,
      HighProfitSates.get?_writeThrough]
    rcases halike u with ⟨f, htouch, -⟩ | ⟨hsame, hfull⟩
    · exact absurd (htouch.symm.trans hu) (Option.some_ne_none _)
    · have hsync : HighProfitSates.syncUser { h with toStates := s' } u = id := by
        funext old
        rw [HighProfitSates.syncUser]
        simp only [show s'.usersStates.get? u = none from hu, id_eq]
      rw [hsync, Option.map_id, id_eq, hfull]
      exact hl.uncached u (hsame.symm.trans hu)
  · intro u old' hold'
    by_cases hshared : u ∈ h.sharedUsers
    · -- the parent has the cache's object, merged with itself or not
      have hshared' : u ∈ ((h.withStates s').mergeUsers l).sharedUsers := by
        rwa [HighProfitSates.sharedUsers_mergeUsers]
      obtain ⟨own', hown', hparent'⟩ := hc'.shared u hshared'
      rw [Option.some_inj.mp (hold'.symm.trans hparent')]
      obtain ⟨own₁, hown₁, -⟩ := hc.shared u hshared
      obtain ⟨all, hall, hkeys⟩ := keys_shared hl halike hshared hown₁
      refine ⟨all, hall, fun key hkey ↦ hkeys key ?_⟩
      rw [HighProfitSates.get?_mergeUsers hnd u hc hmem] at hown'
      by_cases hul : u ∈ l
      · rw [if_pos hul] at hown'
        exact keys_merged_shared hc hshared hown₁ hown' key hkey
      · rw [if_neg hul] at hown'
        rwa [Option.some_inj.mp (hown₁.symm.trans hown')]
    · have hshared₁ : u ∉ (h.withStates s').sharedUsers := hshared
      obtain ⟨old₁, hold₁, hkeys₁⟩ := HighProfitSates.keys_parent_mergeUsers l hshared₁ hold'
      have hshared₂ : u ∉ HighProfitSates.sharedUsers { h with toStates := s' } := hshared
      obtain ⟨old, hold, hkeys₂⟩ := HighProfitSates.keys_parent_writeThrough hshared₂ hold₁
      obtain ⟨all, hall, hkeys⟩ := hl.known u old hold
      rw [hkeys₁, hkeys₂]
      rcases halike u with ⟨f, -, hfull⟩ | ⟨-, hfull⟩
      · refine ⟨_, hfull, fun key hkey ↦ mem_keys_touch.mpr (Or.inr ?_)⟩
        rw [Dict.getD_of_get? hall]
        exact hkeys key hkey
      · exact ⟨all, hfull.trans hall, hkeys⟩

end Step

/-! ## One log -/

namespace UsersChange

/-- A transfer from a user to the same user. -/
def toItself : UsersChange → Prop
  | .transfer fromUser toUser _ => fromUser = toUser
  | _ => False

theorem get?_types_eq_added_iff {change : UsersChange} {usersStates : Dict String UserStates}
    {reserve u : String} : (change.types usersStates reserve).get? u = some .added ↔
      change.names u ∧ ¬ change.toItself ∧ States.changeType usersStates u reserve = .added := by
  rcases change with ⟨fromUser, toUser, amount⟩ | ⟨borrower, amount, totalBorrow⟩ | _ | _ | _
  · simp only [types, names, toItself, Dict.get?_set]
    by_cases hto : u = toUser
    · by_cases hsame : toUser = fromUser
      · simp [hto, hsame]
      · simp [hto, hsame, Ne.symm hsame]
    · by_cases hfrom : u = fromUser
      · simp [hfrom, show fromUser ≠ toUser from hfrom ▸ hto]
      · simp [hto, hfrom]
  · simp only [types, names, toItself, Dict.get?_set]
    by_cases hu : u = borrower
    · simp [hu]
    · simp [hu]
  all_goals simp [types, names]

end UsersChange

/-- The merge is made for the user: the log is applied, it is no transfer of the user to itself,
and the cache does not have the user's record of the market. -/
def Merges (h : HighProfitSates) (reserve : String) (change : UsersChange) (u : String) : Prop :=
  ¬ change.raises h.ctokens reserve ∧ ¬ change.toItself ∧
    States.changeType h.usersStates u reserve = .added

/-- The cache after a log. What was done before a raise stays. -/
def HighProfitSates.step (lib : EthLibs) (h : HighProfitSates) (log : LogReceipt) :
    HighProfitSates := ((HighProfitSates.update lib log).run h).2

section Log

variable {lib : EthLibs} {log : LogReceipt} {h : HighProfitSates} {full : States}
  {reserve : String} {change : UsersChange}

theorem touchAlike_of_applied {s s' full' : States} (hctk : s.ctokens = full.ctokens)
    (hs : Applied reserve change s s') (hfull : Applied reserve change full full') :
    TouchAlike reserve s s' full full' := by
  intro u
  have hown := hs.users u
  have hall := hfull.users u
  rw [← hctk] at hall
  rcases hpost : change.post s.ctokens reserve u with _ | f
  · rw [hpost] at hown hall
    exact Or.inr ⟨hown, hall⟩
  · rw [hpost] at hown hall
    exact Or.inl ⟨f, hown, hall⟩

/-- The cache's side of a log that is read as a change: the change, then the merges. -/
theorem step_of_change (h : HighProfitSates)
    (hchange : States.logChange lib log = some (reserve, change)) :
    ∃ s' l updateUsers, Applied reserve change h.toStates s' ∧ l.Nodup ∧
      (∀ u, u ∈ l ↔ change.names u ∧ Merges h reserve change u) ∧
      h.step lib log = { (h.withStates s').mergeUsers l with updateUsers := updateUsers } := by
  obtain ⟨updateUsers, hstate⟩ := HighProfitSates.state_update lib log h
  obtain ⟨houtcome, happlied⟩ := States.applied_applyChange reserve change h.toStates
  rw [States.run_update_of_change hchange, houtcome] at hstate
  refine ⟨_, _, updateUsers, happlied, ?_, fun u ↦ ?_, hstate⟩
  · split_ifs
    · exact List.nodup_nil
    · exact HighProfitSates.nodup_added _
  · by_cases hraises : change.raises h.ctokens reserve
    · rw [if_pos hraises]
      exact ⟨fun hu ↦ absurd hu List.not_mem_nil, fun hu ↦ absurd hraises hu.2.1⟩
    · rw [if_neg hraises]
      refine HighProfitSates.mem_added_iff.trans (UsersChange.get?_types_eq_added_iff.trans ?_)
      exact and_congr_right fun _ ↦ ⟨fun hu ↦ ⟨hraises, hu⟩, fun hu ↦ hu.2⟩

/-- Any other log leaves users and cToken data as they are, on both sides. -/
theorem step_of_no_change (h : HighProfitSates) (full : States)
    (hchange : States.logChange lib log = none) :
    (∃ plugIn updateUsers, h.step lib log
      = { h.withStates { h.toStates with plugIn := plugIn } with updateUsers := updateUsers }) ∧
    ∃ plugIn, full.step lib log = { full with plugIn := plugIn } := by
  obtain ⟨updateUsers, hstate⟩ := HighProfitSates.state_update lib log h
  obtain ⟨htypes, plugIn, hplugIn⟩ := States.run_update_of_no_change hchange h.toStates
  refine ⟨⟨plugIn, updateUsers, ?_⟩, (States.run_update_of_no_change hchange full).2⟩
  have hempty : (match ((States.update lib log).run h.toStates).1 with
      | .ok types => HighProfitSates.added types
      | .error _ => []) = [] := by
    rcases hrun : ((States.update lib log).run h.toStates).1 with e | types
    · rfl
    · rw [htypes types hrun]
      rfl
  rw [hempty, hplugIn] at hstate
  exact hstate

/-- The link survives every log. -/
theorem Linked.after (hl : Linked h full) (lib : EthLibs) (log : LogReceipt) :
    Linked (h.step lib log) (full.step lib log) := by
  rcases hchange : States.logChange lib log with _ | ⟨reserve, change⟩
  · obtain ⟨⟨plugIn, updateUsers, hcache⟩, plugIn', hfull⟩ := step_of_no_change h full hchange
    have halike : TouchAlike "" h.toStates { h.toStates with plugIn := plugIn } full
      { full with plugIn := plugIn' } := fun u ↦ Or.inr ⟨rfl, rfl⟩
    have hstep := hl.step halike hl.ctokens List.nodup_nil fun v hv ↦ absurd hv List.not_mem_nil
    rw [hcache, hfull]
    exact ⟨⟨hstep.consistent.shared, hstep.consistent.cached, hstep.consistent.synced⟩,
      hstep.ctokens, hstep.uncached, hstep.known⟩
  · obtain ⟨s', l, updateUsers, hs, hnd, hmem, hcache⟩ := step_of_change h hchange
    have hfull := States.applied_step hchange full
    have hctk : s'.ctokens = (full.step lib log).ctokens := by
      rw [hs.ctokens, hfull.ctokens, hl.ctokens]
    have hstep := hl.step (touchAlike_of_applied hl.ctokens hs hfull) hctk hnd fun v hv ↦
      hs.get?_of_names ((hmem v).mp hv).1
    rw [hcache]
    exact ⟨⟨hstep.consistent.shared, hstep.consistent.cached, hstep.consistent.synced⟩,
      hstep.ctokens, hstep.uncached, hstep.known⟩

/-- The users of the cache after a log that is read as a change. -/
theorem Linked.get?_step (hl : Linked h full)
    (hchange : States.logChange lib log = some (reserve, change)) :
    ∃ s', Applied reserve change h.toStates s' ∧ ∀ u,
      (change.names u ∧ Merges h reserve change u →
        (h.step lib log).usersStates.get? u = (h.withStates s').merged u) ∧
      (¬ (change.names u ∧ Merges h reserve change u) →
        (h.step lib log).usersStates.get? u = s'.usersStates.get? u) := by
  obtain ⟨s', l, updateUsers, hs, hnd, hmem, hcache⟩ := step_of_change h hchange
  have halike := touchAlike_of_applied hl.ctokens hs (States.applied_step hchange full)
  have hc := consistent_withStates hl.consistent halike
  have hget : ∀ u, (h.step lib log).usersStates.get? u
      = if u ∈ l then (h.withStates s').merged u else s'.usersStates.get? u := by
    intro u
    rw [hcache]
    exact HighProfitSates.get?_mergeUsers hnd u hc fun v hv ↦ hs.get?_of_names ((hmem v).mp hv).1
  refine ⟨s', hs, fun u ↦ ⟨fun hu ↦ ?_, fun hu ↦ ?_⟩⟩
  · rw [hget, if_pos ((hmem u).mpr hu)]
  · rw [hget, if_neg fun hul ↦ hu ((hmem u).mp hul)]

end Log

end CompoundLiquidation
