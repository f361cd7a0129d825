import CompoundLiquidation.Users.Update

/-!
# The cache of profitable users

`HighProfitSates` is a `States` on the users with a large debt. It keeps a reference to the full
state it was built from and, when a log names a user or a market the cache does not have, fills the
gap from there.

The two states are not independent. The users the cache starts with are the same objects in both,
and a record that is filled in is the same object in both from then on. An object that cache and
parent have in common is kept here as two copies, and every write to the cache is followed by
`writeThrough`, which makes the copies equal again.
-/

namespace CompoundLiquidation

open Python

/-- What the merge does with a record the cache already has. -/
def CompReserve.absorb (r value : CompReserve) : CompReserve :=
  { r with
    colAmount := r.colAmount + value.colAmount
    debtAmount := r.debtAmount + value.debtAmount
    debtInterest := if r.debtInterest = 0 then value.debtInterest else r.debtInterest }

/-- `filter_states`. -/
def filterStates (usersStates : Dict String UserStates) (profitThres : ℚ) :
    Dict String UserStates :=
  usersStates.filter fun _ data ↦ profitThres < data.healthFactor.debtVolume

/-- `HighProfitSates`. -/
structure HighProfitSates extends States where
  debtDesired : ℚ
  /-- `parent.users_states`. -/
  parentUsers : Dict String UserStates
  updateUsers : Dict String ChangeType
  /-- The users whose object is the one of the parent. -/
  sharedUsers : List String
  /-- The records, by user and market, whose object is the one of the parent. -/
  sharedReserves : List (String × String)
deriving DecidableEq

namespace HighProfitSates

/-- `HighProfitSates.__init__`, with a float for `profit_thres`. -/
def new (fullStates : States) (profitThres : ℚ) : HighProfitSates :=
  let debtDesired := toFloat (profitThres * 20)
  let usersStates := filterStates fullStates.usersStates debtDesired
  { States.new usersStates fullStates.ctokens fullStates.lastUpdate fullStates.blockHash with
    plugIn := fullStates.plugIn
    debtDesired := debtDesired
    parentUsers := fullStates.usersStates
    updateUsers := ∅
    sharedUsers := usersStates.keys
    sharedReserves := [] }

/-- The parent's copy of a user with everything in common as the cache has it. -/
def syncUser (h : HighProfitSates) (usr : String) (states : UserStates) : UserStates :=
  match h.usersStates.get? usr with
  | none => states
  | some own =>
    if usr ∈ h.sharedUsers then own
    else { states with reserves := states.reserves.mapWithKey fun reserve r ↦
      if (usr, reserve) ∈ h.sharedReserves then own.reserves.getD reserve r else r }

/-- Everything in common is as the cache has it. -/
def writeThrough (h : HighProfitSates) : HighProfitSates :=
  { h with parentUsers := h.parentUsers.mapWithKey h.syncUser }

/-- The loop over `old_states.reserves` in `update`. It comes to each record once, and a record is
the same object as at most the one it is added to, so that its value can be taken in front of the
loop. -/
def mergeReserves (usr : String) (oldStates : UserStates) (h : HighProfitSates) :
    HighProfitSates :=
  let missing := oldStates.reserves.keys.filter fun key ↦
    ((h.usersStates.get? usr).bind (·.reserves.get? key)).isNone
  { h with
    usersStates := h.usersStates.modify usr fun own ↦
      { own with reserves := own.reserves.mergeWith CompReserve.absorb oldStates.reserves }
    sharedReserves := h.sharedReserves ++ missing.map fun key ↦ (usr, key) }

/-- What `update` does for a user of type 2. -/
def mergeUser (usr : String) (h : HighProfitSates) : HighProfitSates :=
  match h.parentUsers.get? usr with
  | none => h
  | some oldStates => (h.mergeReserves usr oldStates).writeThrough

/-- `super().update(log)`. -/
def updateStates (lib : EthLibs) (log : LogReceipt) :
    Proc HighProfitSates Error (Dict String ChangeType) :=
  Proc.zoom toStates (fun s h ↦ writeThrough { h with toStates := s }) (States.update lib log)

/-- `HighProfitSates.update`. -/
def update (lib : EthLibs) (log : LogReceipt) :
    Proc HighProfitSates Error (Dict String ChangeType) := do
  let newUpdatedUsers ← updateStates lib log
  Proc.forEach newUpdatedUsers.entries fun e ↦
    if e.2 = .added then Proc.modify (mergeUser e.1) else pure ()
  Proc.modify fun h ↦ { h with updateUsers := h.updateUsers.update newUpdatedUsers }
  return newUpdatedUsers

/-! ## Copies -/

/-- Common users are there in both and equal, common records belong to users of the cache, and
there is nothing left to write through. -/
structure Consistent (h : HighProfitSates) : Prop where
  shared : ∀ u ∈ h.sharedUsers, ∃ own, h.usersStates.get? u = some own ∧
    h.parentUsers.get? u = some own
  cached : ∀ p ∈ h.sharedReserves, ∃ own, h.usersStates.get? p.1 = some own
  synced : ∀ u old, h.parentUsers.get? u = some old → h.syncUser u old = old

theorem syncUser_idem (h : HighProfitSates) (u : String) (old : UserStates) :
    h.syncUser u (h.syncUser u old) = h.syncUser u old := by
  rw [syncUser, syncUser]
  rcases h.usersStates.get? u with _ | own
  · rfl
  · by_cases hu : u ∈ h.sharedUsers
    · simp only [if_pos hu]
    · simp only [if_neg hu]
      congr 1
      refine Dict.ext_get? (by simp only [Dict.keys_mapWithKey]) fun key ↦ ?_
      simp only [Dict.get?_mapWithKey, Option.map_map]
      rcases old.reserves.get? key with _ | r
      · rfl
      · simp only [Option.map_some, Function.comp_apply, Option.some_inj]
        by_cases hkey : (u, key) ∈ h.sharedReserves
        · simp only [if_pos hkey, Dict.getD]
          rcases own.reserves.get? key with _ | r'
          · rfl
          · rfl
        · simp only [if_neg hkey]

@[simp] theorem get?_writeThrough (h : HighProfitSates) (u : String) :
    h.writeThrough.parentUsers.get? u = (h.parentUsers.get? u).map (h.syncUser u) :=
  Dict.get?_mapWithKey _ _ _

theorem consistent_writeThrough {h : HighProfitSates}
    (hshared : ∀ u ∈ h.sharedUsers, (∃ own, h.usersStates.get? u = some own) ∧
      ∃ old, h.parentUsers.get? u = some old)
    (hcached : ∀ p ∈ h.sharedReserves, ∃ own, h.usersStates.get? p.1 = some own) :
    h.writeThrough.Consistent where
  shared u hu := by
    obtain ⟨⟨own, hown⟩, old, hold⟩ := hshared u hu
    refine ⟨own, hown, ?_⟩
    have hmem : u ∈ h.sharedUsers := hu
    rw [get?_writeThrough, hold, Option.map_some, syncUser, hown]
    simp only [if_pos hmem]
  cached := hcached
  synced u old hold := by
    rw [get?_writeThrough, Option.map_eq_some_iff] at hold
    obtain ⟨old', -, rfl⟩ := hold
    exact syncUser_idem h u old'

theorem consistent_new (fullStates : States) (profitThres : ℚ) :
    (new fullStates profitThres).Consistent where
  shared u hu := by
    obtain ⟨own, hown⟩ := Dict.mem_keys_iff.mp hu
    have hfull := hown
    rw [filterStates, Dict.get?_filter, Option.filter_eq_some_iff] at hfull
    exact ⟨own, hown, hfull.1⟩
  cached p hp := absurd hp List.not_mem_nil
  synced u old hold := by
    rcases hown : (new fullStates profitThres).usersStates.get? u with _ | own
    · rw [syncUser, hown]
    · have hu : u ∈ (new fullStates profitThres).sharedUsers := Dict.mem_keys_iff.mpr ⟨own, hown⟩
      have hfull := hown
      rw [new, States.new, filterStates, Dict.get?_filter, Option.filter_eq_some_iff] at hfull
      rw [syncUser, hown]
      simp only [if_pos hu]
      exact Option.some_inj.mp (hfull.1.symm.trans hold)

/-! ## Merging -/

/-- A user of the cache after the parent's records were merged in. -/
def merged (h : HighProfitSates) (u : String) : Option UserStates :=
  match h.parentUsers.get? u with
  | none => h.usersStates.get? u
  | some old => (h.usersStates.get? u).map fun own ↦
      { own with reserves := own.reserves.mergeWith CompReserve.absorb old.reserves }

@[simp] theorem ctokens_mergeUser (v : String) (h : HighProfitSates) :
    (h.mergeUser v).ctokens = h.ctokens := by
  rw [mergeUser]
  rcases h.parentUsers.get? v with _ | old
  · rfl
  · rfl

@[simp] theorem sharedUsers_mergeUser (v : String) (h : HighProfitSates) :
    (h.mergeUser v).sharedUsers = h.sharedUsers := by
  rw [mergeUser]
  rcases h.parentUsers.get? v with _ | old
  · rfl
  · rfl

theorem get?_mergeUser (v u : String) (h : HighProfitSates) :
    (h.mergeUser v).usersStates.get? u
      = if u = v then h.merged u else h.usersStates.get? u := by
  rw [mergeUser]
  rcases hold : h.parentUsers.get? v with _ | old
  · by_cases hu : u = v
    · rw [if_pos hu, merged, hu, hold]
    · rw [if_neg hu]
  · refine (Dict.get?_modify _ _ _ _).trans ?_
    by_cases hu : u = v
    · rw [if_pos hu, if_pos hu, merged, hu, hold]
    · rw [if_neg hu, if_neg hu]

theorem merged_eq_none_iff {h : HighProfitSates} {u : String} :
    h.merged u = none ↔ h.usersStates.get? u = none := by
  rw [merged]
  rcases h.parentUsers.get? u with _ | old
  · rfl
  · exact Option.map_eq_none_iff

theorem get?_mergeUser_eq_none_iff {v u : String} {h : HighProfitSates} :
    (h.mergeUser v).usersStates.get? u = none ↔ h.usersStates.get? u = none := by
  rw [get?_mergeUser]
  by_cases hu : u = v
  · rw [if_pos hu, merged_eq_none_iff]
  · rw [if_neg hu]

/-- Merging removes nobody. -/
theorem get?_mergeUser_some {u v : String} {h : HighProfitSates}
    (hu : ∃ own, h.usersStates.get? u = some own) :
    ∃ own, (h.mergeUser v).usersStates.get? u = some own := by
  obtain ⟨own, hown⟩ := hu
  refine Option.ne_none_iff_exists'.mp fun hnone ↦ ?_
  rw [get?_mergeUser_eq_none_iff, hown] at hnone
  exact Option.some_ne_none own hnone

theorem Consistent.mergeUser {h : HighProfitSates} (hc : h.Consistent) {v : String}
    (hv : ∃ own, h.usersStates.get? v = some own) : (h.mergeUser v).Consistent := by
  rcases hold : h.parentUsers.get? v with _ | old
  · have hsame : h.mergeUser v = h := by rw [HighProfitSates.mergeUser, hold]
    rwa [hsame]
  · have hkeep : ∀ u, (∃ own, h.usersStates.get? u = some own) →
        ∃ own, (h.mergeUser v).usersStates.get? u = some own := fun u hu ↦
      get?_mergeUser_some hu
    rw [HighProfitSates.mergeUser, hold] at hkeep ⊢
    refine consistent_writeThrough ?_ ?_
    · intro u hu
      obtain ⟨own, hown, hparent⟩ := hc.shared u hu
      exact ⟨hkeep u ⟨own, hown⟩, own, hparent⟩
    · intro p hp
      rcases List.mem_append.mp hp with hp | hp
      · exact hkeep p.1 (hc.cached p hp)
      · obtain ⟨key, -, rfl⟩ := List.mem_map.mp hp
        exact hkeep v hv

theorem syncUser_congr {h h' : HighProfitSates} {u : String}
    (husers : h'.usersStates.get? u = h.usersStates.get? u)
    (hshared : u ∈ h'.sharedUsers ↔ u ∈ h.sharedUsers)
    (hreserves : ∀ key, (u, key) ∈ h'.sharedReserves ↔ (u, key) ∈ h.sharedReserves)
    (old : UserStates) : h'.syncUser u old = h.syncUser u old := by
  rw [syncUser, syncUser, husers]
  simp only [hshared, hreserves]

/-- Merging one user leaves the parent's copy of every other one alone. -/
theorem parent_mergeUser_of_ne {h : HighProfitSates} (hc : h.Consistent) {u v : String}
    (hu : u ≠ v) : (h.mergeUser v).parentUsers.get? u = h.parentUsers.get? u := by
  rw [mergeUser]
  rcases h.parentUsers.get? v with _ | oldV
  · rfl
  · refine (get?_writeThrough _ u).trans ?_
    rcases hold : h.parentUsers.get? u with _ | old
    · exact congrArg (Option.map _) hold
    · have hsync : (h.mergeReserves v oldV).syncUser u old = h.syncUser u old := by
        have hown : (h.mergeReserves v oldV).usersStates.get? u = h.usersStates.get? u :=
          Dict.get?_modify_of_ne _ _ hu
        refine syncUser_congr hown Iff.rfl (fun key ↦ ?_) old
        rw [mergeReserves, List.mem_append, or_iff_left]
        intro hmem
        obtain ⟨key', -, hp⟩ := List.mem_map.mp hmem
        exact hu (congrArg Prod.fst hp).symm
      exact (congrArg (Option.map _) hold).trans
        (congrArg some (hsync.trans (hc.synced u old hold)))

/-- Merging a list of users one after the other. -/
def mergeUsers (l : List String) (h : HighProfitSates) : HighProfitSates :=
  l.foldl (fun h v ↦ h.mergeUser v) h

theorem get?_mergeUsers {l : List String} (hnd : l.Nodup) (u : String) : ∀ {h : HighProfitSates},
    h.Consistent → (∀ v ∈ l, ∃ own, h.usersStates.get? v = some own) →
    (h.mergeUsers l).usersStates.get? u
      = if u ∈ l then h.merged u else h.usersStates.get? u := by
  induction l with
  | nil => exact fun _ _ ↦ (if_neg List.not_mem_nil).symm
  | cons v l ih =>
    intro h hc hcached
    rw [List.nodup_cons] at hnd
    have hc' := hc.mergeUser (hcached v List.mem_cons_self)
    rw [mergeUsers, List.foldl_cons, ← mergeUsers, ih hnd.2 hc' fun w hw ↦
      get?_mergeUser_some (hcached w (List.mem_cons_of_mem v hw))]
    by_cases hu : u = v
    · have hul : u ∉ l := hu ▸ hnd.1
      rw [if_neg hul, get?_mergeUser, if_pos hu, if_pos (hu ▸ List.mem_cons_self)]
    · have hown : (h.mergeUser v).usersStates.get? u = h.usersStates.get? u := by
        rw [get?_mergeUser, if_neg hu]
      have hmerged : (h.mergeUser v).merged u = h.merged u := by
        rw [merged, merged, parent_mergeUser_of_ne hc hu, hown]
      have hmem : u ∈ v :: l ↔ u ∈ l := by
        rw [List.mem_cons, or_iff_right hu]
      rw [hmerged, hown]
      simp only [hmem]

end HighProfitSates

end CompoundLiquidation
