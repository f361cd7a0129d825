import CompoundLiquidation.Callbacks.Handover
import CompoundLiquidation.Users.Accrual
import CompoundLiquidation.Users.Agreement
import CompoundLiquidation.Users.Extends

/-!
# The lists of users at risk

For every aggregator `users_pre_filtered` lists the users whose health factor is just above
liquidation and who have a reserve that the aggregator prices. `users_subscribe_callback` is to keep
the lists complete when the health factor of a touched user changes. It asks twice: who was outside
the range before, and who is inside it now, and adds those for whom both are true.

The first question is `users_trimming` without `is_signal`. That is not the complement of the range:
it also leaves out health factors below `0.9`, except those so small that their difference from one
is rounded to one. And a user who was in the range before is taken to be in the lists already, which
a new reserve can make wrong.

Both questions are asked of floats. In the range of the second one nothing is rounded: a float
between one and two has a distance from one that is a float again.
-/

namespace CompoundLiquidation

open Python

/-- The user is in the list of the aggregator. -/
def Globals.InList {S : Type} (g : Globals S) (aggr u : String) : Prop :=
  ∃ users, g.usersPreFiltered.get? aggr = some users ∧ u ∈ users

section Lists

variable {S : Type} {K : StatesClass S}

/-! ## Insertion -/

theorem insertIndex_le {sta : States} {hf : ℚ} {users : List String} : ∀ {i index : ℕ},
    insertIndex sta hf i users = .ok index → index ≤ i + users.length := by
  induction users with
  | nil =>
    intro i index h
    rw [← Except.ok.inj h]
    exact Nat.zero_le _
  | cons usr users ih =>
    intro i index h
    rw [insertIndex] at h
    rcases hitem : sta.usersStates.item usr with e | states
    · rw [hitem] at h
      cases h
    rw [hitem, ok_bind] at h
    rw [List.length_cons]
    by_cases hlt : hf < states.healthFactor.value
    · rw [if_pos hlt] at h
      have hindex : i = index := Except.ok.inj h
      omega
    · rw [if_neg hlt] at h
      have := ih h
      omega

/-- One reserve puts its user into one list. -/
theorem inList_addToPreFiltered {usr : String} {hf : ℚ} {ctokenAddr : String} {g g' : Globals S}
    (h : (addToPreFiltered K usr hf ctokenAddr).run g = (.ok (), g')) (aggr v : String) :
    g'.InList aggr v ↔ g.InList aggr v ∨
      v = usr ∧ g.signals.tokenSignalMap.get? ctokenAddr = some aggr := by
  rw [addToPreFiltered, Proc.run_bind, Proc.run_read] at h
  dsimp only at h
  rcases haggr : g.signals.tokenSignalMap.get? ctokenAddr with _ | aggr'
  · rw [haggr] at h
    rw [← (Prod.mk.inj h).2]
    simp
  rw [haggr] at h
  obtain ⟨users, g₁, hitem, h⟩ := Proc.run_bind_ok h
  obtain ⟨hget, rfl⟩ := Prod.mk.inj hitem
  rw [Dict.item_eq_ok_iff] at hget
  by_cases hmem : usr ∈ users
  · rw [if_pos hmem] at h
    rw [← (Prod.mk.inj h).2, Option.some_inj]
    refine ⟨.inl, ?_⟩
    rintro (hin | ⟨rfl, rfl⟩)
    · exact hin
    · exact ⟨users, hget, hmem⟩
  · rw [if_neg hmem] at h
    obtain ⟨index, g₂, hindex, h⟩ := Proc.run_bind_ok h
    obtain ⟨hok, rfl⟩ := Prod.mk.inj hindex
    have hle : index ≤ users.length := by
      have hbound := insertIndex_le hok
      omega
    rw [← (Prod.mk.inj h).2, Option.some_inj, Globals.InList, Globals.InList, Dict.get?_set]
    by_cases haggr' : aggr = aggr'
    · subst haggr'
      simp only [if_true, Option.some_inj, exists_eq_left', List.mem_insertIdx hle, hget, and_true]
      exact or_comm
    · simp only [if_neg haggr', Ne.symm haggr', and_false, or_false]

/-- All reserves of a user. -/
theorem inList_addReserves {usr : String} {hf : ℚ} {keys : List String} : ∀ {g g' : Globals S},
    (Proc.forEach keys (addToPreFiltered K usr hf)).run g = (.ok (), g') → ∀ aggr v,
    (g'.InList aggr v ↔ g.InList aggr v ∨
      v = usr ∧ ∃ key ∈ keys, g.signals.tokenSignalMap.get? key = some aggr) := by
  induction keys with
  | nil =>
    intro g g' h aggr v
    rw [← (Prod.mk.inj h).2]
    simp
  | cons key keys ih =>
    intro g g' h aggr v
    obtain ⟨_, g₁, hone, hrest⟩ := Proc.run_bind_ok h
    have hsame : SameButLists g g₁ := by
      have hkeeps := keeps_addToPreFiltered (K := K) usr hf key g
      rwa [hone] at hkeeps
    rw [ih hrest, hsame.2.2, inList_addToPreFiltered hone, or_assoc, ← and_or_left]
    simp only [List.mem_cons, exists_eq_or_imp]

/-- All users who came into range, each with all reserves. -/
theorem inList_addUsers {users : List String} : ∀ {g g' : Globals S},
    (Proc.forEach users (addUserToPreFiltered K)).run g = (.ok (), g') → ∀ aggr v,
    (g'.InList aggr v ↔ g.InList aggr v ∨ v ∈ users ∧ ∃ states,
      (K.states g.states).usersStates.get? v = some states ∧
        ∃ key ∈ states.reserves.keys, g.signals.tokenSignalMap.get? key = some aggr) := by
  induction users with
  | nil =>
    intro g g' h aggr v
    rw [← (Prod.mk.inj h).2]
    simp
  | cons usr users ih =>
    intro g g' h aggr v
    obtain ⟨_, g₁, hone, hrest⟩ := Proc.run_bind_ok h
    have hsame : SameButLists g g₁ := by
      have hkeeps := keeps_addUserToPreFiltered (K := K) usr g
      rwa [hone] at hkeeps
    rw [addUserToPreFiltered, Proc.run_bind, Proc.run_read] at hone
    obtain ⟨states, g₂, hitem, hone⟩ := Proc.run_bind_ok hone
    obtain ⟨hstates, rfl⟩ := Prod.mk.inj hitem
    rw [Dict.item_eq_ok_iff] at hstates
    rw [ih hrest, hsame.1, hsame.2.2, inList_addReserves hone, or_assoc]
    refine or_congr_right ?_
    constructor
    · rintro (⟨rfl, hkey⟩ | ⟨hv, hkey⟩)
      · exact ⟨List.mem_cons_self, states, hstates, hkey⟩
      · exact ⟨List.mem_cons_of_mem usr hv, hkey⟩
    · rintro ⟨hv, states', hstates', hkey⟩
      rcases List.mem_cons.mp hv with rfl | hv
      · rw [Option.some_inj.mp (hstates'.symm.trans hstates)] at hkey
        exact .inl ⟨rfl, hkey⟩
      · exact .inr ⟨hv, states', hstates', hkey⟩

end Lists

/-! ## New health factors -/

theorem calculateHealthFactor_ok {now : ℤ} {usr : String} {reserves : Dict String CompReserve}
    {vaiRepay : ℤ} {ctk : Dict String CtokenInfos} {comet : CometConfigs} {result : HfResult}
    (h : calculateHealthFactor trueDiv now usr reserves vaiRepay ctk comet = .ok result) :
    result.1 = usr ∧ IsFloat result.2.1.value ∧ result.2.1.lastUpdate = now := by
  rw [calculateHealthFactor_eq] at h
  rcases hsums : healthSums ctk comet reserves with e | sums
  · rw [hsums] at h
    cases h
  rw [hsums, ok_bind, healthOfSums] at h
  by_cases hdebt : sums.2 + vaiRepay ≤ 0
  · rw [if_pos hdebt] at h
    rw [← Except.ok.inj h]
    exact ⟨rfl, rfl, rfl⟩
  rw [if_neg hdebt] at h
  rcases hvalue : trueDiv sums.1 (sums.2 + vaiRepay) with e | value
  · rw [hvalue] at h
    cases h
  · rw [hvalue] at h
    rw [← Except.ok.inj h]
    exact ⟨rfl, isFloat_of_trueDiv hvalue, rfl⟩

/-- The calculation returns one result for each user, a float with the time it was made. -/
theorem healthFactors_ok {clock : String → ℤ} {comet : CometConfigs} {sta : States}
    {users : List String} {results : List HfResult}
    (h : healthFactors clock comet sta users = .ok results) :
    results.map Prod.fst = users ∧
      ∀ res ∈ results, IsFloat res.2.1.value ∧ res.2.1.lastUpdate = clock res.1 := by
  rw [healthFactors] at h
  generalize sta.ctokens = ctk at h
  induction users generalizing results with
  | nil =>
    rw [← Except.ok.inj h]
    exact ⟨rfl, fun _ hres ↦ absurd hres List.not_mem_nil⟩
  | cons usr users ih =>
    rw [genUsersWithArgs] at h
    rcases hstates : sta.usersStates.item usr with e | states
    · rw [hstates] at h
      cases h
    rcases hargs : genUsersWithArgs sta users with e | args
    · rw [hstates, hargs] at h
      cases h
    rw [hstates, hargs] at h
    change signalCalculateHealthFactor clock ctk comet
      ((usr, states.reserves, states.vaiRepay) :: args) = .ok results at h
    rw [signalCalculateHealthFactor] at h
    rcases hone : calculateHealthFactor trueDiv (clock usr) usr states.reserves states.vaiRepay ctk
      comet with e | result
    · rw [hone] at h
      cases h
    rcases hrest : signalCalculateHealthFactor clock ctk comet args with e | rest
    · rw [hone, hrest] at h
      cases h
    rw [hone, hrest] at h
    obtain ⟨hfst, hvalue, hlast⟩ := calculateHealthFactor_ok hone
    have htail : (genUsersWithArgs sta users >>= fun args ↦
        signalCalculateHealthFactor clock ctk comet args) = .ok rest := by
      rw [hargs, ok_bind, hrest]
    obtain ⟨hfsts, hlasts⟩ := ih htail
    rw [← Except.ok.inj h]
    refine ⟨by rw [List.map_cons, hfst, hfsts], fun res hres ↦ ?_⟩
    rcases List.mem_cons.mp hres with rfl | hres
    · exact ⟨hvalue, by rw [hlast, hfst]⟩
    · exact hlasts res hres

/-- What holds of all results holds of the health factors they are written to. -/
theorem writeHealthFactor_ok {P : String → HealthFactor → Prop} {results : List HfResult}
    {s s' : States} (h : (States.writeHealthFactor results).run s = (.ok (), s'))
    (hP : ∀ res ∈ results, P res.1 res.2.1) (u : String) (hu : u ∈ results.map Prod.fst ∨
      ∀ states, s.usersStates.get? u = some states → P u states.healthFactor) :
    ∀ states, s'.usersStates.get? u = some states → P u states.healthFactor := by
  refine (Proc.run_forEach_ok (I := fun _ ↦ True) (E := fun res ↦ res.1 = u)
    (Q := fun t : States ↦ ∀ states, t.usersStates.get? u = some states → P u states.healthFactor)
    (fun res hres t t' _ hone ↦ ⟨trivial, ?_⟩) trivial h).2
    (hu.symm.imp_right (List.mem_map (f := Prod.fst)).mp)
  rw [Proc.run_bind, Proc.run_read] at hone
  obtain ⟨_, _, hitem, hone⟩ := Proc.run_bind_ok hone
  obtain ⟨-, rfl⟩ := Prod.mk.inj hitem
  obtain ⟨-, rfl⟩ := Prod.mk.inj hone
  intro hq states hstates
  rw [States.setHealthFactor, Dict.get?_modify] at hstates
  by_cases hfirst : u = res.1
  · rw [if_pos hfirst, Option.map_eq_some_iff] at hstates
    obtain ⟨old, -, rfl⟩ := hstates
    exact hfirst ▸ hP res hres
  · rw [if_neg hfirst] at hstates
    exact hq.resolve_right (Ne.symm hfirst) states hstates

namespace HealthFactor

variable {hf : HealthFactor}

/-- Between one and eleven tenths nothing is rounded on the way to `hf_norm`. -/
theorem norm_toFloat (hvalue : IsFloat hf.value) (hrange : 1 < hf.value ∧ hf.value < 11 / 10) :
    hf.norm toFloat = hf.value - 1 := by
  have hsub : toFloat (hf.value - 1) = hf.value - 1 :=
    hvalue.sub_one hrange.1.le (hrange.2.trans (by norm_num))
  rw [norm, hfThreshold, div_one, hvalue, hsub]

/-- There nobody rests for longer than an hour. The last update is a float, so that a rounding that
goes up by more would have one nearer. -/
theorem restUntil_toFloat_le (hvalue : IsFloat hf.value)
    (hrange : 1 < hf.value ∧ hf.value < 11 / 10) (hlast : IsFloat hf.lastUpdate) :
    hf.restUntil toFloat ≤ hf.lastUpdate + 3600 := by
  have htick : 1 / 100 < toFloat (1 / 100) := by decide +kernel
  have hticks : 0 ≤ hf.ticksTime toFloat ∧ hf.ticksTime toFloat ≤ 1200 := by
    rw [ticksTime, norm_toFloat hvalue hrange, abs_of_pos (by linarith [hrange.1])]
    have hlow : 0 ≤ ⌊(hf.value - 1) / toFloat (1 / 100)⌋ :=
      Int.floor_nonneg.mpr (div_nonneg (by linarith [hrange.1]) (by linarith))
    have hhigh : ⌊(hf.value - 1) / toFloat (1 / 100)⌋ < 10 := by
      rw [Int.floor_lt, div_lt_iff₀ (by linarith)]
      push_cast
      linarith [hrange.2]
    have hlow' : (0 : ℚ) ≤ ⌊(hf.value - 1) / toFloat (1 / 100)⌋ := by exact_mod_cast hlow
    have hhigh' : (⌊(hf.value - 1) / toFloat (1 / 100)⌋ : ℚ) ≤ 10 := by exact_mod_cast hhigh.le
    exact ⟨by linarith, by linarith⟩
  have hnear := abs_toFloat_sub_le (x := hf.lastUpdate + hf.ticksTime toFloat) hlast
  rw [sub_add_cancel_left, abs_neg, abs_of_nonneg hticks.1] at hnear
  have hround := (le_abs_self _).trans hnear
  rw [restUntil, if_neg (by linarith [hticks.2]), hlast]
  linarith [hticks.2]

/-- A new health factor between one and eleven tenths is in the range of a signal, and would be left
out for its age only if the clock had gone back. -/
theorem kept_true_of_lt (hvalue : IsFloat hf.value) (hrange : 1 < hf.value ∧ hf.value < 11 / 10)
    (hlast : IsFloat hf.lastUpdate) {currentTime : ℤ}
    (htime : hf.lastUpdate + 86400 ≤ currentTime) : hf.Kept toFloat currentTime true := by
  have hrest := restUntil_toFloat_le hvalue hrange hlast
  have hcast : (hf.lastUpdate : ℚ) + 86400 ≤ currentTime := by exact_mod_cast htime
  have htenth : 1 / 10 < toFloat (1 / 10) := by decide +kernel
  refine ⟨by linarith, ?_, ?_⟩
  · rw [norm_toFloat hvalue hrange]
    linarith [hrange.2]
  · rw [norm_toFloat hvalue hrange]
    linarith [hrange.1]

end HealthFactor

section Callback

variable {S : Type} {K : StatesClass S} {lib : EthLibs} {node : UsersNode} {clock : UsersClock}

theorem rewriteHealthFactors_ok {usersLst filtered : List String} {g g' : Globals S}
    (h : (rewriteHealthFactors K clock usersLst).run g = (.ok filtered, g')) :
    ∃ results target,
      healthFactors clock.atUser g.comet (K.states g.states) usersLst = .ok results ∧
      usersTrimming toFloat usersLst (K.states g.states) (clock.now + 86400) false = .ok target ∧
      (States.writeHealthFactor results).run (K.states g.states) = (.ok (), K.states g'.states) ∧
      usersTrimming toFloat target (K.states g'.states) (clock.later + 86400) true
        = .ok filtered := by
  rw [rewriteHealthFactors, Proc.run_bind, Proc.run_read] at h
  obtain ⟨results, g₁, hresults, h⟩ := Proc.run_bind_ok h
  obtain ⟨hresults', rfl⟩ := Prod.mk.inj hresults
  obtain ⟨target, g₂, htarget, h⟩ := Proc.run_bind_ok h
  obtain ⟨htarget', rfl⟩ := Prod.mk.inj htarget
  obtain ⟨_, g₃, hwrite, h⟩ := Proc.run_bind_ok h
  rw [Proc.run_bind, Proc.run_read] at h
  obtain ⟨hfiltered, rfl⟩ := Prod.mk.inj h
  exact ⟨results, target, hresults', htarget', (onStates_ok hwrite).1, hfiltered⟩

/-- Which of the touched users who are now in range came from outside it. -/
theorem mem_usersFiltered_iff {usersLst filtered : List String} {g g' : Globals S} {u : String}
    {old : HealthFactor} {states : UserStates}
    (h : (rewriteHealthFactors K clock usersLst).run g = (.ok filtered, g')) (hu : u ∈ usersLst)
    (hold : ((K.states g.states).usersStates.get? u).map UserStates.healthFactor = some old)
    (hstates : (K.states g'.states).usersStates.get? u = some states)
    (hrange : 1 < states.healthFactor.value ∧ states.healthFactor.value < 11 / 10) :
    u ∈ filtered ↔ old.Kept toFloat (clock.now + 86400) false := by
  obtain ⟨results, target, hresults, htarget, hwrite, hfiltered⟩ := rewriteHealthFactors_ok h
  obtain ⟨hfst, hlasts⟩ := healthFactors_ok hresults
  obtain ⟨hvalue, hlast⟩ : IsFloat states.healthFactor.value ∧
      states.healthFactor.lastUpdate = clock.atUser u :=
    writeHealthFactor_ok (P := fun u hf ↦ IsFloat hf.value ∧ hf.lastUpdate = clock.atUser u) hwrite
      hlasts u (.inl (hfst ▸ hu)) states hstates
  have hkept : states.healthFactor.Kept toFloat (clock.later + 86400) true := by
    refine HealthFactor.kept_true_of_lt hvalue hrange (hlast ▸ clock.isFloat_atUser u) ?_
    have hbefore := clock.atUser_le u
    have hlater := clock.now_le
    omega
  obtain ⟨before, hbefore, rfl⟩ := Option.map_eq_some_iff.mp hold
  rw [mem_usersTrimming hfiltered, mem_usersTrimming htarget]
  simp only [hu, hbefore, hstates, Option.some_inj, exists_eq_left', true_and, hkept, and_true]

variable {response : LogReceiptLight} {logs : List LogReceipt} {g g' : Globals S}

private theorem reload_keeps_accounts {usersLst : List String}
    (h : (Proc.forEach usersLst fun usr ↦
      onStates K (States.reloadAndExtendStates lib node.getAssetsIn usr)).run g = (.ok (), g')) :
    (∀ u, (K.states g'.states).account? u = (K.states g.states).account? u) ∧
      g'.signals = g.signals ∧ g'.usersPreFiltered = g.usersPreFiltered := by
  have hkeeps := keeps_reloadUsers (K := K) (R := fun s s' ↦ ∀ u, s'.account? u = s.account? u)
    (fun _ _ ↦ rfl) (fun _ _ _ h h' u ↦ (h' u).trans (h u))
    (fun usr assets s u ↦ s.account?_refreshFlags usr assets u) lib node.getAssetsIn usersLst g
  rw [h] at hkeeps
  exact ⟨hkeeps.1, hkeeps.lists⟩

private theorem flush_keeps_health {query : String → Except Error ℤ}
    (h : (flushPlugIn K query).run g = (.ok (), g')) :
    (∀ u, ((K.states g'.states).usersStates.get? u).map
        (fun states ↦ (states.reserves, states.healthFactor))
      = ((K.states g.states).usersStates.get? u).map
        fun states ↦ (states.reserves, states.healthFactor)) ∧
      g'.signals = g.signals ∧ g'.usersPreFiltered = g.usersPreFiltered := by
  have hvai : ∀ (usr : String) (v : ℤ) (s : States) (u : String),
      ((s.setVaiRepay usr v).usersStates.get? u).map
          (fun states ↦ (states.reserves, states.healthFactor))
        = (s.usersStates.get? u).map fun states ↦ (states.reserves, states.healthFactor) := by
    intro usr v s u
    rw [States.setVaiRepay, Dict.get?_modify]
    split_ifs
    · rw [Option.map_map]
      rfl
    · rfl
  have hkeeps := keeps_flushPlugIn (K := K) (R := fun s s' ↦ ∀ u, (s'.usersStates.get? u).map
      (fun states ↦ (states.reserves, states.healthFactor))
      = (s.usersStates.get? u).map fun states ↦ (states.reserves, states.healthFactor))
    (fun _ _ ↦ rfl) (fun _ _ _ h h' u ↦ (h' u).trans (h u)) hvai (fun _ _ ↦ rfl) query g
  rw [h] at hkeeps
  exact ⟨hkeeps.1, hkeeps.lists⟩

private theorem rewrite_keeps_lists {usersLst filtered : List String}
    (h : (rewriteHealthFactors K clock usersLst).run g = (.ok filtered, g')) :
    g'.signals = g.signals ∧ g'.usersPreFiltered = g.usersPreFiltered := by
  have hkeeps := keeps_rewriteHealthFactors (K := K) (R := fun _ _ ↦ True) (fun _ ↦ trivial)
    (fun _ _ _ _ _ ↦ trivial) (fun _ _ _ ↦ trivial) clock usersLst g
  rw [h] at hkeeps
  exact hkeeps.lists

/-- The list of one aggregator, for both classes of states. -/
theorem inList_callback_iff (hK : K.Extends) (hlogs : converter lib response = .ok logs)
    (haccepted : (K.states g.states).lastUpdate ≤ response.blockNumber)
    (hreturns : (usersSubscribeCallback K lib node clock response).run g = (.ok (), g'))
    {u : String} (htouched : ∃ log ∈ logs, log.names lib u) {states : UserStates}
    (hstates : (K.states g'.states).usersStates.get? u = some states)
    (hrange : 1 < states.healthFactor.value ∧ states.healthFactor.value < 11 / 10)
    {reserve aggr : String} (hreserve : reserve ∈ states.reserves.keys)
    (haggr : g.signals.tokenSignalMap.get? reserve = some aggr) :
    g'.InList aggr u ↔ g.InList aggr u ∨
      ((K.states g.states).usersStates.getD u newUserStates).healthFactor.Kept
        toFloat (clock.now + 86400) false := by
  obtain ⟨stages⟩ := stages_of_completed hlogs haccepted hreturns
  obtain ⟨hkeys, hbatch⟩ := batched_updateAll hK stages.update
  have hu : u ∈ stages.users.keys := (hkeys u).mpr (.inr htouched)
  -- the old health factor is still there when the callback filters for the first time
  obtain ⟨haccount, hreloaded⟩ := reload_keeps_accounts stages.reload
  have hold : ((K.states stages.reloaded.states).usersStates.get? u).map UserStates.healthFactor
      = some ((K.states g.states).usersStates.getD u newUserStates).healthFactor := by
    have hbefore := haccount u
    rw [K.states_setStates] at hbefore
    have hnamed := hbefore.trans (hbatch.named u htouched)
    rw [States.getD_account?] at hnamed
    have hfst := congrArg (Option.map Prod.fst) hnamed
    rwa [States.account?, Option.map_map] at hfst
  -- reserves and health factors stay as they were written
  obtain ⟨hkept, hflushed⟩ := flush_keeps_health stages.flush
  have hsame : SameButLists stages.rewritten stages.extended := by
    have hkeeps := keeps_addUsersToPreFiltered (K := K) stages.usersFiltered stages.rewritten
    rwa [stages.extend] at hkeeps
  obtain ⟨written, hwritten, heq⟩ : ∃ written,
      (K.states stages.rewritten.states).usersStates.get? u = some written ∧
        written.reserves = states.reserves ∧ written.healthFactor = states.healthFactor := by
    have hu' := hkept u
    rw [hstates, hsame.1, Option.map_some, eq_comm, Option.map_eq_some_iff] at hu'
    obtain ⟨written, hwritten, hpair⟩ := hu'
    exact ⟨written, hwritten, Prod.mk.inj hpair⟩
  have hfiltered := mem_usersFiltered_iff stages.rewrite hu hold hwritten (heq.2 ▸ hrange)
  -- before the insertion the lists are the ones of the start
  obtain ⟨hmap, hstart⟩ := rewrite_keeps_lists stages.rewrite
  rw [hreloaded.1] at hmap
  rw [hreloaded.2] at hstart
  have hinserted := inList_addUsers stages.extend aggr u
  rw [hmap, hwritten] at hinserted
  simp only [Globals.InList, Option.some_inj, exists_eq_left', heq.1, hstart] at hinserted
  simp only [Globals.InList, hflushed.2]
  rw [hinserted, ← hfiltered]
  exact or_congr_right ⟨fun h ↦ h.1, fun h ↦ ⟨h, reserve, hreserve, haggr⟩⟩

end Callback

/-- **The lists of users at risk.** After an accepted message a touched user whose new health factor
is in range is in the list of an aggregator of the user's reserves if and only if the user was there
before, or the old health factor passes the filter for users who are not in range. -/
theorem hot_lists_iff {lib : EthLibs} {node : UsersNode} {clock : UsersClock}
    {response : LogReceiptLight} {logs : List LogReceipt} {g g' : Globals HighProfitSates}
    (hlogs : converter lib response = .ok logs)
    (haccepted : g.states.lastUpdate ≤ response.blockNumber)
    (hreturns : (usersSubscribeCallback highProfitSates lib node clock response).run g
      = (.ok (), g'))
    {u : String} (htouched : ∃ log ∈ logs, log.names lib u) {states : UserStates}
    (hstates : g'.states.usersStates.get? u = some states)
    (hrange : 1 < states.healthFactor.value ∧ states.healthFactor.value < 11 / 10)
    {reserve aggr : String} (hreserve : reserve ∈ states.reserves.keys)
    (haggr : g.signals.tokenSignalMap.get? reserve = some aggr) :
    g'.InList aggr u ↔ g.InList aggr u ∨
      (g.states.usersStates.getD u newUserStates).healthFactor.Kept toFloat (clock.now + 86400)
        false :=
  inList_callback_iff HighProfitSates.extends_highProfitSates hlogs haccepted hreturns htouched
    hstates hrange hreserve haggr

/-! ## A new market of a user in range -/

/-- A user with 105 units of collateral for 100 units of debt. -/
def nearUser : UserStates where
  reserves := Dict.set ∅ vUSDC ⟨105, 1, 100, 10 ^ 18⟩
  healthFactor := ⟨toFloat (21 / 20), 100, 0⟩
  vaiRepay := 0

/-- The user is in the list of the aggregator of the one market. -/
def nearGlobals : Globals HighProfitSates where
  states := HighProfitSates.new
    (States.new (Dict.set ∅ "0x9109358674f1c9a1a945a1d9880fb7ef1ddc43a3" nearUser)
      ((Dict.set ∅ vUSDC unitMarket).set "0xA07c5b74C9B40447a954e1466938b865b6BBea36"
        { unitMarket with price := some (.init 0 0) }) 100 "") 0
  comet := ⟨0, 0, (Dict.set ∅ vUSDC (10 ^ 18)).set
    "0xA07c5b74C9B40447a954e1466938b865b6BBea36" (10 ^ 18), 0⟩
  signals := .init ((Dict.set ∅ "0xa"
    [⟨"0xA07c5b74C9B40447a954e1466938b865b6BBea36", [], 8⟩]).set "0xb" [⟨vUSDC, [], 8⟩])
  usersPreFiltered := (Dict.set ∅ "0xa" []).set "0xb" ["0x9109358674f1c9a1a945a1d9880fb7ef1ddc43a3"]

/-- A node for which the user has entered both markets. -/
def nearNode : UsersNode :=
  ⟨fun _ ↦ .ok [vUSDC, "0xA07c5b74C9B40447a954e1466938b865b6BBea36"], fun _ ↦ .ok 0⟩

/-- The message that opens the new market goes through, the user stays in range, and the list of the
new market's aggregator stays empty. -/
theorem nearGlobals_minted : ∃ (g' : Globals HighProfitSates) (states : UserStates),
    (usersSubscribeCallback highProfitSates mintLibs nearNode mintDelivery.clock
      mintDelivery.response).run nearGlobals = (.ok (), g') ∧
    g'.states.usersStates.get? "0x9109358674f1c9a1a945a1d9880fb7ef1ddc43a3" = some states ∧
    (1 < states.healthFactor.value ∧ states.healthFactor.value < 11 / 10) ∧
    "0xA07c5b74C9B40447a954e1466938b865b6BBea36" ∈ states.reserves.keys ∧
    g'.usersPreFiltered.get? "0xa" = some [] := by
  have hrun : let result := (usersSubscribeCallback highProfitSates mintLibs nearNode
        mintDelivery.clock mintDelivery.response).run nearGlobals
      (result.1, (result.2.states.usersStates.get?
          "0x9109358674f1c9a1a945a1d9880fb7ef1ddc43a3").map
            (fun states ↦ (states.healthFactor.value, states.reserves.keys)),
          result.2.usersPreFiltered.get? "0xa")
        = (.ok (), some (toFloat (21 / 20), [vUSDC, "0xA07c5b74C9B40447a954e1466938b865b6BBea36"]),
          some []) := by
    rw [run_usersSubscribeCallback converter_mintDelivery (by decide), updateAll_mintLog]
    decide +kernel
  rcases hresult : (usersSubscribeCallback highProfitSates mintLibs nearNode mintDelivery.clock
    mintDelivery.response).run nearGlobals with ⟨result, g'⟩
  rw [hresult] at hrun
  obtain ⟨rfl, hrest⟩ := Prod.mk.inj hrun
  obtain ⟨huser, hlist⟩ := Prod.mk.inj hrest
  obtain ⟨states, hstates, hpair⟩ := Option.map_eq_some_iff.mp huser
  obtain ⟨hvalue, hkeys⟩ := Prod.mk.inj hpair
  refine ⟨g', states, rfl, hstates, ?_, ?_, hlist⟩
  · rw [hvalue]
    decide +kernel
  · rw [hkeys]
    exact List.mem_cons_of_mem _ List.mem_cons_self

theorem hot_lists_iff_minted : ∃ g' : Globals HighProfitSates,
    (usersSubscribeCallback highProfitSates mintLibs nearNode mintDelivery.clock
      mintDelivery.response).run nearGlobals = (.ok (), g') ∧
    (g'.InList "0xa" "0x9109358674f1c9a1a945a1d9880fb7ef1ddc43a3" ↔
      nearGlobals.InList "0xa" "0x9109358674f1c9a1a945a1d9880fb7ef1ddc43a3" ∨
      (nearGlobals.states.usersStates.getD "0x9109358674f1c9a1a945a1d9880fb7ef1ddc43a3"
        newUserStates).healthFactor.Kept toFloat (mintDelivery.clock.now + 86400) false) := by
  obtain ⟨g', states, hreturns, hstates, hrange, hreserve, -⟩ := nearGlobals_minted
  exact ⟨g', hreturns, hot_lists_iff converter_mintDelivery (by decide) hreturns names_mintLog
    hstates hrange hreserve (by decide)⟩

/-- The user was in range before the new market was opened, and is missed by its aggregator. -/
theorem not_hot_lists_newMarket : ∃ (g' : Globals HighProfitSates) (states : UserStates),
    converter mintLibs mintDelivery.response = .ok [mintLog] ∧
    nearGlobals.states.lastUpdate ≤ mintDelivery.response.blockNumber ∧
    (usersSubscribeCallback highProfitSates mintLibs nearNode mintDelivery.clock
      mintDelivery.response).run nearGlobals = (.ok (), g') ∧
    (∃ log ∈ [mintLog], log.names mintLibs "0x9109358674f1c9a1a945a1d9880fb7ef1ddc43a3") ∧
    g'.states.usersStates.get? "0x9109358674f1c9a1a945a1d9880fb7ef1ddc43a3" = some states ∧
    (1 < states.healthFactor.value ∧ states.healthFactor.value < 11 / 10) ∧
    ∃ reserve ∈ states.reserves.keys, ∃ aggr,
      nearGlobals.signals.tokenSignalMap.get? reserve = some aggr ∧
      ¬ g'.InList aggr "0x9109358674f1c9a1a945a1d9880fb7ef1ddc43a3" := by
  obtain ⟨g', states, hreturns, hstates, hrange, hreserve, hlist⟩ := nearGlobals_minted
  refine ⟨g', states, converter_mintDelivery, by decide, hreturns, names_mintLog, hstates, hrange,
    _, hreserve, "0xa", by decide, ?_⟩
  rintro ⟨users, husers, hmem⟩
  rw [hlist, Option.some_inj] at husers
  exact absurd hmem (husers ▸ List.not_mem_nil)

end CompoundLiquidation
