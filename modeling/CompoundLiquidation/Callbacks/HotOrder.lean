import CompoundLiquidation.Callbacks.Handover
import CompoundLiquidation.Users.Agreement

/-!
# The order of the lists of users at risk

A signal is answered for the first twenty users of a list only, so that the order of a list decides
who is looked at in time. At the start each list is what `users_trimming` returns, sorted by health
factor. Later `users_subscribe_callback` inserts users one by one, in front of the first one with a
larger health factor. Where no health factor is larger the search keeps its default, the front, and
that is the wrong end of the list.
-/

namespace CompoundLiquidation

open Python

/-! ## The lists at the start -/

/-- At a distance of less than a tenth nobody rests for longer than twenty minutes. -/
theorem HealthFactor.restUntil_le {hf : HealthFactor} {now : ℤ} (hpast : hf.lastUpdate ≤ now)
    (hnear : |hf.norm id| < 1 / 10) : hf.restUntil id ≤ ((now + 1200 : ℤ) : ℚ) := by
  have hticks : ⌊|hf.norm id| / (1 / 100)⌋ < 10 := by
    rw [Int.floor_lt]
    push_cast
    linarith
  have hrest : hf.ticksTime id ≤ 1200 := by
    have hle : (⌊|hf.norm id| / (1 / 100)⌋ : ℚ) ≤ 9 := by
      exact_mod_cast Int.lt_add_one_iff.mp hticks
    rw [ticksTime, id_eq]
    linarith
  have hcast : (hf.lastUpdate : ℚ) ≤ now := by exact_mod_cast hpast
  rw [restUntil, if_neg (by linarith), id_eq, id_eq]
  push_cast
  exact add_le_add hcast hrest

/-- The pre-filter looks at the interval only. -/
theorem HealthFactor.kept_prefilter_iff {hf : HealthFactor} {now : ℤ}
    (hpast : hf.lastUpdate ≤ now) :
    hf.Kept id (now + 1200) true ↔ 1 < hf.value ∧ hf.value < 11 / 10 := by
  rw [Kept, InRange, norm_id, id_eq]
  constructor
  · rintro ⟨-, hlt, hgt⟩
    exact ⟨by linarith, by linarith⟩
  · rintro ⟨hgt, hlt⟩
    refine ⟨restUntil_le hpast ?_, by linarith, by linarith⟩
    rw [norm_id, abs_of_pos (by linarith)]
    linarith

/-- The loop keeps the users it keeps with their health factors, in the order given. -/
theorem usersFiltered_eq {round : ℚ → ℚ} {sta : States} {currentTime : ℤ} {isSignal : Bool}
    {users : List String} : ∀ {filtered : List (ℚ × String)},
      usersFiltered round sta currentTime isSignal users = .ok filtered →
      (filtered.map Prod.snd).Sublist users ∧ ∀ p ∈ filtered,
        p.1 = (sta.usersStates.getD p.2 newUserStates).healthFactor.norm round := by
  -- for any result: the users behind the first one have a result of their own
  induction users with
  | nil =>
    intro filtered h
    rw [← Except.ok.inj h]
    exact ⟨List.Sublist.refl [], fun _ hp ↦ absurd hp List.not_mem_nil⟩
  | cons usr users ih =>
    intro filtered h
    rw [usersFiltered] at h
    rcases hitem : sta.usersStates.item usr with e | states
    · rw [hitem] at h
      cases h
    rcases hrest : usersFiltered round sta currentTime isSignal users with e | rest
    · rw [hitem, hrest] at h
      cases h
    rw [hitem, hrest, ok_bind, ok_bind] at h
    obtain ⟨hsublist, hnorms⟩ := ih hrest
    by_cases hkept : states.healthFactor.Kept round currentTime isSignal
    · rw [if_pos hkept] at h
      rw [← Except.ok.inj h]
      refine ⟨hsublist.cons_cons usr, fun p hp ↦ ?_⟩
      rcases List.mem_cons.mp hp with rfl | hp
      · rw [Dict.getD_of_get? (Dict.item_eq_ok_iff.mp hitem)]
      · exact hnorms p hp
    · rw [if_neg hkept] at h
      rw [← Except.ok.inj h]
      exact ⟨hsublist.cons usr, hnorms⟩

theorem nodup_usersTrimming {round : ℚ → ℚ} {sta : States} {users trimmed : List String}
    {currentTime : ℤ} (h : usersTrimming round users sta currentTime true = .ok trimmed)
    (hnodup : users.Nodup) : trimmed.Nodup := by
  rcases hfiltered : usersFiltered round sta currentTime true users with e | filtered
  · rw [usersTrimming, hfiltered] at h
    cases h
  rw [usersTrimming, hfiltered, ok_bind] at h
  rw [← Except.ok.inj h]
  exact ((List.mergeSort_perm filtered hfUserLe).map Prod.snd).nodup_iff.mpr
    ((usersFiltered_eq hfiltered).1.nodup hnodup)

/-- Tuples are compared by their numbers first, then by their texts. -/
theorem pairwise_mergeSort_hfUserLe (filtered : List (ℚ × String)) :
    (filtered.mergeSort hfUserLe).Pairwise fun a b ↦ a.1 ≤ b.1 := by
  have hsorted : (filtered.mergeSort hfUserLe).Pairwise fun a b ↦ hfUserLe a b = true := by
    refine List.pairwise_mergeSort ?_ ?_ filtered
    · intro a b c hab hbc
      simp only [hfUserLe, decide_eq_true_eq] at hab hbc ⊢
      rcases hab with hab | ⟨hab, hab'⟩
      · rcases hbc with hbc | ⟨hbc, -⟩
        · exact .inl (hab.trans hbc)
        · exact .inl (hbc ▸ hab)
      · rcases hbc with hbc | ⟨hbc, hbc'⟩
        · exact .inl (hab ▸ hbc)
        · exact .inr ⟨hab.trans hbc, String.le_trans hab' hbc'⟩
    · intro a b
      simp only [hfUserLe, Bool.or_eq_true, decide_eq_true_eq]
      rcases lt_trichotomy a.1 b.1 with hlt | heq | hgt
      · exact .inl (.inl hlt)
      · exact (String.le_total a.2 b.2).imp (fun hle ↦ .inr ⟨heq, hle⟩)
          fun hle ↦ .inr ⟨heq.symm, hle⟩
      · exact .inr (.inl hgt)
  refine hsorted.imp fun hle ↦ ?_
  simp only [hfUserLe, decide_eq_true_eq] at hle
  exact hle.elim le_of_lt fun heq ↦ heq.1.le

/-- Trimming for a signal sorts. -/
theorem ascending_usersTrimming {sta : States} {users trimmed : List String} {currentTime : ℤ}
    (h : usersTrimming id users sta currentTime true = .ok trimmed) : sta.Ascending trimmed := by
  rcases hfiltered : usersFiltered id sta currentTime true users with e | filtered
  · rw [usersTrimming, hfiltered] at h
    cases h
  rw [usersTrimming, hfiltered, ok_bind] at h
  rw [← Except.ok.inj h]
  have hnorms : ∀ p ∈ filtered.mergeSort hfUserLe, p.1 = sta.cachedHf p.2 - 1 := by
    intro p hp
    rw [(usersFiltered_eq hfiltered).2 p ((List.mergeSort_perm filtered hfUserLe).mem_iff.mp hp),
      HealthFactor.norm_id, States.cachedHf]
  rw [States.Ascending, List.pairwise_map]
  refine (pairwise_mergeSort_hfUserLe filtered).imp_of_mem fun {a b} ha hb hle ↦ ?_
  rw [hnorms a ha, hnorms b hb] at hle
  linarith

/-- **The pre-filter.** For distinct users of the states none of whom was updated in the future, the
trimming of the start-up code returns exactly those with a health factor between one and eleven
tenths, each once and in ascending order. -/
theorem usersTrimming_prefilter {sta : States} {users : List String} {now : ℤ}
    (hnodup : users.Nodup) (hknown : ∀ u ∈ users, u ∈ sta.usersStates.keys)
    (hpast : ∀ u ∈ users, ∀ states, sta.usersStates.get? u = some states →
      states.healthFactor.lastUpdate ≤ now) :
    ∃ trimmed, usersTrimming id users sta (now + 1200) true = .ok trimmed ∧ trimmed.Nodup ∧
      sta.Ascending trimmed ∧
      ∀ u, u ∈ trimmed ↔ u ∈ users ∧ 1 < sta.cachedHf u ∧ sta.cachedHf u < 11 / 10 := by
  obtain ⟨trimmed, htrimmed⟩ := usersTrimming_ok id hknown (now + 1200) true
  refine ⟨trimmed, htrimmed, nodup_usersTrimming htrimmed hnodup, ascending_usersTrimming htrimmed,
    fun u ↦ ?_⟩
  rw [mem_usersTrimming htrimmed]
  refine and_congr_right fun hu ↦ ?_
  obtain ⟨states, hstates⟩ := Dict.mem_keys_iff.mp (hknown u hu)
  simp only [hstates, Option.some_inj, exists_eq_left', States.cachedHf_of_get? hstates]
  exact HealthFactor.kept_prefilter_iff (hpast u hu states hstates)

/-! ## Insertion -/

section Insertion

variable {sta : States}

/-- Past users without a larger health factor the search goes on. -/
theorem insertIndex_append {hf : ℚ} {front back : List String} (hknown : ∀ u ∈ front,
    u ∈ sta.usersStates.keys) (hfront : ∀ u ∈ front, sta.cachedHf u ≤ hf) : ∀ i : ℕ,
    insertIndex sta hf i (front ++ back) = insertIndex sta hf (i + front.length) back := by
  -- for any start `i`: behind a user it is one larger
  induction front with
  | nil => exact fun _ ↦ rfl
  | cons usr front ih =>
    intro i
    obtain ⟨states, hstates⟩ := Dict.mem_keys_iff.mp (hknown usr List.mem_cons_self)
    have hle := hfront usr List.mem_cons_self
    rw [States.cachedHf_of_get? hstates] at hle
    rw [List.cons_append, insertIndex, Dict.item_eq_ok_iff.mpr hstates, ok_bind,
      if_neg hle.not_gt, ih (fun u hu ↦ hknown u (List.mem_cons_of_mem usr hu))
        (fun u hu ↦ hfront u (List.mem_cons_of_mem usr hu)), List.length_cons]
    congr 1
    omega

/-- Where a user has a larger health factor the search stops there. -/
theorem insertIndex_of_larger {hf : ℚ} {front back : List String} {v : String}
    (hknown : ∀ u ∈ front ++ v :: back, u ∈ sta.usersStates.keys)
    (hfront : ∀ u ∈ front, sta.cachedHf u ≤ hf) (hlarger : hf < sta.cachedHf v) :
    insertIndex sta hf 0 (front ++ v :: back) = .ok front.length := by
  obtain ⟨states, hstates⟩ := Dict.mem_keys_iff.mp
    (hknown v (List.mem_append_right front List.mem_cons_self))
  rw [States.cachedHf_of_get? hstates] at hlarger
  rw [insertIndex_append (fun u hu ↦ hknown u (List.mem_append_left _ hu)) hfront, insertIndex,
    Dict.item_eq_ok_iff.mpr hstates, ok_bind, if_pos hlarger, Nat.zero_add]
  rfl

/-- Where none has one the place is the front. -/
theorem insertIndex_of_none {hf : ℚ} {users : List String}
    (hknown : ∀ u ∈ users, u ∈ sta.usersStates.keys) (hnone : ∀ u ∈ users, sta.cachedHf u ≤ hf) :
    insertIndex sta hf 0 users = .ok 0 := by
  have happend := @insertIndex_append _ _ _ [] hknown hnone 0
  rwa [List.append_nil] at happend

/-- A list with a larger health factor splits at the first one. -/
theorem exists_first_larger {hf : ℚ} {users : List String} (h : ∃ u ∈ users, hf < sta.cachedHf u) :
    ∃ front v back, users = front ++ v :: back ∧ (∀ u ∈ front, sta.cachedHf u ≤ hf) ∧
      hf < sta.cachedHf v := by
  induction users with
  | nil => exact absurd h.choose_spec.1 List.not_mem_nil
  | cons usr users ih =>
    rcases lt_or_ge hf (sta.cachedHf usr) with hlt | hge
    · exact ⟨[], usr, users, rfl, fun _ hu ↦ absurd hu List.not_mem_nil, hlt⟩
    · obtain ⟨u, hu, hlarger⟩ := h
      rcases List.mem_cons.mp hu with rfl | hu
      · exact absurd hlarger hge.not_gt
      obtain ⟨front, v, back, rfl, hfront, hv⟩ := ih ⟨u, hu, hlarger⟩
      refine ⟨usr :: front, v, back, rfl, fun w hw ↦ ?_, hv⟩
      rcases List.mem_cons.mp hw with rfl | hw
      · exact hge
      · exact hfront w hw

theorem insertIdx_length_append {α : Type*} (a : α) (front back : List α) :
    (front ++ back).insertIdx front.length a = front ++ a :: back := by
  induction front with
  | nil => rfl
  | cons b front ih => rw [List.cons_append, List.length_cons, List.insertIdx_succ_cons, ih]; rfl

end Insertion

section HotList

variable {S : Type} {K : StatesClass S}

/-- The new list is in order, has the new user once, and the others as they were. -/
structure InsertedInOrder (sta : States) (usr : String) (users users' : List String) : Prop where
  ascending : sta.Ascending users'
  once : users'.count usr = 1
  others : users'.filter (· ≠ usr) = users

/-- What the insertion of a user into the list of an aggregator is to do. -/
def KeepsOrder (K : StatesClass S) (g : Globals S) (usr ctokenAddr aggr : String)
    (users : List String) : Prop :=
  let result := (addToPreFiltered K usr ((K.states g.states).cachedHf usr) ctokenAddr).run g
  result.1 = .ok () ∧ if usr ∈ users then result.2 = g else
    ∃ users', result.2 = { g with usersPreFiltered := g.usersPreFiltered.set aggr users' } ∧
      InsertedInOrder (K.states g.states) usr users users'

variable {g : Globals S} {usr ctokenAddr aggr : String} {users : List String}

theorem run_addToPreFiltered_of_mem {hf : ℚ}
    (haggr : g.signals.tokenSignalMap.get? ctokenAddr = some aggr)
    (hlist : g.usersPreFiltered.get? aggr = some users) (hmem : usr ∈ users) :
    (addToPreFiltered K usr hf ctokenAddr).run g = (.ok (), g) := by
  rw [addToPreFiltered, Proc.run_bind, Proc.run_read]
  simp only [haggr, Proc.run_bind, Proc.run_ofExcept, Dict.item_eq_ok_iff.mpr hlist, if_pos hmem]
  rfl

theorem run_addToPreFiltered_of_not_mem {hf : ℚ} {index : ℕ}
    (haggr : g.signals.tokenSignalMap.get? ctokenAddr = some aggr)
    (hlist : g.usersPreFiltered.get? aggr = some users) (habsent : usr ∉ users)
    (hindex : insertIndex (K.states g.states) hf 0 users = .ok index) :
    (addToPreFiltered K usr hf ctokenAddr).run g = (.ok (), { g with
      usersPreFiltered := g.usersPreFiltered.set aggr (users.insertIdx index usr) }) := by
  rw [addToPreFiltered, Proc.run_bind, Proc.run_read]
  simp only [haggr, Proc.run_bind, Proc.run_ofExcept, Dict.item_eq_ok_iff.mpr hlist,
    if_neg habsent, hindex]
  rfl

/-- Only the order can go wrong. -/
theorem insertedInOrder_iff {sta : States} {front back : List String}
    (habsent : usr ∉ front ++ back) :
    InsertedInOrder sta usr (front ++ back) (front ++ usr :: back) ↔
      sta.Ascending (front ++ usr :: back) := by
  refine ⟨fun h ↦ h.ascending, fun h ↦ ⟨h, ?_, ?_⟩⟩
  · rw [List.count_append, List.count_cons_self, ← Nat.add_assoc, ← List.count_append,
      List.count_eq_zero_of_not_mem habsent]
  · have hkeep : ∀ u ∈ front ++ back, decide (u ≠ usr) = true := by
      intro u hu
      exact decide_eq_true fun heq ↦ habsent (heq ▸ hu)
    rw [List.filter_append, List.filter_cons_of_neg (by simp), ← List.filter_append,
      List.filter_eq_self.mpr hkeep]

/-- Between the users who are not above and those who are a user is in order. -/
theorem ascending_insert {sta : States} {front back : List String}
    (hasc : sta.Ascending (front ++ back))
    (hfront : ∀ u ∈ front, sta.cachedHf u ≤ sta.cachedHf usr)
    (hback : ∀ u ∈ back, sta.cachedHf usr ≤ sta.cachedHf u) :
    sta.Ascending (front ++ usr :: back) := by
  rw [States.Ascending, List.pairwise_append] at hasc ⊢
  obtain ⟨hfronts, hbacks, hcross⟩ := hasc
  refine ⟨hfronts, List.pairwise_cons.mpr ⟨hback, hbacks⟩, fun u hu v hv ↦ ?_⟩
  rcases List.mem_cons.mp hv with rfl | hv
  · exact hfront u hu
  · exact hcross u hu v hv

/-- **Insertion into a list of users at risk.** The callback keeps the order of a list, with the new
user in it once and the others as they were, if and only if the user is there already, or some user
of the list has a larger health factor, or all have the same. -/
theorem keepsOrder_iff (haggr : g.signals.tokenSignalMap.get? ctokenAddr = some aggr)
    (hlist : g.usersPreFiltered.get? aggr = some users)
    (hknown : ∀ u ∈ users, u ∈ (K.states g.states).usersStates.keys)
    (hasc : (K.states g.states).Ascending users) :
    KeepsOrder K g usr ctokenAddr aggr users ↔ usr ∈ users ∨
      (∃ u ∈ users, (K.states g.states).cachedHf usr < (K.states g.states).cachedHf u) ∨
      ∀ u ∈ users, (K.states g.states).cachedHf u = (K.states g.states).cachedHf usr := by
  by_cases hmem : usr ∈ users
  · refine iff_of_true ?_ (.inl hmem)
    simp only [KeepsOrder, run_addToPreFiltered_of_mem haggr hlist hmem, if_pos hmem, and_self]
  simp only [KeepsOrder, hmem, false_or]
  by_cases hlarger : ∃ u ∈ users, (K.states g.states).cachedHf usr < (K.states g.states).cachedHf u
  · refine iff_of_true ?_ (.inl hlarger)
    -- all users behind the first one that is larger are larger, as the list is in order
    obtain ⟨front, v, back, rfl, hfront, hv⟩ := exists_first_larger hlarger
    rw [run_addToPreFiltered_of_not_mem haggr hlist hmem
      (insertIndex_of_larger hknown hfront hv), insertIdx_length_append]
    refine ⟨rfl, _, rfl, (insertedInOrder_iff hmem).mpr (ascending_insert hasc hfront ?_)⟩
    intro u hu
    rcases List.mem_cons.mp hu with rfl | hu
    · exact hv.le
    · have hvu := (List.pairwise_cons.mp (List.pairwise_append.mp hasc).2.1).1 u hu
      exact hv.le.trans hvu
  · -- the search has found nobody, and the user goes to the front
    have hnone : ∀ u ∈ users,
        (K.states g.states).cachedHf u ≤ (K.states g.states).cachedHf usr := by
      intro u hu
      exact not_lt.mp fun hlt ↦ hlarger ⟨u, hu, hlt⟩
    rw [run_addToPreFiltered_of_not_mem haggr hlist hmem (insertIndex_of_none hknown hnone),
      List.insertIdx_zero]
    have hresult : (∃ users',
        { g with usersPreFiltered := g.usersPreFiltered.set aggr (usr :: users) }
          = { g with usersPreFiltered := g.usersPreFiltered.set aggr users' } ∧
          InsertedInOrder (K.states g.states) usr users users')
        ↔ (K.states g.states).Ascending (usr :: users) := by
      rw [← List.nil_append users] at hmem
      refine Iff.trans ?_ (insertedInOrder_iff hmem)
      constructor
      · rintro ⟨users', heq, h⟩
        have hset := congrArg (fun g ↦ g.usersPreFiltered.get? aggr) heq
        rw [Dict.get?_set_self, Dict.get?_set_self, Option.some_inj] at hset
        exact hset ▸ h
      · exact fun h ↦ ⟨_, rfl, h⟩
    rw [hresult, States.Ascending, List.pairwise_cons]
    simp only [hlarger, false_or, true_and]
    constructor
    · exact fun h u hu ↦ le_antisymm (hnone u hu) (h.1 u hu)
    · exact fun h ↦ ⟨fun u hu ↦ (h u hu).ge, hasc⟩

end HotList

/-! ## Two users in range -/

/-- Two users at `1.05` and `1.08`, both with a reserve of one market; `listed` are in the list of
its aggregator. -/
def rankedGlobals (listed : List String) : Globals HighProfitSates where
  states := HighProfitSates.new (States.new
    ((Dict.set ∅ "0x9109358674f1c9a1a945a1d9880fb7ef1ddc43a3"
      ⟨Dict.set ∅ vUSDC ⟨105, 1, 100, 10 ^ 18⟩, ⟨21 / 20, 100, 0⟩, 0⟩).set
        "0x1111111111111111111111111111111111111111"
      ⟨Dict.set ∅ vUSDC ⟨108, 1, 100, 10 ^ 18⟩, ⟨27 / 25, 100, 0⟩, 0⟩)
    (Dict.set ∅ vUSDC unitMarket) 100 "") 0
  comet := ⟨0, 0, Dict.set ∅ vUSDC (10 ^ 18), 0⟩
  signals := .init (Dict.set ∅ "0xb" [⟨vUSDC, [], 8⟩])
  usersPreFiltered := Dict.set ∅ "0xb" listed

/-- The start-up code keeps both, the one closer to liquidation first. -/
theorem usersTrimming_prefilter_ranked : ∃ trimmed, usersTrimming id
      ["0x1111111111111111111111111111111111111111", "0x9109358674f1c9a1a945a1d9880fb7ef1ddc43a3"]
      (rankedGlobals []).states.toStates (0 + 1200) true = .ok trimmed ∧ trimmed.Nodup ∧
    (rankedGlobals []).states.toStates.Ascending trimmed ∧
    ∀ u, u ∈ trimmed ↔ u ∈ ["0x1111111111111111111111111111111111111111",
        "0x9109358674f1c9a1a945a1d9880fb7ef1ddc43a3"] ∧
      1 < (rankedGlobals []).states.toStates.cachedHf u ∧
      (rankedGlobals []).states.toStates.cachedHf u < 11 / 10 := by
  refine usersTrimming_prefilter (by decide) (by decide +kernel) fun u hu states hstates ↦ ?_
  have hlast : ∀ u ∈ ["0x1111111111111111111111111111111111111111",
      "0x9109358674f1c9a1a945a1d9880fb7ef1ddc43a3"],
      ((rankedGlobals []).states.usersStates.get? u).map (fun states ↦
        states.healthFactor.lastUpdate) = some 0 := by
    decide +kernel
  have hzero := hlast u hu
  rw [hstates, Option.map_some, Option.some_inj] at hzero
  exact hzero.le

/-- A user at `1.08` is inserted in front of one at `1.05`. -/
theorem not_keepsOrder_ranked :
    (rankedGlobals ["0x9109358674f1c9a1a945a1d9880fb7ef1ddc43a3"]).states.toStates.Ascending
      ["0x9109358674f1c9a1a945a1d9880fb7ef1ddc43a3"] ∧
    ¬ KeepsOrder highProfitSates (rankedGlobals ["0x9109358674f1c9a1a945a1d9880fb7ef1ddc43a3"])
      "0x1111111111111111111111111111111111111111" vUSDC "0xb"
      ["0x9109358674f1c9a1a945a1d9880fb7ef1ddc43a3"] := by
  refine ⟨List.pairwise_singleton _ _, fun h ↦ ?_⟩
  have hlist : ((addToPreFiltered highProfitSates "0x1111111111111111111111111111111111111111"
      ((rankedGlobals ["0x9109358674f1c9a1a945a1d9880fb7ef1ddc43a3"]).states.toStates.cachedHf
        "0x1111111111111111111111111111111111111111") vUSDC).run
      (rankedGlobals ["0x9109358674f1c9a1a945a1d9880fb7ef1ddc43a3"])).2.usersPreFiltered.get? "0xb"
      = some ["0x1111111111111111111111111111111111111111",
        "0x9109358674f1c9a1a945a1d9880fb7ef1ddc43a3"] := by
    decide +kernel
  have hbelow : (rankedGlobals
      ["0x9109358674f1c9a1a945a1d9880fb7ef1ddc43a3"]).states.toStates.cachedHf
        "0x9109358674f1c9a1a945a1d9880fb7ef1ddc43a3"
      < (rankedGlobals ["0x9109358674f1c9a1a945a1d9880fb7ef1ddc43a3"]).states.toStates.cachedHf
        "0x1111111111111111111111111111111111111111" := by
    decide +kernel
  rw [KeepsOrder] at h
  obtain ⟨-, hkeeps⟩ := h
  rw [if_neg (by decide)] at hkeeps
  obtain ⟨users', hresult, hordered⟩ := hkeeps
  have hset := congrArg (fun g ↦ g.usersPreFiltered.get? "0xb") hresult
  rw [Dict.get?_set_self] at hset
  obtain rfl := Option.some_inj.mp (hlist.symm.trans hset)
  exact hbelow.not_ge ((List.pairwise_cons.mp hordered.ascending).1 _ (List.mem_singleton_self _))

theorem keepsOrder_iff_ranked : KeepsOrder highProfitSates
    (rankedGlobals ["0x1111111111111111111111111111111111111111"])
    "0x9109358674f1c9a1a945a1d9880fb7ef1ddc43a3" vUSDC "0xb"
    ["0x1111111111111111111111111111111111111111"] := by
  have haggr : (rankedGlobals ["0x1111111111111111111111111111111111111111"]
      ).signals.tokenSignalMap.get? vUSDC = some "0xb" := by decide
  have hlist : (rankedGlobals ["0x1111111111111111111111111111111111111111"]
      ).usersPreFiltered.get? "0xb" = some ["0x1111111111111111111111111111111111111111"] := by
    decide
  refine (keepsOrder_iff haggr hlist ?_ (List.pairwise_singleton _ _)).mpr (.inr (.inl ?_))
  · decide +kernel
  · decide +kernel

end CompoundLiquidation
