import CompoundLiquidation.Users.Accrual
import CompoundLiquidation.Users.Persist

/-!
# Trimming

`trim` goes through the users three times: it marks the empty reserves, deletes them, and then looks
for users to delete. The keys of the first pass are kept in two parallel lists, and the second one
changes the dictionaries these keys came from. Here are the three passes as they are written, with
the proof that nothing goes wrong in them and that together they are `States.trim`.

What a state should look like after it has been trimmed is a property of its own. The third pass
tests an object where it means the reserves of the object, so the property fails for the users
without any record that counts, and only for them.
-/

namespace CompoundLiquidation

open Python

/-! ## The passes -/

/-- `bool(..)` of an instance. The class defines neither `__bool__` nor `__len__`. -/
def UserStates.truth (_ : UserStates) : Bool := true

/-- The user without some of the reserves. -/
def UserStates.without (reserves : List String) (states : UserStates) : UserStates :=
  { states with reserves := states.reserves.filter fun reserve _ ↦ reserve ∉ reserves }

namespace States

/-- The pass that marks: `key1` and `key2` as one list. -/
def emptyReserves (s : States) : List (String × List String) :=
  s.usersStates.entries.map fun e ↦
    (e.1, (e.2.reserves.filter fun _ data ↦ data.isEmpty).keys)

/-- `self.users_states[user].reserves.pop(reserve)`. -/
def popReserve (user reserve : String) : Proc States Error Unit := do
  let s ← Proc.read
  let states ← Proc.ofExcept (s.usersStates.item user)
  let _ ← Proc.ofExcept (states.reserves.item reserve)
  Proc.modify fun s ↦
    { s with usersStates := s.usersStates.modify user (UserStates.without [reserve]) }

/-- The body of the last loop. -/
def popUser (user : String) : Proc States Error Unit := do
  let s ← Proc.read
  let states ← Proc.ofExcept (s.usersStates.item user)
  if states.truth then return ()
  else Proc.modify fun s ↦ { s with usersStates := s.usersStates.erase user }

/-- `trim`, pass by pass. -/
def trimPasses : Proc States Error Unit := do
  let s ← Proc.read
  let marked := s.emptyReserves
  Proc.forEach marked fun entry ↦ Proc.forEach entry.2 (popReserve entry.1)
  Proc.forEach (marked.map Prod.fst) popUser

end States

/-! ## Nothing goes wrong -/

theorem UserStates.without_nil (states : UserStates) : states.without [] = states := by
  have hall : (states.reserves.filter fun reserve _ ↦ reserve ∉ ([] : List String))
      = states.reserves := Dict.ext (List.filter_eq_self.mpr fun _ _ ↦ by simp)
  rw [without, hall]

theorem UserStates.without_without (rs rs' : List String) (states : UserStates) :
    (states.without rs).without rs' = states.without (rs ++ rs') := by
  have hboth : ((states.reserves.filter fun reserve _ ↦ reserve ∉ rs).filter
      fun reserve _ ↦ reserve ∉ rs')
      = states.reserves.filter fun reserve _ ↦ reserve ∉ rs ++ rs' := by
    refine Dict.ext (List.filter_filter.trans (List.filter_congr fun e _ ↦ ?_))
    simp [Bool.and_comm]
  rw [without, without, without, hboth]

theorem UserStates.mem_keys_without {rs : List String} {states : UserStates} {r : String} :
    r ∈ (states.without rs).reserves.keys ↔ r ∈ states.reserves.keys ∧ r ∉ rs := by
  rw [without, Dict.mem_keys_iff, Dict.mem_keys_iff]
  simp only [Dict.get?_filter, Option.filter_eq_some_iff, decide_eq_true_eq, exists_and_right]

namespace States

/-- The reserves that are popped are there. -/
theorem run_popReserves (user : String) (rs : List String) : ∀ {s : States} {states : UserStates},
    s.usersStates.get? user = some states → rs.Nodup → (∀ r ∈ rs, r ∈ states.reserves.keys) →
    (Proc.forEach rs (popReserve user)).run s
      = (.ok (), { s with usersStates := s.usersStates.modify user (UserStates.without rs) }) := by
  induction rs with
  | nil =>
    intro s states _ _ _
    have hid : UserStates.without [] = fun states ↦ states := funext UserStates.without_nil
    rw [hid, Dict.modify_id]
    rfl
  | cons r rs ih =>
    intro s states hstates hnd hkeys
    obtain ⟨data, hdata⟩ := Dict.mem_keys_iff.mp (hkeys r List.mem_cons_self)
    obtain ⟨hr, hnd⟩ := List.nodup_cons.mp hnd
    have hone : (popReserve user r).run s = (.ok (),
        { s with usersStates := s.usersStates.modify user (UserStates.without [r]) }) := by
      rw [popReserve, Proc.run_bind, Proc.run_read]
      simp only [Proc.run_bind, Proc.run_ofExcept, Dict.item, hstates, okOr_some, hdata,
        Proc.run_modify]
    rw [Proc.forEach_cons, Proc.run_bind_of_ok hone, ih]
    · rw [Dict.modify_modify]
      simp only [UserStates.without_without, List.singleton_append]
    · rw [Dict.get?_modify_self, hstates, Option.map_some]
    · exact hnd
    · intro r' hr'
      refine UserStates.mem_keys_without.mpr ⟨hkeys r' (List.mem_cons_of_mem r hr'), ?_⟩
      rw [List.mem_singleton]
      rintro rfl
      exact hr hr'

/-- The second pass changes every user as the marks say. -/
theorem run_popMarked (marked : List (String × List String)) : ∀ {s : States},
    (marked.map Prod.fst).Nodup →
    (∀ e ∈ marked, e.2.Nodup ∧ ∃ states, s.usersStates.get? e.1 = some states ∧
      ∀ r ∈ e.2, r ∈ states.reserves.keys) →
    (Proc.forEach marked fun e ↦ Proc.forEach e.2 (popReserve e.1)).run s
      = (.ok (), { s with
          usersStates := s.usersStates.mapWithKey fun u states ↦
            states.without ((marked.lookup u).getD []) }) := by
  induction marked with
  | nil =>
    intro s _ _
    have hid : (s.usersStates.mapWithKey fun u states ↦
        states.without ((([] : List (String × List String)).lookup u).getD []))
        = s.usersStates := by
      simp only [List.lookup_nil, Option.getD_none, UserStates.without_nil]
      exact Dict.mapWithKey_id _
    rw [hid]
    rfl
  | cons e marked ih =>
    intro s hnd hmarked
    obtain ⟨hrs, states, hstates, hkeys⟩ := hmarked e List.mem_cons_self
    obtain ⟨he, hnd⟩ := List.nodup_cons.mp hnd
    rw [Proc.forEach_cons, Proc.run_bind_of_ok (run_popReserves e.1 e.2 hstates hrs hkeys), ih hnd]
    · rw [Dict.modify, Dict.mapWithKey_mapWithKey]
      congr 3
      funext u states
      rw [Dict.lookup_cons_ite]
      by_cases hu : u = e.1
      · -- no later mark is for the same user
        have hlater : marked.lookup u = none := by
          rw [List.lookup_eq_none_iff]
          intro e' he'
          rw [bne_iff_ne]
          rintro rfl
          exact he (hu ▸ List.mem_map_of_mem he')
        rw [if_pos hu, if_pos hu, hlater, Option.getD_none, UserStates.without_nil,
          Option.getD_some]
      · rw [if_neg hu, if_neg hu]
    · intro e' he'
      obtain ⟨hrs', states', hstates', hkeys'⟩ := hmarked e' (List.mem_cons_of_mem e he')
      refine ⟨hrs', states', ?_, hkeys'⟩
      rw [Dict.get?_modify_of_ne]
      · exact hstates'
      · rintro heq
        exact he (heq ▸ List.mem_map_of_mem he')

/-- The last pass finds no user to delete. -/
theorem run_popUsers (users : List String) {s : States} (h : ∀ u ∈ users, u ∈ s.usersStates.keys) :
    (Proc.forEach users popUser).run s = (.ok (), s) := by
  induction users with
  | nil => rfl
  | cons u users ih =>
    obtain ⟨states, hstates⟩ := Dict.mem_keys_iff.mp (h u List.mem_cons_self)
    have hone : (popUser u).run s = (.ok (), s) := by
      rw [popUser, Proc.run_bind, Proc.run_read]
      simp only [Proc.run_bind, Proc.run_ofExcept, Dict.item, hstates, okOr_some]
      rfl
    rw [Proc.forEach_cons, Proc.run_bind_of_ok hone]
    exact ih fun u' hu' ↦ h u' (List.mem_cons_of_mem u hu')

/-- The marks of a user. -/
theorem lookup_emptyReserves (s : States) (u : String) : s.emptyReserves.lookup u
    = (s.usersStates.get? u).map fun states ↦
        (states.reserves.filter fun _ data ↦ data.isEmpty).keys :=
  Dict.get?_mapWithKey s.usersStates
    (fun _ states ↦ (states.reserves.filter fun _ data ↦ data.isEmpty).keys) u

/-- Without the marked reserves a user has the other ones. -/
theorem without_emptyReserves (states : UserStates) :
    states.without (states.reserves.filter fun _ data ↦ data.isEmpty).keys
      = { states with reserves := states.reserves.filter fun _ data ↦ !data.isEmpty } := by
  have hcounts : (states.reserves.filter fun r _ ↦
        r ∉ (states.reserves.filter fun _ data ↦ data.isEmpty).keys)
      = states.reserves.filter fun _ data ↦ !data.isEmpty := by
    refine Dict.ext (List.filter_congr (l := states.reserves.entries) fun e he ↦ ?_)
    have hget : states.reserves.get? e.1 = some e.2 := Dict.get?_eq_some_iff.mpr he
    have hmem : e.1 ∈ (states.reserves.filter fun _ data ↦ data.isEmpty).keys
        ↔ e.2.isEmpty = true := by
      rw [Dict.mem_keys_iff, Dict.get?_filter, hget]
      simp
    simp only [hmem, Bool.not_eq_true, Bool.decide_eq_false]
  rw [UserStates.without, hcounts]

/-- **The passes of `trim`.** -/
theorem run_trimPasses (s : States) : trimPasses.run s = (.ok (), s.trim) := by
  have hpopped : (Proc.forEach s.emptyReserves fun e ↦ Proc.forEach e.2 (popReserve e.1)).run s
      = (.ok (), s.trim) := by
    rw [run_popMarked]
    · refine congrArg (Prod.mk _) (congrArg (fun users ↦ { s with usersStates := users }) ?_)
      refine Dict.mapWithKey_congr fun u states hstates ↦ ?_
      rw [lookup_emptyReserves, hstates, Option.map_some, Option.getD_some, without_emptyReserves]
    · simpa [emptyReserves, Dict.keys, Function.comp_def] using s.usersStates.nodup_keys'
    · intro e he
      obtain ⟨entry, hentry, rfl⟩ := List.mem_map.mp he
      refine ⟨Dict.nodup_keys' _, entry.2, Dict.get?_eq_some_iff.mpr hentry, fun r hr ↦ ?_⟩
      obtain ⟨data, hdata⟩ := Dict.mem_keys_iff.mp hr
      rw [Dict.get?_filter, Option.filter_eq_some_iff] at hdata
      exact Dict.mem_keys_iff.mpr ⟨data, hdata.1⟩
  rw [trimPasses, Proc.run_bind_of_ok (Proc.run_read s), Proc.run_bind_of_ok hpopped]
  refine run_popUsers _ fun u hu ↦ ?_
  have hkeys : s.trim.usersStates.keys = s.usersStates.keys := Dict.keys_mapWithKey _ _
  rw [hkeys]
  simpa [emptyReserves, Dict.keys, Function.comp_def] using hu

end States

/-! ## What trimming should leave -/

/-- A user with a record that counts. -/
def UserStates.Holds (states : UserStates) : Prop :=
  ∃ r data, states.reserves.get? r = some data ∧ data.isEmpty = false

/-- `s'` is `s` without its empty parts. -/
structure Trimmed (s s' : States) : Prop where
  /-- Every remaining user has a reserve. -/
  reserves : ∀ u states', s'.usersStates.get? u = some states' → states'.reserves.keys ≠ []
  /-- Every remaining record counts. -/
  records : ∀ u states', s'.usersStates.get? u = some states' →
    ∀ r data, states'.reserves.get? r = some data → data.colAmount ≠ 0 ∨ data.debtAmount ≠ 0
  /-- What remains was there before. -/
  old : ∀ u states', s'.usersStates.get? u = some states' →
    ∃ states, s.usersStates.get? u = some states ∧
      ∀ r data, states'.reserves.get? r = some data → states.reserves.get? r = some data
  /-- The records that count are kept, with what belongs to their user. -/
  kept : ∀ u states, s.usersStates.get? u = some states → states.Holds →
    ∃ states', s'.usersStates.get? u = some states' ∧
      states'.healthFactor = states.healthFactor ∧ states'.vaiRepay = states.vaiRepay ∧
      ∀ r data, states.reserves.get? r = some data → data.isEmpty = false →
        states'.reserves.get? r = some data
  /-- The other users are gone. -/
  gone : ∀ u states, s.usersStates.get? u = some states → ¬ states.Holds →
    s'.usersStates.get? u = none
  /-- The users who remain have the health factors they had, whatever the quotient. -/
  healthFactor : ∀ u states states', s.usersStates.get? u = some states →
    s'.usersStates.get? u = some states' → ∀ div now ctk comet hf,
      healthFactorOf div now u states.reserves states.vaiRepay ctk comet = .ok hf →
      healthFactorOf div now u states'.reserves states'.vaiRepay ctk comet = .ok hf

theorem CompReserve.isEmpty_eq_false_iff {r : CompReserve} :
    r.isEmpty = false ↔ r.colAmount ≠ 0 ∨ r.debtAmount ≠ 0 := by
  rw [isEmpty, decide_eq_false_iff_not, not_and_or]

/-- An empty record adds nothing. -/
theorem CompReserve.terms_of_isEmpty {r : CompReserve} (h : r.isEmpty = true) (m : MarketReading) :
    r.terms m = 0 := by
  obtain ⟨hcol, hdebt⟩ := of_decide_eq_true h
  rw [terms, collateralTerm, debtTerm, if_neg (by omega), if_neg (by omega)]
  rfl

private theorem foldlM_accrueReserve_filter {ctk : Dict String CtokenInfos} {comet : CometConfigs}
    {sums : ℤ × ℤ} (entries : List (String × CompReserve)) : ∀ start : ℤ × ℤ,
    entries.foldlM (accrueReserve ctk comet) start = .ok sums →
    (entries.filter fun e ↦ !e.2.isEmpty).foldlM (accrueReserve ctk comet) start = .ok sums := by
  induction entries with
  | nil => exact fun _ h ↦ h
  | cons e entries ih =>
    intro start h
    rw [List.foldlM_cons] at h
    rcases hstep : accrueReserve ctk comet start e with err | next
    · rw [hstep] at h
      cases h
    rw [hstep, ok_bind] at h
    by_cases hempty : e.2.isEmpty = true
    · obtain ⟨m, -, rfl⟩ := accrueReserve_ok_iff.mp hstep
      rw [CompReserve.terms_of_isEmpty hempty, add_zero] at h
      rw [List.filter_cons_of_neg (by simp [hempty])]
      exact ih _ h
    · rw [List.filter_cons_of_pos (by simp [hempty]), List.foldlM_cons, hstep, ok_bind]
      exact ih _ h

/-- The sums over the records that count are the sums over all records. -/
theorem healthSums_filter {ctk : Dict String CtokenInfos} {comet : CometConfigs}
    {reserves : Dict String CompReserve} {sums : ℤ × ℤ}
    (h : healthSums ctk comet reserves = .ok sums) :
    healthSums ctk comet (reserves.filter fun _ data ↦ !data.isEmpty) = .ok sums :=
  foldlM_accrueReserve_filter reserves.entries (0, 0) h

/-- The states of the users after it. -/
theorem States.get?_trim_eq_some_iff {s : States} {u : String} {states' : UserStates} :
    s.trim.usersStates.get? u = some states' ↔ ∃ states, s.usersStates.get? u = some states ∧
      { states with reserves := states.reserves.filter fun _ data ↦ !data.isEmpty } = states' := by
  rw [trim, Dict.get?_mapWithKey, Option.map_eq_some_iff]

/-- The records of a user after it. -/
theorem get?_filter_isEmpty_iff {reserves : Dict String CompReserve} {r : String}
    {data : CompReserve} : (reserves.filter fun _ data ↦ !data.isEmpty).get? r = some data ↔
      reserves.get? r = some data ∧ data.isEmpty = false := by
  rw [Dict.get?_filter, Option.filter_eq_some_iff, Bool.not_eq_true']

/-- With a record that counts for every user, no user is left empty. -/
theorem trimmed_trim {s : States}
    (h : ∀ u states, s.usersStates.get? u = some states → states.Holds) : Trimmed s s.trim where
  reserves u states' hstates' := by
    obtain ⟨states, hstates, rfl⟩ := States.get?_trim_eq_some_iff.mp hstates'
    obtain ⟨r, data, hdata⟩ := h u states hstates
    exact List.ne_nil_of_mem (Dict.mem_keys_iff.mpr ⟨data, get?_filter_isEmpty_iff.mpr hdata⟩)
  records u states' hstates' r data hdata := by
    obtain ⟨states, -, rfl⟩ := States.get?_trim_eq_some_iff.mp hstates'
    exact CompReserve.isEmpty_eq_false_iff.mp (get?_filter_isEmpty_iff.mp hdata).2
  old u states' hstates' := by
    obtain ⟨states, hstates, rfl⟩ := States.get?_trim_eq_some_iff.mp hstates'
    exact ⟨states, hstates, fun r data hdata ↦ (get?_filter_isEmpty_iff.mp hdata).1⟩
  kept u states hstates _ :=
    ⟨_, States.get?_trim_eq_some_iff.mpr ⟨states, hstates, rfl⟩, rfl, rfl,
      fun r data hdata hcounts ↦ get?_filter_isEmpty_iff.mpr ⟨hdata, hcounts⟩⟩
  gone u states hstates hnot := absurd (h u states hstates) hnot
  healthFactor u states states' hstates hstates' div now ctk comet hf hhf := by
    obtain ⟨before, hbefore, rfl⟩ := States.get?_trim_eq_some_iff.mp hstates'
    obtain rfl := Option.some.inj (hstates.symm.trans hbefore)
    rw [healthFactorOf_eq] at hhf ⊢
    rcases hsums : healthSums ctk comet states.reserves with e | sums
    · rw [hsums] at hhf
      cases hhf
    · rw [hsums] at hhf
      rw [healthSums_filter hsums]
      exact hhf

/-- **What `trim` leaves.** It is the state without its empty parts iff every user has a record that
counts. -/
theorem trimmed_iff (s : States) :
    (∃ s', States.trimPasses.run s = (.ok (), s') ∧ Trimmed s s')
      ↔ ∀ u states, s.usersStates.get? u = some states → states.Holds := by
  rw [States.run_trimPasses]
  constructor
  · rintro ⟨s', hs', htrimmed⟩ u states hstates
    obtain ⟨-, rfl⟩ := Prod.mk.inj hs'
    by_contra hholds
    have hgone := htrimmed.gone u states hstates hholds
    rw [States.get?_trim_eq_some_iff.mpr ⟨states, hstates, rfl⟩] at hgone
    cases hgone
  · intro hholds
    exact ⟨s.trim, rfl, trimmed_trim hholds⟩

/-- A user who was registered and never held anything stays in the states. -/
theorem not_trimmed_newUser :
    ¬ ∃ s', States.trimPasses.run (States.new ((∅ : Dict String UserStates).set "0xa" newUserStates)
      ∅ 0 "") = (.ok (), s') ∧ Trimmed (States.new ((∅ : Dict String UserStates).set "0xa"
        newUserStates) ∅ 0 "") s' := by
  rintro ⟨s', hs', htrimmed⟩
  rw [States.run_trimPasses] at hs'
  obtain ⟨-, rfl⟩ := Prod.mk.inj hs'
  exact htrimmed.reserves "0xa" newUserStates rfl rfl

end CompoundLiquidation
