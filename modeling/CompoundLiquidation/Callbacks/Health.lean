import CompoundLiquidation.Signals.Transmit
import CompoundLiquidation.Users.Sync
import Mathlib.Data.Rat.Floor

/-!
# Health factors in the callbacks

The callbacks choose users by the health factor that is stored with them (`users_trimming`),
calculate new ones, and write these back. The choice has two modes. With `is_signal` it keeps the
users just above liquidation, in the order of their health factors; without it, it keeps users
elsewhere in the range, in the order given. Both leave out a user whose health factor was updated
too recently for its distance from the threshold.

What `users_trimming` computes is rounded. The rounding is an argument here: the program rounds to
floats, and some results are about exact numbers. A time is not so large that it has no float.
-/

namespace CompoundLiquidation

open Python

/-- `HF_THRESHOLD`. -/
def hfThreshold : ℚ := 1

namespace HealthFactor

/-- `hf_norm`. -/
def norm (round : ℚ → ℚ) (hf : HealthFactor) : ℚ := round (round (hf.value / hfThreshold) - 1)

theorem norm_id (hf : HealthFactor) : hf.norm id = hf.value - 1 := by
  rw [norm, hfThreshold, div_one, id_eq, id_eq]

/-- `abs(hf_norm)//intvl*intvl_time`. -/
def ticksTime (round : ℚ → ℚ) (hf : HealthFactor) : ℚ :=
  ⌊|hf.norm round| / round (1 / 100)⌋ * 120

/-- Until when `users_trimming` leaves a user out. A day is an integer, and so is its sum with the
last update. -/
def restUntil (round : ℚ → ℚ) (hf : HealthFactor) : ℚ :=
  if 86400 < hf.ticksTime round then hf.lastUpdate + 86400
  else round (round hf.lastUpdate + hf.ticksTime round)

/-- The interval tests of `users_trimming`. -/
def InRange (round : ℚ → ℚ) (hf : HealthFactor) : Bool → Prop
  | true => round (1 / 10) > hf.norm round ∧ hf.norm round > 0
  | false =>
    hf.norm round ≥ round (1 / 10) ∨
      (0 ≥ hf.norm round ∧ hf.norm round ≥ -round (1 / 10)) ∨ hf.norm round = -1

instance (round : ℚ → ℚ) (hf : HealthFactor) :
    (isSignal : Bool) → Decidable (hf.InRange round isSignal)
  | true => inferInstanceAs (Decidable (_ ∧ _))
  | false => inferInstanceAs (Decidable (_ ∨ _))

/-- `users_trimming` keeps a user with this health factor. -/
def Kept (round : ℚ → ℚ) (hf : HealthFactor) (currentTime : ℤ) (isSignal : Bool) : Prop :=
  hf.restUntil round ≤ currentTime ∧ hf.InRange round isSignal

instance (round : ℚ → ℚ) (hf : HealthFactor) (currentTime : ℤ) (isSignal : Bool) :
    Decidable (hf.Kept round currentTime isSignal) := inferInstanceAs (Decidable (_ ∧ _))

end HealthFactor

/-- The loop of `users_trimming`. -/
def usersFiltered (round : ℚ → ℚ) (sta : States) (currentTime : ℤ) (isSignal : Bool) :
    List String → Except Error (List (ℚ × String))
  | [] => .ok []
  | usr :: users => do
    let states ← sta.usersStates.item usr
    let rest ← usersFiltered round sta currentTime isSignal users
    if states.healthFactor.Kept round currentTime isSignal then
      return (states.healthFactor.norm round, usr) :: rest
    else return rest

/-- The order of the pairs that `sorted` compares. -/
def hfUserLe (a b : ℚ × String) : Bool := decide (a.1 < b.1 ∨ a.1 = b.1 ∧ a.2 ≤ b.2)

/-- `users_trimming`. -/
def usersTrimming (round : ℚ → ℚ) (users : List String) (sta : States) (currentTime : ℤ)
    (isSignal : Bool) : Except Error (List String) := do
  let filtered ← usersFiltered round sta currentTime isSignal users
  if isSignal then return (filtered.mergeSort hfUserLe).map Prod.snd
  else return filtered.map Prod.snd

/-- `gen_users_with_args`. -/
def genUsersWithArgs (sta : States) :
    List String → Except Error (List (String × Dict String CompReserve × ℤ))
  | [] => .ok []
  | usr :: users => do
    let states ← sta.usersStates.item usr
    let rest ← genUsersWithArgs sta users
    return (usr, states.reserves, states.vaiRepay) :: rest

/-- A calculated health factor of a user. -/
abbrev HfResult := String × HealthFactor × Dict String CompReserve

/-- `signal_calculate_health_factor`, when the clock shows `clock usr` at the turn of `usr`. -/
def signalCalculateHealthFactor (clock : String → ℤ) (ctk : Dict String CtokenInfos)
    (comet : CometConfigs) :
    List (String × Dict String CompReserve × ℤ) → Except Error (List HfResult)
  | [] => .ok []
  | (usr, reserves, vaiRepay) :: targets => do
    let result ← calculateHealthFactor trueDiv (clock usr) usr reserves vaiRepay ctk comet
    let rest ← signalCalculateHealthFactor clock ctk comet targets
    return result :: rest

/-- The health factors of a list of users, from the states. -/
def healthFactors (clock : String → ℤ) (comet : CometConfigs) (sta : States)
    (users : List String) : Except Error (List HfResult) := do
  let usersWithArgs ← genUsersWithArgs sta users
  signalCalculateHealthFactor clock sta.ctokens comet usersWithArgs

namespace States

/-- `states.users_states[usr].health_factor = new_health_factor`. -/
def setHealthFactor (usr : String) (hf : HealthFactor) (s : States) : States :=
  { s with usersStates := s.usersStates.modify usr fun states ↦ { states with healthFactor := hf } }

/-- `write_health_factor`. -/
def writeHealthFactor (results : List HfResult) : Proc States Error Unit :=
  Proc.forEach results fun res ↦ do
    let s ← Proc.read
    let _ ← Proc.ofExcept (s.usersStates.item res.1)
    Proc.modify (setHealthFactor res.1 res.2.1)

/-- `users_filtering`. -/
def usersFiltering (sta : States) (tokensAddr : List String) : List String :=
  (sta.usersStates.filter fun _ states ↦
    tokensAddr.any fun tokenAddr ↦ (states.reserves.get? tokenAddr).isSome).keys

end States

/-! ## Trimming -/

private theorem usersFiltered_cons {round : ℚ → ℚ} {sta : States} {usr : String}
    {states : UserStates} (h : sta.usersStates.get? usr = some states) (currentTime : ℤ)
    (isSignal : Bool) (users : List String) :
    usersFiltered round sta currentTime isSignal (usr :: users)
      = (usersFiltered round sta currentTime isSignal users).map fun rest ↦
          if states.healthFactor.Kept round currentTime isSignal then
            (states.healthFactor.norm round, usr) :: rest
          else rest := by
  rw [usersFiltered, Dict.item, h, okOr_some, ok_bind]
  rcases usersFiltered round sta currentTime isSignal users with e | rest
  · rfl
  · rw [ok_bind, Except.map]
    by_cases hkept : states.healthFactor.Kept round currentTime isSignal
    · rw [if_pos hkept, if_pos hkept]
      rfl
    · rw [if_neg hkept, if_neg hkept]
      rfl

/-- Trimming known users never raises. -/
theorem usersFiltered_ok (round : ℚ → ℚ) {sta : States} {users : List String}
    (h : ∀ u ∈ users, u ∈ sta.usersStates.keys) (currentTime : ℤ) (isSignal : Bool) :
    ∃ filtered, usersFiltered round sta currentTime isSignal users = .ok filtered := by
  induction users with
  | nil => exact ⟨[], rfl⟩
  | cons usr users ih =>
    obtain ⟨states, hstates⟩ := Dict.mem_keys_iff.mp (h usr List.mem_cons_self)
    obtain ⟨filtered, hfiltered⟩ := ih fun u hu ↦ h u (List.mem_cons_of_mem usr hu)
    rw [usersFiltered_cons hstates, hfiltered]
    exact ⟨_, rfl⟩

private theorem mem_usersFiltered {round : ℚ → ℚ} {sta : States} {currentTime : ℤ}
    {isSignal : Bool} {users : List String} : ∀ {filtered : List (ℚ × String)},
    usersFiltered round sta currentTime isSignal users = .ok filtered → ∀ u : String,
    (∃ norm, (norm, u) ∈ filtered) ↔ u ∈ users ∧ ∃ states, sta.usersStates.get? u = some states ∧
      states.healthFactor.Kept round currentTime isSignal := by
  induction users with
  | nil =>
    intro filtered h u
    rw [← Except.ok.inj h]
    simp
  | cons usr users ih =>
    intro filtered h u
    rcases hstates : sta.usersStates.get? usr with _ | states
    · rw [usersFiltered, Dict.item, hstates] at h
      cases h
    rw [usersFiltered_cons hstates] at h
    rcases hrest : usersFiltered round sta currentTime isSignal users with e | rest
    · rw [hrest] at h
      cases h
    rw [hrest, Except.map, Except.ok.injEq] at h
    subst h
    have hu : (∃ norm, (norm, u) ∈ if states.healthFactor.Kept round currentTime isSignal then
          (states.healthFactor.norm round, usr) :: rest else rest)
        ↔ (u = usr ∧ states.healthFactor.Kept round currentTime isSignal) ∨
          ∃ norm, (norm, u) ∈ rest := by
      by_cases hkept : states.healthFactor.Kept round currentTime isSignal
      · rw [if_pos hkept]
        simp [hkept, exists_or]
      · rw [if_neg hkept]
        simp [hkept]
    rw [hu, ih hrest, List.mem_cons]
    constructor
    · rintro (⟨rfl, hkept⟩ | ⟨hmem, hkept⟩)
      · exact ⟨.inl rfl, states, hstates, hkept⟩
      · exact ⟨.inr hmem, hkept⟩
    · rintro ⟨rfl | hmem, states', hstates', hkept⟩
      · rw [hstates, Option.some_inj] at hstates'
        exact .inl ⟨rfl, hstates' ▸ hkept⟩
      · exact .inr ⟨hmem, states', hstates', hkept⟩

theorem usersTrimming_ok (round : ℚ → ℚ) {sta : States} {users : List String}
    (h : ∀ u ∈ users, u ∈ sta.usersStates.keys) (currentTime : ℤ) (isSignal : Bool) :
    ∃ trimmed, usersTrimming round users sta currentTime isSignal = .ok trimmed := by
  obtain ⟨filtered, hfiltered⟩ := usersFiltered_ok round h currentTime isSignal
  rw [usersTrimming, hfiltered, ok_bind]
  rcases isSignal with _ | _
  · exact ⟨_, rfl⟩
  · exact ⟨_, rfl⟩

/-- Trimming keeps the users whose stored health factor passes. -/
theorem mem_usersTrimming {round : ℚ → ℚ} {sta : States} {users trimmed : List String}
    {currentTime : ℤ} {isSignal : Bool}
    (h : usersTrimming round users sta currentTime isSignal = .ok trimmed) (u : String) :
    u ∈ trimmed ↔ u ∈ users ∧ ∃ states, sta.usersStates.get? u = some states ∧
      states.healthFactor.Kept round currentTime isSignal := by
  rcases hfiltered : usersFiltered round sta currentTime isSignal users with e | filtered
  · rw [usersTrimming, hfiltered] at h
    cases h
  rw [← mem_usersFiltered hfiltered]
  rw [usersTrimming, hfiltered, ok_bind] at h
  rcases isSignal with _ | _
  · rw [← Except.ok.inj h, List.mem_map]
    exact ⟨fun ⟨p, hp, hu⟩ ↦ ⟨p.1, hu ▸ hp⟩, fun ⟨norm, hp⟩ ↦ ⟨_, hp, rfl⟩⟩
  · rw [← Except.ok.inj h, List.mem_map]
    have hperm := List.mergeSort_perm filtered hfUserLe
    exact ⟨fun ⟨p, hp, hu⟩ ↦ ⟨p.1, hperm.mem_iff.mp (hu ▸ hp)⟩,
      fun ⟨norm, hp⟩ ↦ ⟨_, hperm.mem_iff.mpr hp, rfl⟩⟩

end CompoundLiquidation
