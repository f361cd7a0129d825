import CompoundLiquidation.Callbacks.Rounds

/-!
# Which users are ever refreshed

Between two liquidations the health factor of a user is only recalculated when `users_trimming`
keeps the user, either among the sampled ones or for the list of an aggregator. Two questions decide
whether somebody is left behind: whether the interval tests of the two modes cover all health
factors, and whether successive samples cover all users.

The tests leave a gap. A user well below liquidation, but with a health factor that is not zero, is
outside of both modes however long ago the last update was.

The samples of `intervals` successive indices are arcs that follow each other around the list, but
the list cuts the arc that runs over its end. The part of this arc behind the cut is covered only
when another sample starts at the first user. Since arcs follow each other without a break, nothing
else can go wrong.
-/

namespace CompoundLiquidation

open Python

/-! ## The two modes of trimming -/

/-- `users_trimming` keeps the user in one of its modes, for exact numbers. -/
def KeptInSomeMode (users : List String) (sta : States) (currentTime : ℤ) (usr : String) : Prop :=
  ∃ isSignal trimmed,
    usersTrimming id users sta currentTime isSignal = .ok trimmed ∧ usr ∈ trimmed

namespace HealthFactor

/-- A user rests for a day at most. -/
theorem restUntil_le_day (hf : HealthFactor) : hf.restUntil id ≤ hf.lastUpdate + 86400 := by
  rw [restUntil]
  split_ifs with hday
  · exact le_rfl
  · exact add_le_add_right (not_lt.mp hday) _

/-- Where the tests of the two modes leave a gap. -/
theorem inRange_some_iff {hf : HealthFactor} (hvalue : 0 ≤ hf.value) :
    (∃ isSignal, hf.InRange id isSignal) ↔ hf.value = 0 ∨ 9 / 10 ≤ hf.value := by
  rw [Bool.exists_bool, InRange, InRange, norm_id, id_eq]
  constructor
  · rintro ((hleft | ⟨-, hright⟩ | hzero) | ⟨-, hbase⟩)
    · exact .inr (by linarith)
    · exact .inr (by linarith)
    · exact .inl (by linarith)
    · exact .inr (by linarith)
  · rintro (hzero | hlarge)
    · exact .inl (.inr (.inr (by rw [hzero, zero_sub])))
    -- from 9/10 on the three intervals meet at 1 and at 11/10
    by_cases hbase : hf.value ≤ 1
    · exact .inl (.inr (.inl ⟨by linarith, by linarith⟩))
    by_cases hleft : hf.value < 11 / 10
    · exact .inr ⟨by linarith, by linarith⟩
    · exact .inl (.inl (by linarith))

end HealthFactor

/-- **Who starves.** A day after the last update a user is kept in one of the two modes iff the
health factor is zero or at least nine tenths. -/
theorem keptInSomeMode_iff {users : List String} {sta : States}
    (hknown : ∀ u ∈ users, u ∈ sta.usersStates.keys) {usr : String} (husr : usr ∈ users)
    {states : UserStates} (hstates : sta.usersStates.get? usr = some states)
    (hvalue : 0 ≤ states.healthFactor.value) {currentTime : ℤ}
    (htime : states.healthFactor.lastUpdate + 86400 < currentTime) :
    KeptInSomeMode users sta currentTime usr
      ↔ states.healthFactor.value = 0 ∨ 9 / 10 ≤ states.healthFactor.value := by
  rw [← HealthFactor.inRange_some_iff hvalue]
  constructor
  · rintro ⟨isSignal, trimmed, htrimmed, hmem⟩
    obtain ⟨-, states', hstates', hkept⟩ := (mem_usersTrimming htrimmed usr).mp hmem
    rw [hstates, Option.some_inj] at hstates'
    exact ⟨isSignal, hstates' ▸ hkept.2⟩
  · rintro ⟨isSignal, hrange⟩
    obtain ⟨trimmed, htrimmed⟩ := usersTrimming_ok id hknown currentTime isSignal
    have hrest : states.healthFactor.restUntil id ≤ currentTime :=
      states.healthFactor.restUntil_le_day.trans (by exact_mod_cast htime.le)
    exact ⟨isSignal, trimmed, htrimmed,
      (mem_usersTrimming htrimmed usr).mpr ⟨husr, states, hstates, hrest, hrange⟩⟩

/-- A state with one user at this health factor. -/
def userAt (usr : String) (hf : HealthFactor) : States :=
  States.new ((∅ : Dict String UserStates).set usr ⟨∅, hf, 0⟩) ∅ 0 ""

theorem keptInSomeMode_iff_healthy :
    KeptInSomeMode ["0xa"] (userAt "0xa" ⟨9 / 10, 100, 0⟩) 86401 "0xa" :=
  (keptInSomeMode_iff (by decide) (by decide) rfl (by norm_num) (by decide)).mpr
    (.inr (by norm_num))

/-- At one half of the threshold a user is never kept again. -/
theorem not_keptInSomeMode_half :
    0 ≤ (⟨1 / 2, 100, 0⟩ : HealthFactor).value ∧ (0 : ℤ) + 86400 < 86401 ∧
      ¬ KeptInSomeMode ["0xa"] (userAt "0xa" ⟨1 / 2, 100, 0⟩) 86401 "0xa" := by
  refine ⟨by norm_num, by decide, ?_⟩
  rintro ⟨isSignal, trimmed, htrimmed, hmem⟩
  have hnone : usersTrimming id ["0xa"] (userAt "0xa" ⟨1 / 2, 100, 0⟩) 86401 isSignal
      = .ok [] := by
    cases isSignal <;> decide +kernel
  rw [hnone, Except.ok.injEq] at htrimmed
  rw [← htrimmed] at hmem
  cases hmem

/-! ## Successive samples -/

/-- As many samples as there are intervals reach around the list. -/
theorem le_sliceLength_mul (l : ℕ) {intervals : ℕ} (hpos : 0 < intervals) :
    l ≤ sliceLength l intervals * intervals := by
  have hdiv := Nat.div_add_mod (l + intervals - 1) intervals
  have hmod := Nat.mod_lt (l + intervals - 1) hpos
  rw [sliceLength, Nat.mul_comm]
  omega

/-- Some sample starts at the first user: `left` is zero, or it is reduced to zero. -/
def StartsRound (l intervals s : ℕ) : Prop :=
  ∃ i, (s ≤ i ∧ i < s + intervals) ∧
    l ∣ sliceLength l intervals * i ∧ sliceLength l intervals * i ≠ l

/-- A sample starts at the remainder of its product, unless the product is the number of users
itself. -/
theorem sliceStart_eq {l intervals index m r : ℕ} (hr : r < l)
    (hindex : sliceLength l intervals * index = l * m + r) (hm : m ≠ 1 ∨ 0 < r) :
    sliceStart l intervals index = r := by
  rw [sliceStart, hindex]
  rcases m with _ | m
  · rw [Nat.mul_zero, Nat.zero_add, if_neg (by omega)]
  · have hround : l * (m + 1) + r > l := by
      rw [Nat.mul_succ]
      rcases m with _ | m
      · omega
      · rw [Nat.mul_succ]
        omega
    rw [if_pos hround, Nat.mul_add_mod, Nat.mod_eq_of_lt hr]

/-- A sample that starts at place zero. -/
theorem sliceStart_eq_zero_iff {l intervals index : ℕ} (hl : 0 < l) :
    sliceStart l intervals index = 0 ↔
      l ∣ sliceLength l intervals * index ∧ sliceLength l intervals * index ≠ l := by
  constructor
  · intro hstart
    rw [sliceStart] at hstart
    by_cases hgt : sliceLength l intervals * index > l
    · rw [if_pos hgt] at hstart
      exact ⟨Nat.dvd_of_mod_eq_zero hstart, by omega⟩
    · rw [if_neg hgt] at hstart
      exact ⟨hstart ▸ Nat.dvd_zero l, by omega⟩
  · rintro ⟨⟨m, hm⟩, hne⟩
    refine sliceStart_eq hl (hm.trans (Nat.add_zero _).symm) (.inl ?_)
    rintro rfl
    exact hne (hm.trans (Nat.mul_one l))

/-- Behind an index that starts at zero, the sample that has a position. -/
theorem sampled_ahead {l intervals i m p : ℕ} (hlen : 0 < sliceLength l intervals)
    (hm : sliceLength l intervals * i = l * m) (hne : m ≠ 1) (hp : p < l) :
    sliceStart l intervals (i + p / sliceLength l intervals) ≤ p ∧
      p < sliceStart l intervals (i + p / sliceLength l intervals)
        + sliceLength l intervals := by
  have hdiv := Nat.div_add_mod p (sliceLength l intervals)
  have hmod := Nat.mod_lt p hlen
  have hstart : sliceStart l intervals (i + p / sliceLength l intervals)
      = sliceLength l intervals * (p / sliceLength l intervals) :=
    sliceStart_eq (by omega) (by rw [Nat.mul_add, hm]) (.inl hne)
  exact ⟨by omega, by omega⟩

/-- In front of it, the sample that has a position: it is `d` places before. -/
theorem sampled_behind {l intervals i m p d : ℕ} (hp : p < l)
    (hlarge : sliceLength l intervals ≤ p) (hm : sliceLength l intervals * i = l * m)
    (hlow : l - p ≤ sliceLength l intervals * d)
    (hhigh : sliceLength l intervals * d < l - p + sliceLength l intervals) (htwo : 2 ≤ m) :
    sliceStart l intervals (i - d) ≤ p ∧
      p < sliceStart l intervals (i - d) + sliceLength l intervals := by
  have hstart : sliceStart l intervals (i - d) = l - sliceLength l intervals * d := by
    refine sliceStart_eq (by omega) (m := m - 1) ?_ (.inr (by omega))
    have hsplit : l * m = l * (m - 1) + l := by
      rw [← Nat.mul_succ, Nat.succ_eq_add_one, Nat.sub_add_cancel (by omega)]
    rw [Nat.mul_sub, hm, hsplit]
    omega
  exact ⟨by omega, by omega⟩

/-- Counting on from a sample that starts at zero one comes to every place, and so one does counting
back, except for the first places. A round is long enough for one of the two. -/
theorem StartsRound.exists_sample {l intervals s : ℕ} (hpos : 0 < intervals)
    (h : StartsRound l intervals s) {p : ℕ} (hp : p < l) :
    ∃ i, (s ≤ i ∧ i < s + intervals) ∧ sliceStart l intervals i ≤ p ∧
      p < sliceStart l intervals i + sliceLength l intervals := by
  obtain ⟨i, ⟨hs, hi⟩, ⟨m, hm⟩, hne⟩ := h
  have hlen : 0 < sliceLength l intervals := sliceLength_pos (by omega) hpos
  have hround := le_sliceLength_mul l hpos
  have hm_one : m ≠ 1 := by
    rintro rfl
    exact hne (hm.trans (Nat.mul_one l))
  by_cases hon : i + p / sliceLength l intervals < s + intervals
  · exact ⟨_, ⟨hs.trans (Nat.le_add_right _ _), hon⟩, sampled_ahead hlen hm hm_one hp⟩
  · have hdiv := Nat.div_add_mod p (sliceLength l intervals)
    generalize hL : sliceLength l intervals = L at *
    generalize p / L = k at hdiv hon
    obtain ⟨d, hhigh, hlow⟩ : ∃ d, L * d < l - p + L ∧ l - p ≤ L * d := by
      have hdiv := Nat.div_add_mod (l - p + L - 1) L
      have hmod := Nat.mod_lt (l - p + L - 1) hlen
      exact ⟨(l - p + L - 1) / L, by omega, by omega⟩
    have hlarge : L ≤ p := by
      have hle : L * 1 ≤ L * k := Nat.mul_le_mul_left L (by omega)
      omega
    have hd : d + s ≤ i := by
      have hle : L * (s + intervals - i) ≤ L * k := Nat.mul_le_mul_left L (by omega)
      have hlt : L * (d + (s + intervals - i)) < L * (intervals + 1) := by
        rw [Nat.mul_add, Nat.mul_succ]
        omega
      have := Nat.lt_of_mul_lt_mul_left hlt
      omega
    have htwo : 2 ≤ m := by
      have hle : L * d ≤ L * i := Nat.mul_le_mul_left L (by omega)
      rcases m with _ | m
      · omega
      · omega
    subst hL
    exact ⟨i - d, ⟨by omega, by omega⟩,
      sampled_behind hp hlarge hm hlow hhigh htwo⟩

/-- **The samples of a round.** As many successive samples as there are intervals contain every user
iff one of them starts at the first user. -/
theorem sampled_from_iff {sta : States} {intervals : ℕ} (hpos : 0 < intervals) (s : ℕ) :
    (∀ u, u ∈ sta.usersStates.keys ↔
        ∃ i, (s ≤ i ∧ i < s + intervals) ∧ u ∈ sta.getUsersSampling i intervals)
      ↔ sta.usersStates.keys = [] ∨ StartsRound sta.usersStates.keys.length intervals s := by
  have hsub : ∀ i, ∀ u ∈ sta.getUsersSampling i intervals, u ∈ sta.usersStates.keys :=
    fun i u hu ↦ List.mem_of_mem_drop (List.mem_of_mem_take hu)
  constructor
  · intro h
    rcases Nat.eq_zero_or_pos sta.usersStates.keys.length with hzero | hl
    · exact .inl (List.length_eq_zero_iff.mp hzero)
    obtain ⟨i, hi, hmem⟩ := (h _).mp (List.getElem_mem hl)
    have hstart := ((mem_getUsersSampling hl i intervals).mp hmem).1
    exact .inr ⟨i, hi, (sliceStart_eq_zero_iff hl).mp (Nat.le_zero.mp hstart)⟩
  · rintro (hnil | hround) u
    · refine ⟨fun hu ↦ ?_, fun ⟨i, _, hu⟩ ↦ hsub i u hu⟩
      rw [hnil] at hu
      cases hu
    · refine ⟨fun hu ↦ ?_, fun ⟨i, _, hu⟩ ↦ hsub i u hu⟩
      obtain ⟨p, hp, rfl⟩ := List.getElem_of_mem hu
      obtain ⟨i, hi, hplace⟩ := hround.exists_sample hpos hp
      exact ⟨i, hi, (mem_getUsersSampling hp i intervals).mpr hplace⟩

theorem sampled_from_iff_three :
    (bareStates ["0xa", "0xb", "0xc"]).usersStates.keys = ["0xa", "0xb", "0xc"] ∧
    ∀ u, u ∈ (bareStates ["0xa", "0xb", "0xc"]).usersStates.keys ↔ ∃ i, (2 ≤ i ∧ i < 2 + 2) ∧
      u ∈ (bareStates ["0xa", "0xb", "0xc"]).getUsersSampling i 2 :=
  ⟨by decide, (sampled_from_iff (by decide) 2).mpr (.inr ⟨3, by decide⟩)⟩

/-- Of two users the first one is not in the samples one and two of two: the first of them starts
at the other user, and the second one behind it. -/
theorem not_sampled_from_one :
    ¬ ∀ u ∈ (bareStates ["0xa", "0xb"]).usersStates.keys, ∃ i, (1 ≤ i ∧ i < 1 + 2) ∧
      u ∈ (bareStates ["0xa", "0xb"]).getUsersSampling i 2 := by
  intro h
  obtain ⟨i, hi, hmem⟩ := h "0xa" (by decide)
  have hcases : i = 1 ∨ i = 2 := by omega
  rcases hcases with rfl | rfl
  · exact absurd hmem (by decide)
  · exact absurd hmem (by decide)

end CompoundLiquidation
