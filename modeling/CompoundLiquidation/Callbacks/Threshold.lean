import CompoundLiquidation.Callbacks.Health
import CompoundLiquidation.Python.Bisect
import CompoundLiquidation.Python.Loop
import Mathlib.Tactic.Linarith

/-!
# Users who fall below liquidation

When a price changes by `delta_max`, the health factors that may fall below the threshold of
liquidation are those below a threshold that is scaled the other way. There are two functions that
find these users in a list sorted by health factor, a scan and a binary search. The scan leaves the
list behind the first health factor above `1.01`, whatever the threshold is. The search narrows a
window to two neighbours and decides between three places for the end of the list.

Health factors are exact, and so are the threshold and the midpoints.
-/

namespace CompoundLiquidation

open Python

/-! ## The functions -/

section Program

/-- `calculate_health_factor_fake_inverse`. -/
def calculateHealthFactorFakeInverse (healthFactorAfter delta : ℚ) : Except Error ℚ :=
  let fDelta := if delta < 0 then 1 + delta else 1 / (1 + delta)
  if fDelta = 0 then .error .zeroDivisionError else .ok (healthFactorAfter / fDelta)

/-- `states.users_states[usr].health_factor.value`. -/
def cachedHealthFactor (sta : States) (usr : String) : Except Error ℚ := do
  let states ← sta.usersStates.item usr
  return states.healthFactor.value

/-- The loop of `find_hf_users_index_by_seq`. -/
def seqLoop (sta : States) (thres : ℚ) : List String → List String → Except Error (List String)
  | [], filteredUsers => .ok filteredUsers
  | usr :: users, filteredUsers => do
    let hf ← cachedHealthFactor sta usr
    let filteredUsers := if hf < thres then filteredUsers ++ [usr] else filteredUsers
    if hf > 101 / 100 then return filteredUsers
    else seqLoop sta thres users filteredUsers

/-- `find_hf_users_index_by_seq`. -/
def findHfUsersIndexBySeq (sta : States) (users : List String) (deltaMax : ℚ) :
    Except Error (List String) := do
  let thres ← calculateHealthFactorFakeInverse hfThreshold deltaMax
  seqLoop sta thres users []

/-- `states.users_states[sorted_users[index]].health_factor.value`. -/
def healthFactorAt (sta : States) (sortedUsers : List String) (index : ℤ) : Except Error ℚ := do
  let usr ← itemAt sortedUsers index
  cachedHealthFactor sta usr

/-- `left < right - 1`. -/
def wide (window : ℤ × ℤ) : Bool := decide (window.1 < window.2 - 1)

/-- The body of the `while` loop, on `left` and `right`. -/
def narrow (sta : States) (sortedUsers : List String) (thres : ℚ) :
    Proc (ℤ × ℤ) Error Unit := do
  let (left, right) ← Proc.read
  let index := roundHalfEven ((left + right : ℤ) / 2)
  let hf ← Proc.ofExcept (healthFactorAt sta sortedUsers index)
  if hf < thres then Proc.modify fun window ↦ (index, window.2)
  else Proc.modify fun window ↦ (window.1, index)

/-- What `find_hf_users_index_by_binary` does behind its loop. -/
def chooseIndex (sta : States) (sortedUsers : List String) (thres : ℚ) (window : ℤ × ℤ) :
    Except Error ℤ := do
  let hfRight ← healthFactorAt sta sortedUsers window.2
  let hfLeft ← healthFactorAt sta sortedUsers window.1
  if hfRight < thres then return window.2 + 1
  else if hfLeft > thres then return window.1
  else return window.1 + 1

/-- `find_hf_users_index_by_binary`, when its loop stops within so many tests. -/
def findHfUsersIndexByBinary (tests : ℕ) (sta : States) (sortedUsers : List String)
    (deltaMax : ℚ) : Option (Except Error ℤ) :=
  match calculateHealthFactorFakeInverse hfThreshold deltaMax with
  | .error e => some (.error e)
  | .ok thres =>
    (Proc.whileFor wide (narrow sta sortedUsers thres) tests (0, sortedUsers.length - 1)).map
      fun (out, window) ↦ out.bind fun _ ↦ chooseIndex sta sortedUsers thres window

/-- The outcome of `find_hf_users_index_by_binary`. -/
def IndexByBinary (sta : States) (sortedUsers : List String) (deltaMax : ℚ)
    (out : Except Error ℤ) : Prop :=
  ∃ tests, findHfUsersIndexByBinary tests sta sortedUsers deltaMax = some out

/-- Both functions find the same users. -/
def FindsSame (sta : States) (sortedUsers : List String) (deltaMax : ℚ) : Prop :=
  ∃ index, IndexByBinary sta sortedUsers deltaMax (.ok index) ∧
    findHfUsersIndexBySeq sta sortedUsers deltaMax = .ok (sliceTo sortedUsers index)

end Program

/-! ## The threshold -/

/-- The threshold of liquidation, scaled by the change of the price to the side that matters. -/
def scaledThreshold (delta : ℚ) : ℚ := max (1 + delta) (1 / (1 + delta))

theorem calculateHealthFactorFakeInverse_eq {delta : ℚ} (h : -1 < delta) :
    calculateHealthFactorFakeInverse hfThreshold delta = .ok (scaledThreshold delta) := by
  have hpos : 0 < 1 + delta := by linarith
  rw [calculateHealthFactorFakeInverse, scaledThreshold, hfThreshold]
  by_cases hneg : delta < 0
  · have hle : 1 + delta ≤ 1 / (1 + delta) := by
      rw [le_div_iff₀ hpos]
      nlinarith
    simp only [if_pos hneg, if_neg hpos.ne', max_eq_right hle]
  · have hle : 1 / (1 + delta) ≤ 1 + delta := by
      rw [div_le_iff₀ hpos]
      nlinarith
    simp only [if_neg hneg, if_neg (one_div_pos.mpr hpos).ne', max_eq_left hle, one_div_one_div]

/-! ## The list by health factor -/

/-- Users of the states in ascending order of their cached health factors. -/
structure AscendingUsers (sta : States) (users : List String) : Prop where
  known : ∀ usr ∈ users, usr ∈ sta.usersStates.keys
  sorted : sta.Ascending users

/-- A user below a threshold. -/
def below (sta : States) (thres : ℚ) (usr : String) : Bool := decide (sta.cachedHf usr < thres)

/-- A user up to whom the scan goes on. -/
def upToCutOff (sta : States) (usr : String) : Bool := decide (sta.cachedHf usr ≤ 101 / 100)

section Sorted

variable {sta : States} {users : List String} {thres : ℚ}

theorem cachedHealthFactor_eq {usr : String} (h : usr ∈ sta.usersStates.keys) :
    cachedHealthFactor sta usr = .ok (sta.cachedHf usr) := by
  obtain ⟨states, hstates⟩ := Dict.mem_keys_iff.mp h
  rw [cachedHealthFactor, Dict.item, hstates, States.cachedHf_of_get? hstates]
  rfl

namespace AscendingUsers

theorem tail {usr : String} (h : AscendingUsers sta (usr :: users)) : AscendingUsers sta users :=
  ⟨fun u hu ↦ h.known u (List.mem_cons_of_mem usr hu), (List.pairwise_cons.mp h.sorted).2⟩

theorem leadsWith_below (h : AscendingUsers sta users) (thres : ℚ) :
    LeadsWith (below sta thres) users :=
  h.sorted.imp fun hle hlt ↦ decide_eq_true (hle.trans_lt (of_decide_eq_true hlt))

theorem leadsWith_upToCutOff (h : AscendingUsers sta users) :
    LeadsWith (upToCutOff sta) users :=
  h.sorted.imp fun hle hup ↦ decide_eq_true (hle.trans (of_decide_eq_true hup))

/-- **The scan.** It finds the users below the threshold, but at most one behind the cut-off. -/
theorem seqLoop_eq (h : AscendingUsers sta users) (thres : ℚ) : ∀ filteredUsers,
    seqLoop sta thres users filteredUsers = .ok (filteredUsers ++ users.take
      (min (users.countP (below sta thres)) (users.countP (upToCutOff sta) + 1))) := by
  induction users with
  | nil =>
    intro filteredUsers
    rw [seqLoop, List.take_nil, List.append_nil]
  | cons usr users ih =>
    intro filteredUsers
    have hbelow := (h.leadsWith_below thres).countP_cons
    have hupTo := h.leadsWith_upToCutOff.countP_cons
    rw [seqLoop, cachedHealthFactor_eq (h.known usr List.mem_cons_self), ok_bind, hbelow, hupTo]
    simp only [below, upToCutOff, decide_eq_true_eq]
    by_cases hlt : sta.cachedHf usr < thres
    · by_cases hcut : sta.cachedHf usr ≤ 101 / 100
      · rw [if_pos hlt, if_pos hlt, if_pos hcut, if_neg (not_lt.mpr hcut), ih h.tail,
          Nat.add_min_add_right, List.take_succ_cons, List.append_assoc, List.singleton_append]
      · rw [if_pos hlt, if_pos hlt, if_neg hcut, if_pos (not_le.mp hcut),
          min_eq_right (Nat.succ_le_succ (Nat.zero_le _)), List.take_succ_cons, List.take_zero]
        rfl
    · -- nobody from here on is below the threshold
      have hnone := (h.leadsWith_below thres).countP_tail (decide_eq_false hlt)
      rw [if_neg hlt, if_neg hlt, Nat.zero_min, List.take_zero, List.append_nil]
      by_cases hcut : sta.cachedHf usr ≤ 101 / 100
      · rw [if_neg (not_lt.mpr hcut), ih h.tail, hnone, Nat.zero_min, List.take_zero,
          List.append_nil]
      · rw [if_pos (not_le.mp hcut)]
        rfl

theorem findHfUsersIndexBySeq_eq (h : AscendingUsers sta users) {deltaMax : ℚ}
    (hdelta : -1 < deltaMax) :
    findHfUsersIndexBySeq sta users deltaMax = .ok (users.take
      (min (users.countP (below sta (scaledThreshold deltaMax)))
        (users.countP (upToCutOff sta) + 1))) := by
  rw [findHfUsersIndexBySeq, calculateHealthFactorFakeInverse_eq hdelta, ok_bind, h.seqLoop_eq,
    List.nil_append]

/-- What the search reads at an index. -/
theorem healthFactorAt_eq (h : AscendingUsers sta users) (thres : ℚ) {index : ℤ}
    (hzero : 0 ≤ index) (hlt : index < users.length) :
    ∃ usr, users[index.toNat]? = some usr ∧
      healthFactorAt sta users index = .ok (sta.cachedHf usr) ∧
      (sta.cachedHf usr < thres ↔ index < users.countP (below sta thres)) := by
  lift index to ℕ using hzero
  have hindex : index < users.length := by exact_mod_cast hlt
  refine ⟨users[index], List.getElem?_eq_getElem hindex, ?_, ?_⟩
  · rw [healthFactorAt, itemAt_natCast hindex, ok_bind,
      cachedHealthFactor_eq (h.known _ (List.getElem_mem hindex))]
  · rw [Int.ofNat_lt, ← (h.leadsWith_below thres).getElem_iff hindex, below, decide_eq_true_eq]

end AscendingUsers

end Sorted

/-! ## The search -/

/-- The window of the search, where so many users are below the threshold: everything left of it is
below and everything right of it is not. -/
structure Window (count length : ℕ) (window : ℤ × ℤ) : Prop where
  left_nonneg : 0 ≤ window.1
  left_le : window.1 ≤ window.2
  right_lt : window.2 < length
  left_below : window.1 = 0 ∨ window.1 < count
  right_not_below : window.2 = length - 1 ∨ count ≤ window.2

section Search

variable {sta : States} {users : List String} {thres : ℚ}

/-- The whole list. -/
theorem Window.init {count length : ℕ} (h : 0 < length) :
    Window count length (0, (length : ℤ) - 1) where
  left_nonneg := le_rfl
  left_le := by
    show (0 : ℤ) ≤ length - 1
    omega
  right_lt := by
    show (length : ℤ) - 1 < length
    omega
  left_below := .inl rfl
  right_not_below := .inl rfl

/-- One round: the midpoint replaces the end on its side. -/
theorem run_narrow (left right : ℤ) {hf : ℚ}
    (hread : healthFactorAt sta users (roundHalfEven ((left + right : ℤ) / 2)) = .ok hf) :
    (narrow sta users thres).run (left, right)
      = (.ok (), if hf < thres then (roundHalfEven ((left + right : ℤ) / 2), right)
        else (left, roundHalfEven ((left + right : ℤ) / 2))) := by
  rw [narrow, Proc.run_bind, Proc.run_read]
  simp only [Proc.run_bind, Proc.run_ofExcept, hread]
  by_cases hlt : hf < thres
  · rw [if_pos hlt, if_pos hlt]
    rfl
  · rw [if_neg hlt, if_neg hlt]
    rfl

/-- Every round makes the window smaller. -/
theorem narrow_decreases {window window' : ℤ × ℤ} (hwide : wide window = true)
    (hrun : (narrow sta users thres).run window = (.ok (), window')) :
    (window'.2 - window'.1).toNat < (window.2 - window.1).toNat := by
  obtain ⟨left, right⟩ := window
  obtain ⟨hleft, hright⟩ := @roundHalfEven_midpoint left right (of_decide_eq_true hwide)
  rcases hread : healthFactorAt sta users (roundHalfEven ((left + right : ℤ) / 2)) with e | hf
  · rw [narrow, Proc.run_bind, Proc.run_read] at hrun
    simp only [Proc.run_bind, Proc.run_ofExcept, hread] at hrun
    cases hrun
  · rw [run_narrow left right hread] at hrun
    obtain ⟨-, rfl⟩ := Prod.mk.inj hrun
    by_cases hlt : hf < thres
    · rw [if_pos hlt]
      show (right - roundHalfEven ((left + right : ℤ) / 2)).toNat < (right - left).toNat
      omega
    · rw [if_neg hlt]
      show (roundHalfEven ((left + right : ℤ) / 2) - left).toNat < (right - left).toNat
      omega

/-- Inside of a window a round does not raise. -/
theorem Window.read (h : AscendingUsers sta users) {left right : ℤ}
    (hwindow : Window (users.countP (below sta thres)) users.length (left, right))
    (hwide : wide (left, right) = true) :
    ∃ hf, healthFactorAt sta users (roundHalfEven ((left + right : ℤ) / 2)) = .ok hf ∧
      (hf < thres ↔
        roundHalfEven ((left + right : ℤ) / 2) < users.countP (below sta thres)) := by
  obtain ⟨hleft, hright⟩ := @roundHalfEven_midpoint left right (of_decide_eq_true hwide)
  have hzero : 0 ≤ left := hwindow.left_nonneg
  have hlength : right < users.length := hwindow.right_lt
  obtain ⟨usr, -, hread, hbelow⟩ := @AscendingUsers.healthFactorAt_eq sta users h thres
    (roundHalfEven ((left + right : ℤ) / 2)) (by omega) (by omega)
  exact ⟨sta.cachedHf usr, hread, hbelow⟩

/-- A round keeps the window. -/
theorem Window.step (h : AscendingUsers sta users) {window window' : ℤ × ℤ}
    (hwindow : Window (users.countP (below sta thres)) users.length window)
    (hwide : wide window = true)
    (hrun : (narrow sta users thres).run window = (.ok (), window')) :
    Window (users.countP (below sta thres)) users.length window' := by
  obtain ⟨left, right⟩ := window
  obtain ⟨hf, hread, hbelow⟩ := hwindow.read h hwide
  obtain ⟨hleft, hright⟩ := @roundHalfEven_midpoint left right (of_decide_eq_true hwide)
  rw [run_narrow left right hread] at hrun
  obtain ⟨-, rfl⟩ := Prod.mk.inj hrun
  obtain ⟨hzero, hle, hlength, hfront, hback⟩ := hwindow
  by_cases hlt : hf < thres
  · rw [if_pos hlt]
    exact ⟨by omega, by omega, hlength, .inr (hbelow.mp hlt), hback⟩
  · rw [if_neg hlt]
    exact ⟨hzero, by omega, by omega, hfront, .inr (not_lt.mp fun hlt' ↦ hlt (hbelow.mpr hlt'))⟩

/-- The loop stops, and leaves a window of at most two. -/
theorem stops_narrow (h : AscendingUsers sta users) (hne : users ≠ []) (thres : ℚ) :
    ∃ window, Window (users.countP (below sta thres)) users.length window ∧
      window.2 ≤ window.1 + 1 ∧
      Proc.Stops wide (narrow sta users thres) (0, (users.length : ℤ) - 1) (.ok (), window) := by
  obtain ⟨⟨out, window⟩, hstops⟩ := Proc.exists_stops (fun window ↦ (window.2 - window.1).toNat)
    (fun _ _ ↦ @narrow_decreases sta users thres _ _) (0, (users.length : ℤ) - 1)
  rcases hstops.invariant (fun _ _ hwindow ↦ hwindow.step h)
    (Window.init (List.length_pos_iff.mpr hne)) with
    ⟨hok, hwindow, hnarrow⟩ | ⟨e, ⟨left, right⟩, herror, hwindow, hwide, hrun⟩
  · refine ⟨window, hwindow, ?_, ?_⟩
    · have hnot : ¬ window.1 < window.2 - 1 := of_decide_eq_false hnarrow
      omega
    · rw [show out = .ok () from hok] at hstops
      exact hstops
  · obtain ⟨hf, hread, -⟩ := hwindow.read h hwide
    rw [run_narrow left right hread] at hrun
    rw [← hrun] at herror
    cases herror

/-- **The choice at the end.** It is the number of users below the threshold, unless the first user
is at the threshold: then it is one, and the number is zero. -/
theorem chooseIndex_eq {first : String} (h : AscendingUsers sta users)
    (hfirst : users.head? = some first) {window : ℤ × ℤ}
    (hwindow : Window (users.countP (below sta thres)) users.length window)
    (hnarrow : window.2 ≤ window.1 + 1) :
    chooseIndex sta users thres window
      = .ok (if sta.cachedHf first = thres then 1 else users.countP (below sta thres)) := by
  obtain ⟨left, right⟩ := window
  obtain ⟨hzero, hle, hlength, hfront, hback⟩ := hwindow
  have hcount : users.countP (below sta thres) ≤ users.length := List.countP_le_length
  obtain ⟨usrRight, -, hreadRight, hbelowRight⟩ :=
    h.healthFactorAt_eq thres (hzero.trans hle) hlength
  obtain ⟨usrLeft, hleft, hreadLeft, hbelowLeft⟩ :=
    h.healthFactorAt_eq thres hzero (lt_of_le_of_lt hle hlength)
  have hfirstBelow : sta.cachedHf first < thres ↔ 0 < users.countP (below sta thres) := by
    obtain ⟨usr, husr, -, hbelow⟩ := h.healthFactorAt_eq thres le_rfl
      (lt_of_le_of_lt (hzero.trans hle) hlength)
    rw [Int.toNat_zero, ← List.head?_eq_getElem?, hfirst] at husr
    rw [Option.some.inj husr, hbelow, Int.natCast_pos]
  -- a left end that is not below the threshold is the first user
  have hleftFirst : ¬ sta.cachedHf usrLeft < thres → left = 0 ∧ usrLeft = first := by
    intro hnot
    have hlow : left = 0 := hfront.resolve_right fun hlt ↦ hnot (hbelowLeft.mpr hlt)
    subst hlow
    rw [Int.toNat_zero, ← List.head?_eq_getElem?, hfirst] at hleft
    exact ⟨rfl, (Option.some.inj hleft).symm⟩
  rw [chooseIndex, hreadRight, ok_bind, hreadLeft, ok_bind]
  by_cases hright : sta.cachedHf usrRight < thres
  · have hlt : right < users.countP (below sta thres) := hbelowRight.mp hright
    have hne : sta.cachedHf first ≠ thres := (hfirstBelow.mpr (by omega)).ne
    rw [if_pos hright, if_neg hne]
    exact congrArg Except.ok (by omega)
  by_cases habove : sta.cachedHf usrLeft > thres
  · obtain ⟨rfl, rfl⟩ := hleftFirst (not_lt.mpr habove.le)
    have hnone : ¬ 0 < users.countP (below sta thres) := fun hpos ↦
      not_lt.mpr habove.le (hfirstBelow.mpr hpos)
    rw [if_neg hright, if_pos habove, if_neg habove.ne']
    exact congrArg Except.ok (by omega)
  rw [if_neg hright, if_neg habove]
  by_cases hlt : sta.cachedHf usrLeft < thres
  · have hleftCount : left < users.countP (below sta thres) := hbelowLeft.mp hlt
    have hrightCount : users.countP (below sta thres) ≤ right :=
      not_lt.mp fun hcount ↦ hright (hbelowRight.mpr hcount)
    have hne : sta.cachedHf first ≠ thres := (hfirstBelow.mpr (by omega)).ne
    rw [if_neg hne]
    exact congrArg Except.ok (by omega)
  · obtain ⟨rfl, rfl⟩ := hleftFirst hlt
    rw [if_pos (le_antisymm (not_lt.mp habove) (not_lt.mp hlt))]
    rfl

end Search

/-! ## The two functions -/

section FindsSame

variable {sta : States} {users : List String} {deltaMax : ℚ}

/-- The search in a list that is not empty has one outcome. -/
theorem indexByBinary_iff {first : String} (h : AscendingUsers sta users)
    (hfirst : users.head? = some first) (hdelta : -1 < deltaMax) {out : Except Error ℤ} :
    IndexByBinary sta users deltaMax out ↔
      out = .ok (if sta.cachedHf first = scaledThreshold deltaMax then 1
        else users.countP (below sta (scaledThreshold deltaMax))) := by
  have hne : users ≠ [] := by
    rintro rfl
    cases hfirst
  obtain ⟨window, hwindow, hnarrow, hstops⟩ := stops_narrow h hne (scaledThreshold deltaMax)
  have hchoose := chooseIndex_eq h hfirst hwindow hnarrow
  rw [← hchoose]
  simp only [IndexByBinary, findHfUsersIndexByBinary, calculateHealthFactorFakeInverse_eq hdelta,
    Option.map_eq_some_iff]
  constructor
  · rintro ⟨tests, outcome, houtcome, rfl⟩
    rw [Proc.Stops.unique ⟨tests, houtcome⟩ hstops]
    rfl
  · rintro rfl
    obtain ⟨tests, htests⟩ := hstops
    exact ⟨tests, _, htests, rfl⟩

/-- In the empty list there is nothing at the right end. -/
theorem not_indexByBinary_nil (hdelta : -1 < deltaMax) (index : ℤ) :
    ¬ IndexByBinary sta [] deltaMax (.ok index) := by
  rintro ⟨tests, htests⟩
  simp only [findHfUsersIndexByBinary, calculateHealthFactorFakeInverse_eq hdelta] at htests
  rcases tests with _ | tests
  · cases htests
  · rw [Proc.whileFor_of_not (by rfl), Option.map_some, Option.some_inj] at htests
    cases htests

/-- The number of users between the cut-off and the threshold. -/
theorem AscendingUsers.countP_between (h : AscendingUsers sta users) (thres : ℚ) :
    users.countP (fun usr ↦ decide (101 / 100 < sta.cachedHf usr ∧ sta.cachedHf usr < thres))
      = users.countP (below sta thres) - users.countP (upToCutOff sta) := by
  rw [← (h.leadsWith_below thres).countP_and_not h.leadsWith_upToCutOff]
  refine List.countP_congr fun usr _ ↦ ?_
  simp only [below, upToCutOff, decide_eq_true_eq, Bool.and_eq_true, Bool.not_eq_true',
    decide_eq_false_iff_not, not_le]
  exact and_comm

/-- **When the search agrees with the scan.** The list has a first user who is not at the threshold,
and at most one user is behind the cut-off of the scan and still below the threshold. -/
theorem findsSame_iff (h : AscendingUsers sta users) (hdelta : -1 < deltaMax) :
    FindsSame sta users deltaMax ↔
      (∃ first, users.head? = some first ∧ sta.cachedHf first ≠ scaledThreshold deltaMax) ∧
        users.countP (fun usr ↦ decide
          (101 / 100 < sta.cachedHf usr ∧ sta.cachedHf usr < scaledThreshold deltaMax)) ≤ 1 := by
  rcases hfirst : users.head? with _ | first
  · rw [List.head?_eq_none_iff] at hfirst
    subst hfirst
    refine iff_of_false (fun ⟨index, hindex, _⟩ ↦ not_indexByBinary_nil hdelta index hindex) ?_
    rintro ⟨⟨first, hfirst, -⟩, -⟩
    cases hfirst
  have hcount : users.countP (below sta (scaledThreshold deltaMax)) ≤ users.length :=
    List.countP_le_length
  have hpos : 0 < users.length := by
    rcases users with _ | ⟨u, users⟩
    · cases hfirst
    · exact Nat.succ_pos _
  rw [h.countP_between, FindsSame]
  simp only [indexByBinary_iff h hfirst hdelta, h.findHfUsersIndexBySeq_eq hdelta,
    Except.ok.injEq, exists_eq_left, Option.some_inj, exists_eq_left']
  by_cases htie : sta.cachedHf first = scaledThreshold deltaMax
  · -- the search takes the first user along
    rw [if_pos htie]
    refine iff_of_false (fun htake ↦ ?_) (fun hne ↦ hne.1 htie)
    have hnone : users.countP (below sta (scaledThreshold deltaMax)) = 0 := by
      rcases users with _ | ⟨u, users⟩
      · cases hfirst
      · obtain rfl := Option.some.inj hfirst
        rw [(h.leadsWith_below _).countP_cons, below, if_neg]
        rw [decide_eq_true_eq]
        exact htie.not_lt
    rw [hnone, Nat.zero_min, List.take_zero, show (1 : ℤ) = (1 : ℕ) from rfl, sliceTo_natCast,
      eq_comm, List.take_eq_nil_iff] at htake
    rcases htake with h1 | hnil
    · cases h1
    · rw [hnil] at hpos
      exact Nat.lt_irrefl 0 hpos
  · rw [if_neg htie, sliceTo_natCast, List.take_eq_take_iff, and_iff_right htie]
    omega

end FindsSame

/-- Three users around the threshold. -/
def usersAroundThreshold : States :=
  States.new ((((∅ : Dict String UserStates).set "0xa" ⟨∅, ⟨9 / 10, 0, 0⟩, 0⟩).set "0xb"
    ⟨∅, ⟨1, 0, 0⟩, 0⟩).set "0xc" ⟨∅, ⟨2, 0, 0⟩, 0⟩) ∅ 0 ""

/-- A tenth more debt reaches the first two. -/
theorem findsSame_aroundThreshold :
    FindsSame usersAroundThreshold ["0xa", "0xb", "0xc"] (1 / 10) :=
  (findsSame_iff ⟨by decide +kernel, by decide +kernel⟩ (by norm_num)).mpr
    ⟨⟨"0xa", rfl, by decide +kernel⟩, by decide +kernel⟩

/-- Without users the scan finds nobody, and the search raises. -/
theorem not_findsSame_nil : AscendingUsers usersAroundThreshold [] ∧
    ¬ FindsSame usersAroundThreshold [] (1 / 10) := by
  refine ⟨⟨fun usr h ↦ absurd h List.not_mem_nil, List.Pairwise.nil⟩, ?_⟩
  rintro ⟨index, hindex, -⟩
  exact not_indexByBinary_nil (by norm_num) index hindex

example : findHfUsersIndexByBinary 4 usersAroundThreshold ["0xa", "0xb", "0xc"] (1 / 10)
    = some (.ok 2) := by
  decide +kernel

/-- The first user is taken along at the threshold. -/
example : findHfUsersIndexByBinary 4 usersAroundThreshold ["0xb", "0xc"] 0 = some (.ok 1) ∧
    findHfUsersIndexBySeq usersAroundThreshold ["0xb", "0xc"] 0 = .ok [] := by
  decide +kernel

end CompoundLiquidation
