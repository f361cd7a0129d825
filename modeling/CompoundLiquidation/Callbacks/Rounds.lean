import CompoundLiquidation.Callbacks.Idle
import Mathlib.Tactic.Ring

/-!
# The rounds of the users

Ten successive blocks of the first kind refresh ten slices of the users. A slice starts at the
block number times the slice length, reduced modulo the number of users `l`, and ends with the list
at the latest. So the slices are arcs of a circle of `l` places, cut where the list ends.

Cutting an arc loses the part of it in front of place zero. Whenever some slice starts at zero it
covers this part, and the position of the circle does not matter any more: whether ten slices cover
all users then depends on `l` and the step between blocks alone. Without such a slice the first user
is missed. What remains is to say for which `l` ten arcs cover the circle, and these are finitely
many for each network, because the steps are nearly a multiple of the circle when `l` is large.
-/

namespace CompoundLiquidation

open Python

/-! ## Slices -/

/-- `math.ceil(l / intervals)`. -/
def sliceLength (l intervals : ℕ) : ℕ := (l + intervals - 1) / intervals

/-- The place a slice starts at. -/
def sliceStart (l intervals index : ℕ) : ℕ :=
  if sliceLength l intervals * index > l then sliceLength l intervals * index % l
  else sliceLength l intervals * index

theorem sliceLength_pos {l intervals : ℕ} (hl : 0 < l) (hpos : 0 < intervals) :
    0 < sliceLength l intervals :=
  Nat.div_pos (by omega) hpos

theorem getElem_mem_slice_iff {α : Type*} {xs : List α} (hnd : xs.Nodup) {a b p : ℕ}
    (hp : p < xs.length) : xs[p] ∈ slice xs a b ↔ a ≤ p ∧ p < b := by
  rw [slice, List.mem_take_iff_getElem]
  constructor
  · rintro ⟨i, hi, heq⟩
    rw [List.getElem_drop, hnd.getElem_inj_iff] at heq
    rw [List.length_drop] at hi
    omega
  · rintro ⟨ha, hb⟩
    refine ⟨p - a, ?_, ?_⟩
    · rw [List.length_drop]
      omega
    · rw [List.getElem_drop]
      congr 1
      omega

/-- The users of a slice. -/
theorem mem_getUsersSampling {sta : States} {p : ℕ} (hp : p < sta.usersStates.keys.length)
    (index intervals : ℕ) : sta.usersStates.keys[p] ∈ sta.getUsersSampling index intervals ↔
      sliceStart sta.usersStates.keys.length intervals index ≤ p ∧
      p < sliceStart sta.usersStates.keys.length intervals index
        + sliceLength sta.usersStates.keys.length intervals := by
  have hslice : sta.getUsersSampling index intervals = slice sta.usersStates.keys
      (sliceStart sta.usersStates.keys.length intervals index)
      (if sliceStart sta.usersStates.keys.length intervals index
          + sliceLength sta.usersStates.keys.length intervals
            > sta.usersStates.keys.length then
        sta.usersStates.keys.length
      else sliceStart sta.usersStates.keys.length intervals index
        + sliceLength sta.usersStates.keys.length intervals) := rfl
  rw [hslice, getElem_mem_slice_iff sta.usersStates.nodup_keys' hp]
  split_ifs
  · omega
  · omega

/-! ## The circle -/

/-- How far place `q` of the circle lies behind the start of slice `j`. -/
def ahead (num l j q : ℕ) : ℕ := (q + (l - 1) * (sliceLength l 10 * num * j)) % l

/-- Some slice meets place `q`. -/
def Meets (num l q : ℕ) : Prop := ∃ j < 10, ahead num l j q < sliceLength l 10

instance (num l q : ℕ) : Decidable (Meets num l q) :=
  inferInstanceAs (Decidable (∃ j, j < 10 ∧ _))

private theorem sub_one_mul_add {l : ℕ} (hl : 0 < l) (x : ℕ) : (l - 1) * x + x = l * x := by
  obtain ⟨n, rfl⟩ := Nat.exists_eq_add_of_lt hl
  rw [Nat.zero_add, Nat.add_sub_cancel]
  ring

theorem ahead_modEq {l : ℕ} (hl : 0 < l) (num j q : ℕ) :
    ahead num l j q + sliceLength l 10 * num * j ≡ q [MOD l] := by
  have hround : q + (l - 1) * (sliceLength l 10 * num * j) + sliceLength l 10 * num * j
      = q + l * (sliceLength l 10 * num * j) := by
    rw [Nat.add_assoc, sub_one_mul_add hl]
  calc ahead num l j q + sliceLength l 10 * num * j
      ≡ q + (l - 1) * (sliceLength l 10 * num * j) + sliceLength l 10 * num * j [MOD l] :=
        (Nat.mod_modEq _ l).add_right _
    _ ≡ q [MOD l] := by
        rw [hround, Nat.ModEq, Nat.add_mul_mod_self_left]

theorem ahead_eq_of_modEq {num l j q d : ℕ} (hd : d < l)
    (h : d + sliceLength l 10 * num * j ≡ q [MOD l]) : ahead num l j q = d := by
  have hl : 0 < l := Nat.zero_lt_of_lt hd
  have hcancel : ahead num l j q ≡ d [MOD l] :=
    Nat.ModEq.add_right_cancel' _ ((ahead_modEq hl num j q).trans h.symm)
  rwa [Nat.ModEq, Nat.mod_eq_of_lt hd, ahead, Nat.mod_mod, ← ahead] at hcancel

theorem ahead_lt {l : ℕ} (hl : 0 < l) (num j q : ℕ) : ahead num l j q < l := Nat.mod_lt _ hl

theorem sliceLength_le {l : ℕ} (hl : 0 < l) : sliceLength l 10 ≤ l := by
  rw [sliceLength]
  omega

theorem Meets.congr {num l q q' : ℕ} (hl : 0 < l) (h : Meets num l q) (hq : q ≡ q' [MOD l]) :
    Meets num l q' := by
  obtain ⟨j, hj, hahead⟩ := h
  refine ⟨j, hj, ?_⟩
  rwa [ahead_eq_of_modEq (ahead_lt hl num j q) ((ahead_modEq hl num j q).trans hq)]

/-- The place behind slice `i`. -/
def endOf (num l i : ℕ) : ℕ := sliceLength l 10 * num * i + sliceLength l 10

/-- Every place is met as soon as the places behind the slices are. -/
theorem meets_of_meets_endOf {num l : ℕ} (hl : 0 < l) (h : ∀ i < 10, Meets num l (endOf num l i))
    (q : ℕ) : Meets num l q := by
  induction q with
  | zero =>
    refine ⟨0, by decide, ?_⟩
    rw [ahead_eq_of_modEq hl (by rw [Nat.mul_zero])]
    exact sliceLength_pos hl (by decide)
  | succ q ih =>
    obtain ⟨j, hj, hahead⟩ := ih
    have hq : ahead num l j q + 1 + sliceLength l 10 * num * j ≡ q + 1 [MOD l] := by
      rw [Nat.add_right_comm]
      exact (ahead_modEq hl num j q).add_right 1
    by_cases hlast : ahead num l j q + 1 < sliceLength l 10
    · refine ⟨j, hj, ?_⟩
      rwa [ahead_eq_of_modEq (hlast.trans_le (sliceLength_le hl)) hq]
    · -- the next place is the one behind slice `j`
      have hend : endOf num l j = ahead num l j q + 1 + sliceLength l 10 * num * j := by
        rw [endOf]
        omega
      exact (h j hj).congr hl (hend ▸ hq)

/-! ## From the list to the circle -/

/-- Ten successive slices of `l` places cover them all. -/
def Sampled (num l b : ℕ) : Prop :=
  ∀ p < l, ∃ j < 10, sliceStart l 10 (b + num * j) ≤ p ∧
    p < sliceStart l 10 (b + num * j) + sliceLength l 10

/-- Slice `j` starts at zero. -/
def StartsAtZero (num l b j : ℕ) : Prop :=
  l ∣ sliceLength l 10 * (b + num * j) ∧ l < sliceLength l 10 * (b + num * j)

instance (num l b j : ℕ) : Decidable (StartsAtZero num l b j) :=
  inferInstanceAs (Decidable (_ ∧ _))

theorem StartsAtZero.sliceStart_eq {num l b j : ℕ} (h : StartsAtZero num l b j) :
    sliceStart l 10 (b + num * j) = 0 := by
  rw [sliceStart, if_pos h.2, Nat.mod_eq_zero_of_dvd h.1]

/-- A slice with a place in the list starts where the circle says. -/
theorem sliceStart_of_lt {l index : ℕ} (h : sliceStart l 10 index < l) :
    sliceStart l 10 index = sliceLength l 10 * index % l := by
  rw [sliceStart] at h ⊢
  by_cases hgt : sliceLength l 10 * index > l
  · rw [if_pos hgt]
  · rw [if_neg hgt] at h ⊢
    exact (Nat.mod_eq_of_lt h).symm

theorem sliceStart_of_ne {l index : ℕ} (h : sliceLength l 10 * index ≠ l) :
    sliceStart l 10 index = sliceLength l 10 * index % l := by
  rw [sliceStart]
  by_cases hgt : sliceLength l 10 * index > l
  · rw [if_pos hgt]
  · rw [if_neg hgt, Nat.mod_eq_of_lt (by omega)]

/-- The first user is only met by a slice that starts at zero. -/
theorem Sampled.startsAtZero {num l b : ℕ} (hl : 0 < l) (hb : 0 < b) (h : Sampled num l b) :
    ∃ j < 10, StartsAtZero num l b j := by
  obtain ⟨j, hj, hstart, -⟩ := h 0 hl
  have hpos : 0 < sliceLength l 10 * (b + num * j) :=
    Nat.mul_pos (sliceLength_pos hl (by decide)) (Nat.add_pos_left hb _)
  refine ⟨j, hj, ?_⟩
  rw [sliceStart] at hstart
  by_cases hgt : sliceLength l 10 * (b + num * j) > l
  · rw [if_pos hgt, Nat.le_zero] at hstart
    exact ⟨Nat.dvd_of_mod_eq_zero hstart, hgt⟩
  · rw [if_neg hgt] at hstart
    omega

/-- Where slices cover the list they cover the circle. -/
theorem Sampled.meets {num l b : ℕ} (hl : 0 < l) (h : Sampled num l b) (q : ℕ) :
    Meets num l q := by
  have hp : (q + sliceLength l 10 * b) % l < l := Nat.mod_lt _ hl
  obtain ⟨j, hj, hstart, hend⟩ := h _ hp
  refine ⟨j, hj, ?_⟩
  have hmod := sliceStart_of_lt (hstart.trans_lt hp)
  obtain ⟨d, hd⟩ := Nat.exists_eq_add_of_le hstart
  have hcongr : d + sliceLength l 10 * num * j + sliceLength l 10 * b
      ≡ q + sliceLength l 10 * b [MOD l] := by
    calc d + sliceLength l 10 * num * j + sliceLength l 10 * b
        = sliceLength l 10 * (b + num * j) + d := by ring
      _ ≡ sliceStart l 10 (b + num * j) + d [MOD l] := by
          rw [hmod]
          exact (Nat.mod_modEq _ l).symm.add_right d
      _ = (q + sliceLength l 10 * b) % l := hd.symm
      _ ≡ q + sliceLength l 10 * b [MOD l] := Nat.mod_modEq _ l
  rw [ahead_eq_of_modEq (by omega) (Nat.ModEq.add_right_cancel' _ hcongr)]
  omega

/-- Where slices cover the circle and one of them starts at zero they cover the list. -/
theorem sampled_of_meets {num l b j₀ : ℕ} (hl : 0 < l) (hj₀ : j₀ < 10)
    (hzero : StartsAtZero num l b j₀) (h : ∀ q, Meets num l q) : Sampled num l b := by
  intro p hp
  have hfirst : p < sliceLength l 10 → ∃ j < 10, sliceStart l 10 (b + num * j) ≤ p ∧
      p < sliceStart l 10 (b + num * j) + sliceLength l 10 := by
    intro hlt
    refine ⟨j₀, hj₀, ?_⟩
    rw [hzero.sliceStart_eq, Nat.zero_add]
    exact ⟨Nat.zero_le p, hlt⟩
  -- the place of the circle that lies over `p`
  obtain ⟨j, hj, hahead⟩ := h (p + (l - 1) * (sliceLength l 10 * b))
  have hsum : ahead num l j (p + (l - 1) * (sliceLength l 10 * b))
      + sliceLength l 10 * (b + num * j) % l ≡ p [MOD l] := by
    calc ahead num l j (p + (l - 1) * (sliceLength l 10 * b)) + sliceLength l 10 * (b + num * j) % l
        ≡ ahead num l j (p + (l - 1) * (sliceLength l 10 * b)) + sliceLength l 10 * (b + num * j)
          [MOD l] := (Nat.mod_modEq _ l).add_left _
      _ = ahead num l j (p + (l - 1) * (sliceLength l 10 * b)) + sliceLength l 10 * num * j
          + sliceLength l 10 * b := by ring
      _ ≡ p + (l - 1) * (sliceLength l 10 * b) + sliceLength l 10 * b [MOD l] :=
          (ahead_modEq hl num j _).add_right _
      _ = p + l * (sliceLength l 10 * b) := by rw [Nat.add_assoc, sub_one_mul_add hl]
      _ ≡ p [MOD l] := by rw [Nat.ModEq, Nat.add_mul_mod_self_left]
  have hs : sliceLength l 10 * (b + num * j) % l < l := Nat.mod_lt _ hl
  have hd := ahead_lt hl num j (p + (l - 1) * (sliceLength l 10 * b))
  by_cases hfit : ahead num l j (p + (l - 1) * (sliceLength l 10 * b))
      + sliceLength l 10 * (b + num * j) % l < l
  · rw [Nat.ModEq, Nat.mod_eq_of_lt hfit, Nat.mod_eq_of_lt hp] at hsum
    by_cases hwhole : sliceLength l 10 * (b + num * j) = l
    · -- a slice that starts behind the last user is empty
      rw [hwhole, Nat.mod_self, Nat.add_zero] at hsum
      exact hfirst (hsum ▸ hahead)
    · refine ⟨j, hj, ?_⟩
      rw [sliceStart_of_ne hwhole]
      omega
  · -- the slice is cut, and `p` lies in front of it
    refine hfirst ?_
    rw [Nat.ModEq, Nat.mod_eq_of_lt hp, Nat.mod_eq_sub_mod (Nat.not_lt.mp hfit),
      Nat.mod_eq_of_lt (by omega)] at hsum
    omega

/-! ## Full rounds -/

/-- The numbers of users that ten slices cover. -/
def fullSizes : Network → List ℕ
  | .ethereum => [1, 2, 3, 4, 6, 7, 8, 9, 11, 12, 13, 14, 16, 18, 21, 24, 27, 32, 36, 45, 54, 63,
      72, 81]
  | .polygon => [1, 7, 11, 13, 14, 21, 29, 31, 58, 61, 87, 91, 116, 145, 174, 203, 232, 261, 271]
  | .bsc => [1, 3, 7, 9, 11, 14, 18, 19, 21, 27, 36, 38, 41, 45, 54, 57, 61, 63, 72, 76, 81, 95,
      114, 133, 152, 171, 181]

/-- A slice is a tenth of the users, rounded up. -/
private theorem sliceLength_spec (l : ℕ) : ∃ r < 10, l + r = 10 * sliceLength l 10 := by
  rw [sliceLength]
  exact ⟨10 * ((l + 10 - 1) / 10) - l, by omega, by omega⟩

/-- With steps of `10 * c` blocks the slices advance by `c * r` places, and the place behind the
last one is free when there are many users. -/
theorem not_meets_tens {c l r : ℕ} (hr : l + r = 10 * sliceLength l 10)
    (hlarge : (9 * c + 1) * r < 9 * sliceLength l 10) :
    ¬ Meets (10 * c) l (9 * (c * r) + sliceLength l 10) := by
  rintro ⟨j, hj, hahead⟩
  have hadvance : sliceLength l 10 * (10 * c) * j = c * r * j + l * (c * j) := by
    calc sliceLength l 10 * (10 * c) * j = 10 * sliceLength l 10 * (c * j) := by ring
      _ = (l + r) * (c * j) := by rw [hr]
      _ = c * r * j + l * (c * j) := by ring
  have hsplit : c * r * (9 - j) + c * r * j = 9 * (c * r) := by
    rw [← Nat.mul_add, Nat.sub_add_cancel (by omega), Nat.mul_comm]
  have hlt : c * r * (9 - j) + sliceLength l 10 < l := by
    have hle : c * r * (9 - j) ≤ 9 * (c * r) := hsplit ▸ Nat.le_add_right _ _
    have hexpand : (9 * c + 1) * r = 9 * (c * r) + r := by ring
    omega
  have hmod : c * r * (9 - j) + sliceLength l 10 + sliceLength l 10 * (10 * c) * j
      ≡ 9 * (c * r) + sliceLength l 10 [MOD l] := by
    have hsum : c * r * (9 - j) + sliceLength l 10 + sliceLength l 10 * (10 * c) * j
        = 9 * (c * r) + sliceLength l 10 + l * (c * j) := by
      rw [hadvance, ← hsplit]
      ring
    rw [hsum, Nat.ModEq, Nat.add_mul_mod_self_left]
  rw [ahead_eq_of_modEq hlt hmod] at hahead
  omega

/-- With steps of five blocks the slices start alternately in the first and in the second half, and
the place behind the last one of the first half is free when there are many users. -/
theorem not_meets_five {l r : ℕ} (hr : l + r = 10 * sliceLength l 10)
    (hlarge : r < sliceLength l 10) : ¬ Meets 5 l (4 * r + sliceLength l 10) := by
  rintro ⟨j, hj, hahead⟩
  obtain ⟨m, hm⟩ := Nat.even_or_odd' j
  rcases hm with rfl | rfl
  · have hlt : r * (4 - m) + sliceLength l 10 < l := by
      have hle : r * (4 - m) ≤ r * 4 := Nat.mul_le_mul_left r (Nat.sub_le 4 m)
      omega
    have hmod : r * (4 - m) + sliceLength l 10 + sliceLength l 10 * 5 * (2 * m)
        ≡ 4 * r + sliceLength l 10 [MOD l] := by
      have hsum : r * (4 - m) + sliceLength l 10 + sliceLength l 10 * 5 * (2 * m)
          = 4 * r + sliceLength l 10 + l * m := by
        have hfour : r * (4 - m) + r * m = 4 * r := by
          rw [← Nat.mul_add, Nat.sub_add_cancel (by omega), Nat.mul_comm]
        calc r * (4 - m) + sliceLength l 10 + sliceLength l 10 * 5 * (2 * m)
            = r * (4 - m) + sliceLength l 10 + 10 * sliceLength l 10 * m := by ring
          _ = r * (4 - m) + r * m + sliceLength l 10 + l * m := by
              rw [← hr]
              ring
          _ = 4 * r + sliceLength l 10 + l * m := by rw [hfour]
      rw [hsum, Nat.ModEq, Nat.add_mul_mod_self_left]
    rw [ahead_eq_of_modEq hlt hmod] at hahead
    omega
  · have hle : r * (4 - m) ≤ r * 4 := Nat.mul_le_mul_left r (Nat.sub_le 4 m)
    have hlt : r * (4 - m) + (6 * sliceLength l 10 - r) < l := by omega
    have hmod : r * (4 - m) + (6 * sliceLength l 10 - r) + sliceLength l 10 * 5 * (2 * m + 1)
        ≡ 4 * r + sliceLength l 10 [MOD l] := by
      have hsum : r * (4 - m) + (6 * sliceLength l 10 - r) + sliceLength l 10 * 5 * (2 * m + 1)
          = 4 * r + sliceLength l 10 + l * (m + 1) := by
        have hfour : r * (4 - m) + r * m = 4 * r := by
          rw [← Nat.mul_add, Nat.sub_add_cancel (by omega), Nat.mul_comm]
        have hexpand : sliceLength l 10 * 5 * (2 * m + 1)
            = l * m + r * m + 5 * sliceLength l 10 := by
          calc sliceLength l 10 * 5 * (2 * m + 1)
              = 10 * sliceLength l 10 * m + 5 * sliceLength l 10 := by ring
            _ = l * m + r * m + 5 * sliceLength l 10 := by
                rw [← hr]
                ring
        rw [hexpand, Nat.mul_add, Nat.mul_one]
        omega
      rw [hsum, Nat.ModEq, Nat.add_mul_mod_self_left]
    rw [ahead_eq_of_modEq hlt hmod] at hahead
    omega

/-- Below this number of users the rounds are checked one by one. -/
def manyUsers : Network → ℕ
  | .ethereum => 91
  | .polygon => 281
  | .bsc => 191

/-- The rounds of few users, by the places behind the slices. The last one is free in most. -/
private theorem few_users (net : Network) : ∀ l < manyUsers net, 0 < l →
    ((∀ i < 10, Meets (blocksPerMinute net) l (endOf (blocksPerMinute net) l (9 - i)))
      ↔ l ∈ fullSizes net) := by
  cases net with
  | ethereum => decide +kernel
  | polygon => decide +kernel
  | bsc => decide +kernel

private theorem not_mem_fullSizes (net : Network) {l : ℕ} (h : manyUsers net ≤ l) :
    l ∉ fullSizes net := by
  have hall : ∀ m ∈ fullSizes net, m < manyUsers net := by
    cases net <;> decide
  exact fun hmem ↦ absurd (hall l hmem) (Nat.not_lt.mpr h)

private theorem not_meets_many (net : Network) {l : ℕ} (h : manyUsers net ≤ l) :
    ∃ q, ¬ Meets (blocksPerMinute net) l q := by
  obtain ⟨r, hr, hlen⟩ := sliceLength_spec l
  cases net with
  | ethereum =>
    have hl : 91 ≤ l := h
    exact ⟨_, not_meets_five hlen (by omega)⟩
  | polygon =>
    have hl : 281 ≤ l := h
    exact ⟨_, not_meets_tens (c := 3) hlen (by omega)⟩
  | bsc =>
    have hl : 191 ≤ l := h
    exact ⟨_, not_meets_tens (c := 2) hlen (by omega)⟩

/-- For which numbers of users the slices cover the circle. -/
theorem forall_meets_iff (net : Network) {l : ℕ} (hl : 0 < l) :
    (∀ q, Meets (blocksPerMinute net) l q) ↔ l ∈ fullSizes net := by
  by_cases hfew : l < manyUsers net
  · rw [← few_users net l hfew hl]
    constructor
    · exact fun h i _ ↦ h _
    · intro h
      refine meets_of_meets_endOf hl fun i hi ↦ ?_
      have hflip := h (9 - i) (by omega)
      rwa [Nat.sub_sub_self (by omega)] at hflip
  · have hmany := Nat.not_lt.mp hfew
    obtain ⟨q, hq⟩ := not_meets_many net hmany
    exact ⟨fun h ↦ absurd (h q) hq, fun h ↦ absurd h (not_mem_fullSizes net hmany)⟩

/-- **The rounds of the users.** Over ten successive blocks of the first kind every user is in some
slice iff the number of users is one of `fullSizes` and one of the slices starts at the first
user. -/
theorem sampled_round_iff {net : Network} {sta : States} (hne : 0 < sta.usersStates.keys.length)
    {b : ℕ} (hb : b % blocksPerMinute net = 1) :
    (∀ u ∈ sta.usersStates.keys, ∃ j < 10,
        u ∈ sta.getUsersSampling (b + blocksPerMinute net * j) 10)
      ↔ sta.usersStates.keys.length ∈ fullSizes net ∧
        ∃ j < 10, StartsAtZero (blocksPerMinute net) sta.usersStates.keys.length b j := by
  have hb_pos : 0 < b := by
    rcases Nat.eq_zero_or_pos b with rfl | hpos
    · rw [Nat.zero_mod] at hb
      omega
    · exact hpos
  have hplaces : (∀ u ∈ sta.usersStates.keys, ∃ j < 10,
        u ∈ sta.getUsersSampling (b + blocksPerMinute net * j) 10)
      ↔ Sampled (blocksPerMinute net) sta.usersStates.keys.length b := by
    constructor
    · intro h p hp
      obtain ⟨j, hj, hmem⟩ := h _ (List.getElem_mem hp)
      exact ⟨j, hj, (mem_getUsersSampling hp _ _).mp hmem⟩
    · intro h u hu
      obtain ⟨p, hp, rfl⟩ := List.getElem_of_mem hu
      obtain ⟨j, hj, hplace⟩ := h p hp
      exact ⟨j, hj, (mem_getUsersSampling hp _ _).mpr hplace⟩
  rw [hplaces, ← forall_meets_iff net hne]
  constructor
  · exact fun h ↦ ⟨h.meets hne, h.startsAtZero hne hb_pos⟩
  · rintro ⟨hmeets, j, hj, hzero⟩
    exact sampled_of_meets hne hj hzero hmeets

/-- A state with some users and nothing else. -/
def bareStates (users : List String) : States :=
  States.new (users.foldl (fun acc usr ↦ acc.set usr newUserStates) ∅) ∅ 0 ""

theorem sampled_round_three :
    (bareStates ["0xa", "0xb", "0xc"]).usersStates.keys = ["0xa", "0xb", "0xc"] ∧
    ∀ u ∈ (bareStates ["0xa", "0xb", "0xc"]).usersStates.keys, ∃ j < 10,
      u ∈ (bareStates ["0xa", "0xb", "0xc"]).getUsersSampling (1 + blocksPerMinute .bsc * j) 10 :=
  ⟨by decide, (sampled_round_iff (by decide) (by decide)).mpr (by decide)⟩

/-- Of two users the first one is never sampled from block one on. -/
theorem not_sampled_round_two :
    ¬ ∀ u ∈ (bareStates ["0xa", "0xb"]).usersStates.keys, ∃ j < 10,
      u ∈ (bareStates ["0xa", "0xb"]).getUsersSampling (1 + blocksPerMinute .bsc * j) 10 := by
  decide

end CompoundLiquidation
