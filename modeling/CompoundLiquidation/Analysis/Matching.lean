import CompoundLiquidation.Python.Collect
import CompoundLiquidation.Python.Nested
import Mathlib.Algebra.Order.Ring.Rat

/-!
# Own liquidations and those on chain

The analysis scripts compare the liquidations on chain with the own ones, both kept by user, debt
and time. The times of a user and a debt on chain divide the time since `0` into windows, and the
own records in the window that ends at a liquidation are those that may belong to it.

`find_intersection` and `merge` are the same loops. They go through the liquidations on chain, look
at all own records of the same user and debt, pop those they find from a copy, and drop the levels
of the copy that get empty. The two differ in a further condition on what is found, and in what they
note down. So the loops are given once, with these differences as a parameter, and with what they
come to: a count of the windows one after the other, and a copy without the records that are found
in a window.

A time is whatever `float` reads as a number, a number itself or a text.
-/

namespace CompoundLiquidation

open Python

/-! ## The program -/

/-- `TIME_OFFSET`. -/
def timeOffset : ℚ := 0

/-- `BLANK_LIST`, the two ends of each range as `unix_time` reads them. -/
def blankList : List (ℚ × ℚ) := []

/-- Records by user, debt and time. -/
abbrev Records (τ ν : Type) := Nested String String τ ν

section Program

variable {τ ν σ : Type} [DecidableEq τ] [ToString τ] (float : τ → ℚ)

/-- `time_in_range`. -/
def timeInRange (time : τ) : Bool :=
  blankList.any fun ran ↦ ran.1 < float time && float time < ran.2

/-- What is noted down, and how many liquidations were skipped. -/
structure Tally (σ : Type) where
  out : σ
  skip : ℕ

/-- In what `find_intersection` and `merge` differ. -/
structure Matcher (τ ν σ : Type) where
  /-- What is asked of `data` and `my_data` besides the window. -/
  near : ν → ν → Bool
  /-- What is noted of `data` at its path with `target` and `my_data`. -/
  included : String × String × τ → ν → τ → ν → σ → Except Error σ
  /-- What is noted of `data` at its path without a target. -/
  notIncluded : String × String × τ → ν → σ → σ

variable (M : Matcher τ ν σ)

namespace Matcher

/-- The condition on an own record. -/
def hits (left right : ℚ) (data : ν) (my : τ × ν) : Bool :=
  left + timeOffset < float my.1 && float my.1 < right + timeOffset && M.near data my.2

/-- A liquidation without a target. -/
def exclude (path : String × String × τ) (data : ν) (tally : Tally σ) : Tally σ :=
  if timeInRange float path.2.2 then { tally with skip := tally.skip + 1 }
  else { tally with out := M.notIncluded path data tally.out }

/-- The liquidations of a debt that has no own records. -/
def excludeAll (user debt : String) (times : List (τ × ν)) (tally : Tally σ) : Tally σ :=
  times.foldl (fun tally e ↦ M.exclude float (user, debt, e.1) e.2 tally) tally

/-- The loop over the own records of a debt, with `target` and `my_data` as it leaves them. -/
def takeMatches (user debt : String) (left right : ℚ) (data : ν) (mine : List (τ × ν))
    (notMatched : Records τ ν) : Except Error (Option τ × Option ν × Records τ ν) :=
  mine.foldlM (fun s my ↦
    if M.hits float left right data my then do
      let notMatched ← s.2.2.popAt user debt my.1
      return (some my.1, some my.2, notMatched)
    else return (s.1, some my.2, s.2.2)) (none, none, notMatched)

/-- One liquidation on chain. -/
def matchWindow (user debt : String) (mine : List (τ × ν)) (left : ℚ) (e : τ × ν)
    (s : Tally σ × Records τ ν) : Except Error (Tally σ × Records τ ν) := do
  let (target, myData, notMatched) ← M.takeMatches float user debt left (float e.1) e.2 mine s.2
  match target, myData with
  | some target, some myData => do
    let out ← M.included (user, debt, e.1) e.2 target myData s.1.out
    let notMatched ← notMatched.dropLeaf user debt
    return ({ s.1 with out := out }, notMatched)
  | _, _ => return (M.exclude float (user, debt, e.1) e.2 s.1, notMatched)

/-- The loop over the liquidations of a debt, from `right` of the last one. -/
def matchWindows (user debt : String) (mine : List (τ × ν)) :
    ℚ → List (τ × ν) → Tally σ × Records τ ν → Except Error (Tally σ × Records τ ν)
  | _, [], s => .ok s
  | left, e :: times, s => do
    let s ← M.matchWindow float user debt mine left e s
    matchWindows user debt mine (float e.1) times s

/-- One debt of a user who has own records. -/
def matchDebt (user : String) (myDebts : Dict String (Dict τ ν)) (s : Tally σ × Records τ ν)
    (e : String × Dict τ ν) : Except Error (Tally σ × Records τ ν) :=
  match myDebts.get? e.1 with
  | none => .ok (M.excludeAll float user e.1 e.2.entries s.1, s.2)
  | some mine => do
    let s ← M.matchWindows float user e.1 mine.entries 0 e.2.entries s
    let notMatched ← s.2.dropBranch user
    return (s.1, notMatched)

/-- One user. -/
def matchUser (my : Records τ ν) (s : Tally σ × Records τ ν)
    (e : String × Dict String (Dict τ ν)) : Except Error (Tally σ × Records τ ν) :=
  match my.get? e.1 with
  | none =>
    .ok (e.2.entries.foldl (fun tally d ↦ M.excludeAll float e.1 d.1 d.2.entries tally) s.1, s.2)
  | some myDebts => e.2.entries.foldlM (M.matchDebt float e.1 myDebts) s

/-- The loops of `find_intersection` and `merge`. -/
def matchRecords (actual my : Records τ ν) (out : σ) : Except Error (Tally σ × Records τ ν) :=
  actual.entries.foldlM (M.matchUser float my) (⟨out, 0⟩, my)

end Matcher

end Program

/-! ## The windows -/

/-- A liquidation on chain, with the end of the window before it. -/
structure TimeWindow (τ ν : Type) where
  user : String
  debt : String
  left : ℚ
  time : τ
  data : ν

/-- The path of the liquidation. -/
def TimeWindow.path {τ ν : Type} (w : TimeWindow τ ν) : String × String × τ :=
  (w.user, w.debt, w.time)

section Windows

variable {τ ν : Type} (float : τ → ℚ)

/-- The windows of a debt from `left` on. -/
def windowsFrom (user debt : String) : ℚ → List (τ × ν) → List (TimeWindow τ ν)
  | _, [] => []
  | left, e :: times => ⟨user, debt, left, e.1, e.2⟩ :: windowsFrom user debt (float e.1) times

/-- The debts of all users. -/
def debtsOf (actual : Records τ ν) : List (String × String × Dict τ ν) :=
  actual.entries.flatMap fun u ↦ u.2.entries.map (u.1, ·)

theorem mem_debtsOf_iff {actual : Records τ ν} {user debt : String} {times : Dict τ ν} :
    (user, debt, times) ∈ debtsOf actual ↔ actual.leaf user debt = some times := by
  simp only [debtsOf, List.mem_flatMap, List.mem_map, Nested.leaf, Option.bind_eq_some_iff,
    Dict.get?_eq_some_iff]
  constructor
  · rintro ⟨u, hu, d, hd, h⟩
    obtain ⟨rfl, rfl⟩ := Prod.mk.inj h
    exact ⟨u.2, hu, hd⟩
  · rintro ⟨debts, hu, hd⟩
    exact ⟨(user, debts), hu, (debt, times), hd, rfl⟩

theorem nodup_debtsOf (actual : Records τ ν) :
    ((debtsOf actual).map fun p ↦ (p.1, p.2.1)).Nodup := by
  have hlabels : ((debtsOf actual).map fun p ↦ (p.1, p.2.1))
      = actual.entries.flatMap fun u ↦ u.2.keys.map (u.1, ·) := by
    simp only [debtsOf, List.map_flatMap, List.map_map, Dict.keys, Function.comp_def]
  rw [hlabels]
  exact Nested.nodup_flatMap_map (f := Dict.keys) actual.nodup_keys fun u _ ↦ u.2.nodup_keys

/-- All windows, in the order of the loops. -/
def windowsOf (actual : Records τ ν) : List (TimeWindow τ ν) :=
  (debtsOf actual).flatMap fun p ↦ windowsFrom float p.1 p.2.1 0 p.2.2.entries

/-- A window begins at the time before, the first one at `left`. -/
theorem mem_windowsFrom_iff {user debt : String} {w : TimeWindow τ ν} (times : List (τ × ν)) :
    ∀ {left : ℚ}, w ∈ windowsFrom float user debt left times ↔ ∃ before e after,
      times = before ++ e :: after ∧
        w = ⟨user, debt, ((before.getLast?.map fun b ↦ float b.1).getD left), e.1, e.2⟩ := by
  induction times with
  | nil =>
    intro left
    refine iff_of_false List.not_mem_nil ?_
    rintro ⟨before, e, after, h, -⟩
    exact List.append_ne_nil_of_right_ne_nil before (List.cons_ne_nil e after) h.symm
  | cons e times ih =>
    intro left
    rw [windowsFrom, List.mem_cons, ih]
    constructor
    · rintro (rfl | ⟨before, e', after, rfl, rfl⟩)
      · exact ⟨[], e, times, rfl, rfl⟩
      · refine ⟨e :: before, e', after, rfl, ?_⟩
        rcases List.eq_nil_or_concat' before with rfl | ⟨front, b, rfl⟩
        · rfl
        · rw [← List.cons_append, List.getLast?_concat, List.getLast?_concat]
          rfl
    · rintro ⟨before, e', after, h, rfl⟩
      rcases before with _ | ⟨b, before⟩
      · obtain ⟨rfl, rfl⟩ := List.cons.inj h
        exact .inl rfl
      · obtain ⟨rfl, rfl⟩ := List.cons.inj h
        refine .inr ⟨before, e', after, rfl, ?_⟩
        rcases List.eq_nil_or_concat' before with rfl | ⟨front, b', rfl⟩
        · rfl
        · rw [← List.cons_append, List.getLast?_concat, List.getLast?_concat]
          rfl

theorem user_debt_of_mem_windowsFrom {user debt : String} {left : ℚ} {times : List (τ × ν)}
    {w : TimeWindow τ ν} (h : w ∈ windowsFrom float user debt left times) :
    w.user = user ∧ w.debt = debt := by
  obtain ⟨before, e, after, -, rfl⟩ := (mem_windowsFrom_iff float times).mp h
  exact ⟨rfl, rfl⟩

/-- The windows are those of the records, in their order. -/
theorem map_windowsOf (actual : Records τ ν) :
    (windowsOf float actual).map (fun w ↦ (w.path, w.data)) = actual.items := by
  have hfrom : ∀ user debt (times : List (τ × ν)) left,
      (windowsFrom float user debt left times).map (fun w ↦ (w.path, w.data))
        = times.map fun e ↦ ((user, debt, e.1), e.2) := by
    intro user debt times
    induction times with
    | nil => exact fun _ ↦ rfl
    | cons e times ih =>
      intro left
      rw [windowsFrom, List.map_cons, List.map_cons, ih]
      rfl
  simp only [windowsOf, debtsOf, Nested.items, List.map_flatMap, List.flatMap_assoc,
    List.flatMap_map, hfrom]

theorem mem_windowsOf_iff {actual : Records τ ν} {w : TimeWindow τ ν} :
    w ∈ windowsOf float actual ↔ ∃ times, actual.leaf w.user w.debt = some times ∧
      w ∈ windowsFrom float w.user w.debt 0 times.entries := by
  rw [windowsOf, List.mem_flatMap]
  constructor
  · rintro ⟨⟨user, debt, times⟩, hp, hw⟩
    obtain ⟨huser, hdebt⟩ := user_debt_of_mem_windowsFrom float hw
    rw [huser, hdebt]
    exact ⟨times, mem_debtsOf_iff.mp hp, hw⟩
  · rintro ⟨times, htimes, hw⟩
    exact ⟨(w.user, w.debt, times), mem_debtsOf_iff.mpr htimes, hw⟩

/-- The times of each debt are positive and increasing. -/
def TimesIncrease (actual : Records τ ν) : Prop :=
  ∀ user debt times, actual.leaf user debt = some times →
    (∀ time ∈ times.keys, 0 < float time) ∧ (times.keys.map float).Pairwise (· < ·)

theorem timesIncrease_iff {actual : Records τ ν} : TimesIncrease float actual ↔
    ∀ p ∈ debtsOf actual, (0 :: p.2.2.keys.map float).Pairwise (· < ·) := by
  simp only [TimesIncrease, List.pairwise_cons, List.forall_mem_map]
  constructor
  · exact fun h p hp ↦ h p.1 p.2.1 p.2.2 (mem_debtsOf_iff.mp hp)
  · exact fun h user debt times htimes ↦ h (user, debt, times) (mem_debtsOf_iff.mpr htimes)

theorem find?_of_mem_windowsOf [DecidableEq τ] {actual : Records τ ν} {w : TimeWindow τ ν}
    (h : w ∈ windowsOf float actual) : actual.find? w.path = some w.data := by
  apply Nested.mem_items_iff.mp
  rw [← map_windowsOf float]
  exact List.mem_map_of_mem h

theorem exists_window_of_find? [DecidableEq τ] {actual : Records τ ν} {p : String × String × τ}
    {data : ν} (h : actual.find? p = some data) :
    ∃ w ∈ windowsOf float actual, w.path = p ∧ w.data = data := by
  have hmem := Nested.mem_items_iff.mpr h
  rw [← map_windowsOf float] at hmem
  obtain ⟨w, hw, heq⟩ := List.mem_map.mp hmem
  exact ⟨w, hw, Prod.mk.inj heq⟩

theorem nodup_map_windowsOf (actual : Records τ ν) :
    ((windowsOf float actual).map TimeWindow.path).Nodup := by
  have hnd := actual.nodup_items
  rw [← map_windowsOf float, List.map_map] at hnd
  exact hnd

/-- No time of the debt is strictly inside a window. -/
theorem TimesIncrease.le_left_or_time_le [DecidableEq τ] {float : τ → ℚ} {actual : Records τ ν}
    (hactual : TimesIncrease float actual) {w : TimeWindow τ ν} (hw : w ∈ windowsOf float actual)
    {c : τ} {data : ν} (hc : actual.find? (w.user, w.debt, c) = some data) :
    float c ≤ w.left ∨ float w.time ≤ float c := by
  obtain ⟨times, htimes, hfrom⟩ := (mem_windowsOf_iff float).mp hw
  obtain ⟨before, e, after, hentries, hwindow⟩ := (mem_windowsFrom_iff float _).mp hfrom
  have hleft : w.left = (before.getLast?.map fun b ↦ float b.1).getD 0 := by rw [hwindow]
  have htime : w.time = e.1 := by rw [hwindow]
  have hsorted := (hactual w.user w.debt times htimes).2
  rw [Nested.find?, htimes, Option.bind_some, Dict.get?_eq_some_iff, hentries] at hc
  rw [Dict.keys, hentries, List.map_append, List.map_append, List.map_cons, List.map_cons,
    List.pairwise_append, List.pairwise_cons] at hsorted
  rw [htime]
  rcases List.mem_append.mp hc with hbefore | hafter
  · refine .inl ?_
    rcases List.eq_nil_or_concat' before with rfl | ⟨front, b, rfl⟩
    · exact absurd hbefore List.not_mem_nil
    rw [hleft, List.getLast?_concat, Option.map_some, Option.getD_some]
    rcases List.mem_append.mp hbefore with hfront | hlast
    · have hfirst := hsorted.1
      rw [List.map_append, List.map_append, List.pairwise_append] at hfirst
      exact (hfirst.2.2 _ (List.mem_map_of_mem (List.mem_map_of_mem hfront)) _
        List.mem_cons_self).le
    · rw [← List.mem_singleton.mp hlast]
  · refine .inr ?_
    rcases List.mem_cons.mp hafter with rfl | hafter
    · exact le_rfl
    · exact (hsorted.2.1.1 _ (List.mem_map_of_mem (List.mem_map_of_mem hafter))).le

theorem TimesIncrease.time_le [DecidableEq τ] {float : τ → ℚ} {actual : Records τ ν}
    (hactual : TimesIncrease float actual) {w w' : TimeWindow τ ν} (hw : w ∈ windowsOf float actual)
    (hw' : w' ∈ windowsOf float actual) (huser : w'.user = w.user) (hdebt : w'.debt = w.debt)
    {x : ℚ} (hleft : w.left < x) (htime : x < float w'.time) : float w.time ≤ float w'.time := by
  have hfind := find?_of_mem_windowsOf float hw'
  rw [TimeWindow.path, huser, hdebt] at hfind
  exact (hactual.le_left_or_time_le hw hfind).resolve_left (not_le.mpr (hleft.trans htime))

/-- The windows of a debt do not overlap. -/
theorem TimesIncrease.window_eq [DecidableEq τ] {float : τ → ℚ} {actual : Records τ ν}
    (hactual : TimesIncrease float actual) {w w' : TimeWindow τ ν} (hw : w ∈ windowsOf float actual)
    (hw' : w' ∈ windowsOf float actual) (huser : w'.user = w.user) (hdebt : w'.debt = w.debt)
    {x : ℚ} (hx : w.left < x ∧ x < float w.time) (hx' : w'.left < x ∧ x < float w'.time) :
    w = w' := by
  have hle := hactual.time_le hw hw' huser hdebt hx.1 hx'.2
  have hge := hactual.time_le hw' hw huser.symm hdebt.symm hx'.1 hx.2
  have hfind := find?_of_mem_windowsOf float hw
  have hfind' := find?_of_mem_windowsOf float hw'
  obtain ⟨times, htimes, -⟩ := (mem_windowsOf_iff float).mp hw
  rw [TimeWindow.path, Nested.find?, htimes, Option.bind_some] at hfind
  rw [TimeWindow.path, Nested.find?, huser, hdebt, htimes, Option.bind_some] at hfind'
  have htime : w.time = w'.time :=
    List.inj_on_of_nodup_map (hactual w.user w.debt times htimes).2.nodup
      (Dict.mem_keys_iff.mpr ⟨_, hfind⟩) (Dict.mem_keys_iff.mpr ⟨_, hfind'⟩) (le_antisymm hle hge)
  refine List.inj_on_of_nodup_map (nodup_map_windowsOf float actual) hw hw' ?_
  rw [TimeWindow.path, TimeWindow.path, huser, hdebt, htime]

end Windows

/-- The own records of a debt. -/
def ownRecords {τ ν : Type} (my : Records τ ν) (user debt : String) : List (τ × ν) :=
  ((my.leaf user debt).map Dict.entries).getD []

theorem ownRecords_of_leaf {τ ν : Type} {my : Records τ ν} {user debt : String} {own : Dict τ ν}
    (h : my.leaf user debt = some own) : ownRecords my user debt = own.entries := by
  rw [ownRecords, h, Option.map_some, Option.getD_some]

theorem mem_ownRecords_iff {τ ν : Type} [DecidableEq τ] {my : Records τ ν} {user debt : String}
    {c : τ} {m : ν} : (c, m) ∈ ownRecords my user debt ↔ my.find? (user, debt, c) = some m := by
  rw [Nested.find?]
  rcases hown : my.leaf user debt with _ | own
  · rw [ownRecords, hown]
    exact iff_of_false List.not_mem_nil (Option.some_ne_none m).symm
  · rw [ownRecords_of_leaf hown]
    exact Dict.get?_eq_some_iff.symm

namespace Matcher

variable {τ ν σ : Type} (float : τ → ℚ) (M : Matcher τ ν σ) (my : Records τ ν)

/-- The own records that are found in a window. -/
def found (w : TimeWindow τ ν) : List (τ × ν) :=
  (ownRecords my w.user w.debt).filter (M.hits float w.left (float w.time) w.data)

/-- The record is found in some window of its user and debt. -/
def Hit (actual : Records τ ν) (p : String × String × τ) (m : ν) : Prop :=
  ∃ w ∈ windowsOf float actual, w.user = p.1 ∧ w.debt = p.2.1 ∧
    M.hits float w.left (float w.time) w.data (p.2.2, m) = true

/-- What a window adds: the last record found is the target, and `my_data` is the last record of
all. -/
def count (tally : Tally σ) (w : TimeWindow τ ν) : Except Error (Tally σ) :=
  match (M.found float my w).getLast?, (ownRecords my w.user w.debt).getLast? with
  | some target, some last =>
    (M.included w.path w.data target.1 last.2 tally.out).map fun out ↦ { tally with out := out }
  | _, _ => .ok (M.exclude float w.path w.data tally)

/-- The times of the own records that are found in some windows. -/
def taken (ws : List (TimeWindow τ ν)) : List τ :=
  ws.flatMap fun w ↦ (M.found float my w).map Prod.fst

end Matcher

/-! ## The loops -/

section Count

variable {τ ν σ : Type} {float : τ → ℚ} (M : Matcher τ ν σ)

theorem hits_iff {left right : ℚ} {data : ν} {my : τ × ν} :
    M.hits float left right data my = true ↔
      (left < float my.1 ∧ float my.1 < right) ∧ M.near data my.2 = true := by
  simp only [Matcher.hits, timeOffset, add_zero, Bool.and_eq_true, decide_eq_true_eq]

theorem count_of_found_eq_nil {my : Records τ ν} {w : TimeWindow τ ν} (h : M.found float my w = [])
    (tally : Tally σ) :
    M.count float my tally w = .ok (M.exclude float w.path w.data tally) := by
  rw [Matcher.count, h]
  rfl

/-- Without own records all windows of a debt go by. -/
theorem foldlM_count_of_no_records {my : Records τ ν} {user debt : String}
    (h : ownRecords my user debt = []) (times : List (τ × ν)) :
    ∀ left tally, (windowsFrom float user debt left times).foldlM (M.count float my) tally
      = .ok (M.excludeAll float user debt times tally) := by
  induction times with
  | nil => exact fun _ _ ↦ rfl
  | cons e times ih =>
    intro left tally
    have hfound : M.found float my ⟨user, debt, left, e.1, e.2⟩ = [] := by
      rw [Matcher.found, h, List.filter_nil]
    rw [windowsFrom, List.foldlM_cons, count_of_found_eq_nil M hfound, ok_bind, ih]
    rfl

theorem count_of_target {my : Records τ ν} {w : TimeWindow τ ν} {target : τ × ν}
    (h : (M.found float my w).getLast? = some target) :
    ∃ last, (ownRecords my w.user w.debt).getLast? = some last ∧ ∀ tally,
      M.count float my tally w = (M.included w.path w.data target.1 last.2 tally.out).map
        fun out ↦ { tally with out := out } := by
  have hmem := List.mem_of_mem_filter (List.mem_of_getLast? h)
  obtain ⟨last, hlast⟩ := exists_getLast?_of_mem hmem
  refine ⟨last, hlast, fun tally ↦ ?_⟩
  rw [Matcher.count, h, hlast]

theorem mem_found_iff [DecidableEq τ] {my : Records τ ν} {w : TimeWindow τ ν} {c : τ} {m : ν} :
    (c, m) ∈ M.found float my w ↔ my.find? (w.user, w.debt, c) = some m ∧
      M.hits float w.left (float w.time) w.data (c, m) = true := by
  rw [Matcher.found, List.mem_filter, mem_ownRecords_iff]

theorem not_hit_of_leaf_eq_none {actual : Records τ ν} {p : String × String × τ}
    (h : actual.leaf p.1 p.2.1 = none) (m : ν) : ¬ M.Hit float actual p m := by
  rintro ⟨w, hw, hu, hd, -⟩
  obtain ⟨times, htimes, -⟩ := (mem_windowsOf_iff float).mp hw
  rw [hu, hd, h] at htimes
  exact Option.some_ne_none times htimes.symm

/-- What is taken in the windows of a debt is what is found in some window. -/
theorem mem_taken_iff [DecidableEq τ] {actual my : Records τ ν} {p : String × String × τ}
    {times : Dict τ ν} {m : ν} (htimes : actual.leaf p.1 p.2.1 = some times)
    (hm : my.find? p = some m) :
    p.2.2 ∈ M.taken float my (windowsFrom float p.1 p.2.1 0 times.entries) ↔
      M.Hit float actual p m := by
  rw [Matcher.taken, List.mem_flatMap]
  constructor
  · rintro ⟨w, hw, hmem⟩
    obtain ⟨hu, hd⟩ := user_debt_of_mem_windowsFrom float hw
    obtain ⟨⟨c, m'⟩, hfound, hc⟩ := List.mem_map.mp hmem
    obtain rfl : c = p.2.2 := hc
    obtain ⟨hm', hhit⟩ := (mem_found_iff M).mp hfound
    rw [hu, hd] at hm'
    obtain rfl := Option.some.inj (hm.symm.trans hm')
    refine ⟨w, (mem_windowsOf_iff float).mpr ⟨times, ?_, ?_⟩, hu, hd, hhit⟩
    · rw [hu, hd, htimes]
    · rwa [hu, hd]
  · rintro ⟨w, hw, hu, hd, hhit⟩
    obtain ⟨times', htimes', hw⟩ := (mem_windowsOf_iff float).mp hw
    rw [hu, hd] at htimes' hw
    obtain rfl := Option.some.inj (htimes.symm.trans htimes')
    have hfound : (p.2.2, m) ∈ M.found float my w := by
      rw [mem_found_iff, hu, hd]
      exact ⟨hm, hhit⟩
    exact ⟨w, hw, List.mem_map_of_mem hfound⟩

end Count

section Loops

open Nested

variable {τ ν σ : Type} [DecidableEq τ] [ToString τ] {float : τ → ℚ} (M : Matcher τ ν σ)
  {user debt : String} {rest : Records τ ν}

/-- The loop over the own records pops those that hit, if they are there. -/
theorem run_takeMatches {left right : ℚ} {data : ν} {mine : List (τ × ν)}
    (hnd : (mine.map Prod.fst).Nodup)
    (hrest : ∀ my ∈ mine, M.hits float left right data my = true →
      rest.find? (user, debt, my.1) = some my.2) :
    ∃ rest', M.takeMatches float user debt left right data mine rest
        = .ok ((mine.filter (M.hits float left right data)).getLast?.map Prod.fst,
          mine.getLast?.map Prod.snd, rest') ∧
      Apart user debt rest rest' ∧
      (mine.filter (M.hits float left right data) ≠ [] → ∃ d, rest'.leaf user debt = some d) ∧
      ∀ c, rest'.find? (user, debt, c)
        = if c ∈ (mine.filter (M.hits float left right data)).map Prod.fst then none
          else rest.find? (user, debt, c) := by
  induction mine using List.reverseRecOn with
  | nil => exact ⟨rest, rfl, .refl user debt rest, fun h ↦ absurd rfl h, fun c ↦ rfl⟩
  | append_singleton mine e ih =>
    rw [List.map_append, List.nodup_append] at hnd
    obtain ⟨rest₁, hrun, hapart, hleaf, hfind⟩ := ih hnd.1 fun my hmy ↦
      hrest my (List.mem_append_left _ hmy)
    rw [Matcher.takeMatches] at hrun
    rw [Matcher.takeMatches, List.foldlM_append, hrun, ok_bind, List.foldlM_cons,
      List.getLast?_concat, Option.map_some]
    by_cases hhit : M.hits float left right data e = true
    · have hfilter : (mine ++ [e]).filter (M.hits float left right data)
          = mine.filter (M.hits float left right data) ++ [e] := by
        rw [List.filter_append, List.filter_cons_of_pos hhit, List.filter_nil]
      have hthere : rest₁.find? (user, debt, e.1) = some e.2 := by
        rw [hfind, if_neg fun hmem ↦ ?_]
        · exact hrest e (List.mem_append_right _ (List.mem_singleton_self e)) hhit
        · obtain ⟨e', he', heq⟩ := List.mem_map.mp hmem
          exact hnd.2.2 e'.1 (List.mem_map_of_mem (List.mem_of_mem_filter he')) e.1
            (List.mem_singleton_self e.1) heq
      obtain ⟨d, hd, hv⟩ := Option.bind_eq_some_iff.mp hthere
      obtain ⟨rest₂, hpop, hapart', hleaf'⟩ := popAt_of_leaf hd hv
      rw [hfilter, List.getLast?_concat]
      refine ⟨rest₂, ?_, hapart.trans hapart', fun _ ↦ ⟨_, hleaf'⟩, fun c ↦ ?_⟩
      · rw [if_pos hhit, hpop, ok_bind]
        rfl
      · have hold := hfind c
        rw [find?, hd, Option.bind_some] at hold
        rw [find?, hleaf', Option.bind_some, Dict.get?_erase, hold]
        simp only [List.map_append, List.map_singleton, List.mem_append, List.mem_singleton]
        by_cases hc : c = e.1
        · rw [if_pos hc, if_pos (.inr hc)]
        · simp only [hc, or_false, ↓reduceIte]
    · have hfilter : (mine ++ [e]).filter (M.hits float left right data)
          = mine.filter (M.hits float left right data) := by
        rw [List.filter_append, List.filter_cons_of_neg hhit, List.filter_nil, List.append_nil]
      rw [hfilter]
      refine ⟨rest₁, ?_, hapart, hleaf, hfind⟩
      rw [if_neg hhit]
      rfl

variable {my : Records τ ν} {own : Dict τ ν}

/-- One liquidation: a window is counted, and what is found in it is gone. -/
theorem run_matchWindow (hown : my.leaf user debt = some own) {left : ℚ} {e : τ × ν}
    (hrest : ∀ r ∈ M.found float my ⟨user, debt, left, e.1, e.2⟩,
      rest.find? (user, debt, r.1) = some r.2) :
    ∃ rest', (∀ tally, M.matchWindow float user debt own.entries left e (tally, rest)
        = (M.count float my tally ⟨user, debt, left, e.1, e.2⟩).map (·, rest')) ∧
      Apart user debt rest rest' ∧
      ∀ c, rest'.find? (user, debt, c)
        = if c ∈ (M.found float my ⟨user, debt, left, e.1, e.2⟩).map Prod.fst then none
          else rest.find? (user, debt, c) := by
  have hentries := ownRecords_of_leaf hown
  simp only [Matcher.found, Matcher.count, hentries] at hrest ⊢
  obtain ⟨rest₁, hrun, hapart, hleaf, hfind⟩ := run_takeMatches M own.nodup_keys
    fun r hr hhit ↦ hrest r (List.mem_filter.mpr ⟨hr, hhit⟩)
  rcases htarget : (own.entries.filter (M.hits float left (float e.1) e.2)).getLast? with _ | target
  · rw [htarget] at hrun
    refine ⟨rest₁, fun tally ↦ ?_, hapart, hfind⟩
    rw [Matcher.matchWindow, hrun]
    rfl
  · have hmem := List.mem_of_getLast? htarget
    obtain ⟨last, hlast⟩ := exists_getLast?_of_mem (List.mem_of_mem_filter hmem)
    obtain ⟨d, hd⟩ := hleaf (List.ne_nil_of_mem hmem)
    obtain ⟨rest₂, hdrop, hapart', hfind'⟩ := dropLeaf_of_leaf hd
    rw [htarget, hlast] at hrun
    refine ⟨rest₂, fun tally ↦ ?_, hapart.trans hapart', fun c ↦ ?_⟩
    · rw [Matcher.matchWindow, hrun, ok_bind, hlast]
      simp only [Option.map_some, hdrop, TimeWindow.path]
      rcases M.included (user, debt, e.1) e.2 target.1 last.2 tally.out with err | out
      · rfl
      · rfl
    · have hold := hfind c
      rw [find?, hd, Option.bind_some] at hold
      rw [hfind', hold]

/-- The liquidations of a debt: the windows do not overlap, so that nothing is found twice. -/
theorem run_matchWindows (hown : my.leaf user debt = some own) (times : List (τ × ν)) :
    ∀ {left : ℚ} {rest : Records τ ν},
    (left :: times.map fun e ↦ float e.1).Pairwise (· < ·) →
    (∀ r ∈ own.entries, left < float r.1 → rest.find? (user, debt, r.1) = some r.2) →
    ∃ rest', (∀ tally, M.matchWindows float user debt own.entries left times (tally, rest)
        = ((windowsFrom float user debt left times).foldlM (M.count float my) tally).map
            (·, rest')) ∧
      Apart user debt rest rest' ∧
      ∀ c, rest'.find? (user, debt, c)
        = if c ∈ M.taken float my (windowsFrom float user debt left times) then none
          else rest.find? (user, debt, c) := by
  induction times with
  | nil => exact fun {_ rest} _ _ ↦ ⟨rest, fun tally ↦ rfl, .refl user debt rest, fun c ↦ rfl⟩
  | cons e times ih =>
    intro left rest hsorted hrest
    obtain ⟨hleft, hsorted⟩ := List.pairwise_cons.mp hsorted
    have hlt : left < float e.1 := hleft _ List.mem_cons_self
    have hbounds : ∀ r ∈ M.found float my ⟨user, debt, left, e.1, e.2⟩,
        r ∈ own.entries ∧ left < float r.1 ∧ float r.1 < float e.1 := by
      intro r hr
      rw [Matcher.found, ownRecords_of_leaf hown, List.mem_filter, hits_iff] at hr
      exact ⟨hr.1, hr.2.1⟩
    obtain ⟨rest₁, hrun, hapart, hfind⟩ := run_matchWindow M hown fun r hr ↦
      hrest r (hbounds r hr).1 (hbounds r hr).2.1
    obtain ⟨rest₂, hrun', hapart', hfind'⟩ := ih hsorted fun r hr hlater ↦ by
      -- what comes after the window is not found in it
      rw [hfind, if_neg fun hmem ↦ ?_]
      · exact hrest r hr (hlt.trans hlater)
      · obtain ⟨r', hr', heq⟩ := List.mem_map.mp hmem
        exact lt_asymm hlater (heq ▸ (hbounds r' hr').2.2)
    refine ⟨rest₂, fun tally ↦ ?_, hapart.trans hapart', fun c ↦ ?_⟩
    · rw [Matcher.matchWindows, hrun, windowsFrom, List.foldlM_cons]
      rcases M.count float my tally ⟨user, debt, left, e.1, e.2⟩ with err | tally'
      · rfl
      · exact hrun' tally'
    · rw [hfind', hfind]
      simp only [windowsFrom, Matcher.taken, List.flatMap_cons, List.mem_append]
      by_cases hlater : c ∈ (windowsFrom float user debt (float e.1) times).flatMap
          fun w ↦ (M.found float my w).map Prod.fst
      · simp only [hlater, or_true, ↓reduceIte]
      · simp only [hlater, or_false, ↓reduceIte]

/-- One debt. -/
theorem run_matchDebt {times : Dict τ ν} (hsorted : (0 :: times.keys.map float).Pairwise (· < ·))
    (hrest : rest.leaf user debt = my.leaf user debt) :
    ∃ rest', (∀ tally, M.matchDebt float user (my.getD user ∅) (tally, rest) (debt, times)
        = ((windowsFrom float user debt 0 times.entries).foldlM (M.count float my) tally).map
            (·, rest')) ∧
      (∀ a b, (a, b) ≠ (user, debt) → rest'.leaf a b = rest.leaf a b) ∧
      ∀ c, rest'.find? (user, debt, c)
        = if c ∈ M.taken float my (windowsFrom float user debt 0 times.entries) then none
          else my.find? (user, debt, c) := by
  have hsame : ∀ c, rest.find? (user, debt, c) = my.find? (user, debt, c) := by
    intro c
    rw [find?, hrest, find?]
  rcases hown : my.leaf user debt with _ | own
  · have hnone : ownRecords my user debt = [] := by rw [ownRecords, hown]; rfl
    refine ⟨rest, fun tally ↦ ?_, fun _ _ _ ↦ rfl, fun c ↦ ?_⟩
    · rw [Matcher.matchDebt, leaf_getD, hown, foldlM_count_of_no_records M hnone]
      rfl
    · rw [hsame, find?_eq_none_of_leaf hown, ite_self]
  · have hbranch : (rest.get? user).isSome := by
      obtain ⟨debts, hdebts, -⟩ := exists_branch_of_leaf (hrest.trans hown)
      rw [hdebts, Option.isSome_some]
    rw [Dict.keys, List.map_map] at hsorted
    obtain ⟨rest₁, hrun, hapart, hfind⟩ := run_matchWindows M hown times.entries hsorted
      fun r hr _ ↦ by
        rw [hsame, find?, hown]
        exact Dict.get?_eq_some_iff.mpr hr
    obtain ⟨rest₂, hdrop, hleaves⟩ := dropBranch_of_branch (hapart.branch hbranch)
    refine ⟨rest₂, fun tally ↦ ?_, fun a b hne ↦ ?_, fun c ↦ ?_⟩
    · rw [Matcher.matchDebt, leaf_getD, hown]
      simp only [hrun]
      rcases (windowsFrom float user debt 0 times.entries).foldlM (M.count float my) tally
        with e | tally'
      · rfl
      · simp only [Except.map, ok_bind, hdrop]
        rfl
    · rw [hleaves, hapart.leaves a b hne]
    · rw [find?, hleaves, ← hsame]
      exact hfind c

/-- The debts one after the other. -/
theorem run_debts (ps : List (String × String × Dict τ ν)) : ∀ {rest : Records τ ν},
    (ps.map fun p ↦ (p.1, p.2.1)).Nodup →
    (∀ p ∈ ps, (0 :: p.2.2.keys.map float).Pairwise (· < ·)) →
    (∀ p ∈ ps, rest.leaf p.1 p.2.1 = my.leaf p.1 p.2.1) →
    ∃ rest', (∀ tally, ps.foldlM (fun s p ↦ M.matchDebt float p.1 (my.getD p.1 ∅) s p.2)
          (tally, rest)
        = ((ps.flatMap fun p ↦ windowsFrom float p.1 p.2.1 0 p.2.2.entries).foldlM
            (M.count float my) tally).map (·, rest')) ∧
      (∀ a b, (a, b) ∉ ps.map (fun p ↦ (p.1, p.2.1)) → rest'.leaf a b = rest.leaf a b) ∧
      ∀ p ∈ ps, ∀ c, rest'.find? (p.1, p.2.1, c)
        = if c ∈ M.taken float my (windowsFrom float p.1 p.2.1 0 p.2.2.entries) then none
          else my.find? (p.1, p.2.1, c) := by
  induction ps with
  | nil => exact fun {rest} _ _ _ ↦ ⟨rest, fun _ ↦ rfl, fun _ _ _ ↦ rfl,
      fun p hp ↦ absurd hp List.not_mem_nil⟩
  | cons p ps ih =>
    intro rest hnd hsorted hrest
    obtain ⟨hp, hnd⟩ := List.nodup_cons.mp hnd
    obtain ⟨rest₁, hrun, hleaves, hfind⟩ :=
      run_matchDebt M (hsorted p List.mem_cons_self) (hrest p List.mem_cons_self)
    obtain ⟨rest₂, hrun', hleaves', hfind'⟩ := @ih rest₁ hnd
      (fun q hq ↦ hsorted q (List.mem_cons_of_mem p hq)) fun q hq ↦ by
        rw [hleaves q.1 q.2.1 fun heq ↦ hp (List.mem_map.mpr ⟨q, hq, heq⟩)]
        exact hrest q (List.mem_cons_of_mem p hq)
    refine ⟨rest₂, fun tally ↦ ?_, fun a b hab ↦ ?_, fun q hq c ↦ ?_⟩
    · rw [List.foldlM_cons, hrun, List.flatMap_cons, List.foldlM_append]
      rcases (windowsFrom float p.1 p.2.1 0 p.2.2.entries).foldlM (M.count float my) tally
        with e | tally'
      · rfl
      · exact hrun' tally'
    · rw [List.map_cons, List.mem_cons, not_or] at hab
      rw [hleaves' a b hab.2, hleaves a b hab.1]
    · rcases List.mem_cons.mp hq with rfl | hq
      · rw [find?, hleaves' _ _ hp]
        exact hfind c
      · exact hfind' q hq c

/-- A user without own records is one whose debts have none. -/
theorem matchUser_eq (s : Tally σ × Records τ ν) (e : String × Dict String (Dict τ ν)) :
    M.matchUser float my s e = e.2.entries.foldlM (M.matchDebt float e.1 (my.getD e.1 ∅)) s := by
  rw [Matcher.matchUser, Dict.getD]
  rcases my.get? e.1 with _ | debts
  · simp only [Option.getD_none]
    induction e.2.entries generalizing s with
    | nil => rfl
    | cons d debts ih =>
      rw [List.foldl_cons, List.foldlM_cons]
      exact ih (M.excludeAll float e.1 d.1 d.2.entries s.1, s.2)
  · rfl

/-- **What the loops come to.** They count the windows one after the other. What is left of the
copy is the own records that are found in no window, and none of the removals raises. -/
theorem matchRecords_eq {actual : Records τ ν} (hactual : TimesIncrease float actual)
    (my : Records τ ν) (out : σ) :
    ∃ rest, M.matchRecords float actual my out
        = ((windowsOf float actual).foldlM (M.count float my) ⟨out, 0⟩).map (·, rest) ∧
      ∀ p m, rest.find? p = some m ↔ my.find? p = some m ∧ ¬ M.Hit float actual p m := by
  obtain ⟨rest, hrun, hleaves, hfind⟩ := run_debts M (debtsOf actual) (nodup_debtsOf actual)
    ((timesIncrease_iff float).mp hactual) fun _ _ ↦ rfl
  refine ⟨rest, ?_, fun p m ↦ ?_⟩
  · rw [Matcher.matchRecords, windowsOf, ← hrun, debtsOf, foldlM_flatMap]
    refine foldlM_congr_of_forall (fun e _ s ↦ ?_) _
    rw [matchUser_eq, List.foldlM_map]
  rcases htimes : actual.leaf p.1 p.2.1 with _ | times
  · -- the loops do not come to this debt
    have hdebt : (p.1, p.2.1) ∉ (debtsOf actual).map fun q ↦ (q.1, q.2.1) := by
      intro hmem
      obtain ⟨q, hq, heq⟩ := List.mem_map.mp hmem
      obtain ⟨hu, hd⟩ := Prod.mk.inj heq
      rw [← hu, ← hd, mem_debtsOf_iff.mp hq] at htimes
      exact Option.some_ne_none q.2.2 htimes
    have hkept : rest.find? p = my.find? p := by
      rw [find?, hleaves _ _ hdebt]
      rfl
    rw [hkept]
    exact (and_iff_left (not_hit_of_leaf_eq_none M htimes m)).symm
  · have hp := hfind (p.1, p.2.1, times) (mem_debtsOf_iff.mpr htimes) p.2.2
    constructor
    · intro hm
      have hm' := hp.symm.trans hm
      rw [Option.ite_none_left_eq_some] at hm'
      exact ⟨hm'.2, mt (mem_taken_iff M htimes hm'.2).mpr hm'.1⟩
    · rintro ⟨hm, hnot⟩
      refine hp.trans ?_
      rw [if_neg (mt (mem_taken_iff M htimes hm).mp hnot)]
      exact hm

end Loops

end CompoundLiquidation
