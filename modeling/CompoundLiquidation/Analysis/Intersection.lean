import CompoundLiquidation.Analysis.Matching

/-!
# The hit rate

`find_intersection` divides the liquidations on chain: those with an own record in their window are
`included`, those without are `not_included`, or skipped where the log has a gap. The percentages
that are printed only make sense if no liquidation is counted twice or not at all. What is returned
as `not_matched` is the own records that are in no window.
-/

namespace CompoundLiquidation

open Python

section Program

variable {τ ν : Type} [DecidableEq τ] [ToString τ] (float : τ → ℚ)

/-- The liquidations that are not included, and the others with the time of the own record. -/
structure Split (τ ν : Type) where
  notIncluded : Records τ ν
  included : List (String × String × τ × τ)

/-- What `find_intersection` asks and notes. -/
def intersection : Matcher τ ν (Split τ ν) where
  near _ _ := true
  included path _ target _ out :=
    .ok { out with included := out.included ++ [(path.1, path.2.1, target, path.2.2)] }
  notIncluded path data out := { out with notIncluded := out.notIncluded.put path data }

/-- `find_intersection`: `not_included`, `included`, `not_matched` and `skip`. -/
def findIntersection (actual my : Records τ ν) :
    Except Error (Records τ ν × List (String × String × τ × τ) × Records τ ν × ℕ) := do
  let (tally, notMatched) ← intersection.matchRecords float actual my ⟨∅, []⟩
  return (tally.out.notIncluded, tally.out.included, notMatched, tally.skip)

end Program

/-! ## The counts -/

section Counts

variable {τ ν : Type}

/-- The path of the liquidation in an entry of `included`. -/
def includedPath (e : String × String × τ × τ) : String × String × τ := (e.1, e.2.1, e.2.2.2)

/-- Every liquidation is counted once: as included, as not included, or as one of those skipped. -/
structure CountedOnce [DecidableEq τ] (float : τ → ℚ) (actual notIncluded : Records τ ν)
    (included : List (String × String × τ × τ)) (skip : ℕ) : Prop where
  once : ∃ skipped, skipped.length = skip ∧ (∀ p ∈ skipped, timeInRange float p.2.2 = true) ∧
    (included.map includedPath ++ notIncluded.items.map Prod.fst ++ skipped).Perm
      (actual.items.map Prod.fst)
  data : ∀ p data, notIncluded.find? p = some data → actual.find? p = some data

/-- The time is strictly between two of the times that follow each other, the first one after
`0`. -/
def InsideWindow (float : τ → ℚ) (times : List τ) (time : τ) : Prop :=
  ∃ before right after, times = before ++ right :: after ∧
    (before.getLast?.map float).getD 0 < float time ∧ float time < float right

end Counts

section Partition

variable {τ ν : Type} [DecidableEq τ] (float : τ → ℚ) (my : Records τ ν)

/-- The entry of `included` for a window. -/
def includedEntry (w : TimeWindow τ ν) : Option (String × String × τ × τ) :=
  (intersection.found float my w).getLast?.map fun target ↦ (w.user, w.debt, target.1, w.time)

/-- The window is skipped. -/
def isSkipped (w : TimeWindow τ ν) : Bool :=
  timeInRange float w.time && (includedEntry float my w).isNone

/-- The window is not included. -/
def isMissed (w : TimeWindow τ ν) : Bool :=
  !timeInRange float w.time && (includedEntry float my w).isNone

section OneWindow

variable {float my} {w : TimeWindow τ ν}

theorem includedEntry_of_found_eq_nil (h : intersection.found float my w = []) :
    includedEntry float my w = none := by
  rw [includedEntry, h, List.getLast?_nil, Option.map_none]

theorem includedEntry_of_target {target : τ × ν}
    (h : (intersection.found float my w).getLast? = some target) :
    includedEntry float my w = some (w.user, w.debt, target.1, w.time) := by
  rw [includedEntry, h, Option.map_some]

theorem isMissed_of_included {e : String × String × τ × τ} (h : includedEntry float my w = some e) :
    isMissed float my w = false := by
  rw [isMissed, h, Option.isNone_some, Bool.and_false]

theorem isSkipped_of_included {e : String × String × τ × τ}
    (h : includedEntry float my w = some e) : isSkipped float my w = false := by
  rw [isSkipped, h, Option.isNone_some, Bool.and_false]

theorem isMissed_of_not_included (h : includedEntry float my w = none) :
    isMissed float my w = !timeInRange float w.time := by
  rw [isMissed, h, Option.isNone_none, Bool.and_true]

theorem isSkipped_of_not_included (h : includedEntry float my w = none) :
    isSkipped float my w = timeInRange float w.time := by
  rw [isSkipped, h, Option.isNone_none, Bool.and_true]

end OneWindow

/-- The tally of the windows. -/
theorem foldlM_count_intersection (ws : List (TimeWindow τ ν)) :
    ws.foldlM (intersection.count float my) ⟨⟨∅, []⟩, 0⟩
      = .ok ⟨⟨((ws.filter (isMissed float my)).map fun w ↦ (w.path, w.data)).foldl
          (fun m e ↦ m.put e.1 e.2) ∅, ws.filterMap (includedEntry float my)⟩,
        (ws.filter (isSkipped float my)).length⟩ := by
  induction ws using List.reverseRecOn with
  | nil => rfl
  | append_singleton ws w ih =>
    rw [List.foldlM_append, ih, ok_bind, List.foldlM_cons, List.filter_append, List.filter_append,
      List.filterMap_append, List.filter_singleton, List.filter_singleton, List.map_append,
      List.foldl_append, List.length_append]
    rcases htarget : (intersection.found float my w).getLast? with _ | target
    · have hfound := List.getLast?_eq_none_iff.mp htarget
      have hentry := includedEntry_of_found_eq_nil hfound
      rw [count_of_found_eq_nil _ hfound, ok_bind, List.filterMap_cons_none hentry,
        List.filterMap_nil, List.append_nil, isMissed_of_not_included hentry,
        isSkipped_of_not_included hentry, Matcher.exclude, TimeWindow.path]
      cases timeInRange float w.time with
      | false => rfl
      | true => rfl
    · have hentry := includedEntry_of_target htarget
      obtain ⟨last, -, hcount⟩ := count_of_target _ htarget
      rw [hcount, List.filterMap_cons_some hentry, isMissed_of_included hentry,
        isSkipped_of_included hentry]
      rfl

theorem map_includedPath (ws : List (TimeWindow τ ν)) :
    (ws.filterMap (includedEntry float my)).map includedPath
      = (ws.filter fun w ↦ (includedEntry float my w).isSome).map TimeWindow.path := by
  induction ws with
  | nil => rfl
  | cons w ws ih =>
    rcases hentry : includedEntry float my w with _ | e
    · rw [List.filterMap_cons_none hentry, List.filter_cons_of_neg (by rw [hentry]; exact nofun),
        ih]
    · have hpath : includedPath e = w.path := by
        obtain ⟨target, -, rfl⟩ := Option.map_eq_some_iff.mp hentry
        rfl
      rw [List.filterMap_cons_some hentry, List.filter_cons_of_pos (by rw [hentry]; rfl),
        List.map_cons, List.map_cons, hpath, ih]

/-- The windows are divided. -/
theorem perm_windows (ws : List (TimeWindow τ ν)) :
    ((ws.filter fun w ↦ (includedEntry float my w).isSome) ++ ws.filter (isMissed float my)
      ++ ws.filter (isSkipped float my)).Perm ws := by
  have hsplit := List.filter_append_perm (fun w ↦ (includedEntry float my w).isSome) ws
  have hrest := List.filter_append_perm (fun w ↦ timeInRange float w.time)
    (ws.filter fun w ↦ (includedEntry float my w).isNone)
  simp only [Option.not_isSome] at hsplit
  rw [List.filter_filter, List.filter_filter] at hrest
  rw [List.append_assoc]
  exact ((List.perm_append_comm.trans hrest).append_left _).trans hsplit

theorem countedOnce (actual : Records τ ν) :
    CountedOnce float actual
      ((((windowsOf float actual).filter (isMissed float my)).map fun w ↦ (w.path, w.data)).foldl
        (fun m e ↦ m.put e.1 e.2) ∅)
      ((windowsOf float actual).filterMap (includedEntry float my))
      ((windowsOf float actual).filter (isSkipped float my)).length := by
  have hpaths : (windowsOf float actual).map TimeWindow.path = actual.items.map Prod.fst := by
    rw [← map_windowsOf float, List.map_map]
    rfl
  have hmissed : (((windowsOf float actual).filter (isMissed float my)).map
      fun w ↦ (w.path, w.data)).Sublist actual.items := by
    rw [← map_windowsOf float]
    exact List.filter_sublist.map _
  have hnd := actual.nodup_items.sublist (hmissed.map Prod.fst)
  refine ⟨⟨((windowsOf float actual).filter (isSkipped float my)).map TimeWindow.path,
    List.length_map _, fun p hp ↦ ?_, ?_⟩, fun p data hdata ↦ ?_⟩
  · obtain ⟨w, hw, rfl⟩ := List.mem_map.mp hp
    exact (Bool.and_eq_true_iff.mp (List.mem_filter.mp hw).2).1
  · have hnotIncluded := (Nested.items_foldl_put_empty hnd).map Prod.fst
    have hpath : (Prod.fst ∘ fun w : TimeWindow τ ν ↦ (w.path, w.data)) = TimeWindow.path := rfl
    rw [List.map_map, hpath] at hnotIncluded
    rw [map_includedPath, ← hpaths]
    refine ((hnotIncluded.append_left _).append_right _).trans ?_
    rw [← List.map_append, ← List.map_append]
    exact (perm_windows float my _).map TimeWindow.path
  · rw [Nested.find?_foldl_put_empty hnd] at hdata
    exact Nested.mem_items_iff.mp (hmissed.subset hdata)

/-- An own record is found if it is in a window of its debt. -/
theorem hit_intersection_iff {actual : Records τ ν} {p : String × String × τ} {m : ν} :
    intersection.Hit float actual p m ↔ ∃ times, actual.leaf p.1 p.2.1 = some times ∧
      InsideWindow float times.keys p.2.2 := by
  constructor
  · rintro ⟨w, hw, hu, hd, hhit⟩
    obtain ⟨⟨hleft, hright⟩, -⟩ := (hits_iff _).mp hhit
    obtain ⟨times, htimes, hfrom⟩ := (mem_windowsOf_iff float).mp hw
    obtain ⟨before, e, after, hentries, hwindow⟩ := (mem_windowsFrom_iff float _).mp hfrom
    rw [hwindow] at hleft hright
    refine ⟨times, by rw [← hu, ← hd, htimes], before.map Prod.fst, e.1, after.map Prod.fst,
      ?_, ?_, hright⟩
    · rw [Dict.keys, hentries, List.map_append, List.map_cons]
    · rw [List.getLast?_map, Option.map_map]
      exact hleft
  · rintro ⟨times, htimes, before, right, after, hkeys, hleft, hright⟩
    obtain ⟨front, rest, hentries, rfl, hrest⟩ := List.map_eq_append_iff.mp hkeys
    obtain ⟨e, back, rfl, rfl, rfl⟩ := List.map_eq_cons_iff.mp hrest
    rw [List.getLast?_map, Option.map_map] at hleft
    refine ⟨⟨p.1, p.2.1, _, e.1, e.2⟩, (mem_windowsOf_iff float).mpr ⟨times, htimes,
      (mem_windowsFrom_iff float _).mpr ⟨front, e, back, hentries, rfl⟩⟩, rfl, rfl, ?_⟩
    exact (hits_iff _).mpr ⟨⟨hleft, hright⟩, rfl⟩

/-- **The hit rate counts every liquidation once.** `find_intersection` returns, and what is left of
the own records is those that are in no window of their debt. -/
theorem findIntersection_partition [ToString τ] {float : τ → ℚ} {actual : Records τ ν}
    (hactual : TimesIncrease float actual) (my : Records τ ν) :
    ∃ notIncluded included notMatched skip,
      findIntersection float actual my = .ok (notIncluded, included, notMatched, skip) ∧
      CountedOnce float actual notIncluded included skip ∧
      (∀ p m, notMatched.find? p = some m → my.find? p = some m) ∧
      ∀ p m, my.find? p = some m → (notMatched.find? p = none ↔
        ∃ times, actual.leaf p.1 p.2.1 = some times ∧ InsideWindow float times.keys p.2.2) := by
  obtain ⟨rest, hrun, hrest⟩ := matchRecords_eq intersection hactual my ⟨∅, []⟩
  rw [foldlM_count_intersection] at hrun
  refine ⟨_, _, rest, _, ?_, countedOnce float my actual, fun p m hm ↦ ((hrest p m).mp hm).1,
    fun p m hm ↦ ?_⟩
  · rw [findIntersection, hrun]
    rfl
  · rw [← hit_intersection_iff float (m := m)]
    constructor
    · intro hnone
      by_contra hnot
      rw [(hrest p m).mpr ⟨hm, hnot⟩] at hnone
      cases hnone
    · intro hhit
      apply Option.eq_none_iff_forall_ne_some.mpr
      intro m' hm'
      obtain ⟨hmy, hnot⟩ := (hrest p m').mp hm'
      obtain rfl := Option.some.inj (hm.symm.trans hmy)
      exact hnot hhit

end Partition

/-- Two liquidations of a debt; the window of the first has two own records, the other none. -/
def twoLiquidations : Records ℤ String :=
  ⟨[("alice", ⟨[("vBNB", ⟨[(100, "0x01"), (200, "0x02")], by decide⟩)], by decide⟩)], by decide⟩

/-- Own records of the first window, and one that is after both. -/
def threeSignals : Records ℤ String :=
  ⟨[("alice", ⟨[("vBNB", ⟨[(40, "a"), (60, "b"), (300, "c")], by decide⟩)], by decide⟩)],
    by decide⟩

theorem findIntersection_partition_twoLiquidations :
    ∃ notIncluded included notMatched skip,
      findIntersection (fun t : ℤ ↦ (t : ℚ)) twoLiquidations threeSignals
        = .ok (notIncluded, included, notMatched, skip) ∧
      CountedOnce (fun t : ℤ ↦ (t : ℚ)) twoLiquidations notIncluded included skip ∧
      (∀ p m, notMatched.find? p = some m → threeSignals.find? p = some m) ∧
      ∀ p m, threeSignals.find? p = some m → (notMatched.find? p = none ↔
        ∃ times, twoLiquidations.leaf p.1 p.2.1 = some times ∧
          InsideWindow (fun t : ℤ ↦ (t : ℚ)) times.keys p.2.2) :=
  findIntersection_partition ((timesIncrease_iff _).mpr (by decide)) threeSignals

example : (findIntersection (fun t : ℤ ↦ (t : ℚ)) twoLiquidations threeSignals).toOption.map
    (fun r ↦ (r.2.1, r.2.2.2)) = some ([("alice", "vBNB", 60, 100)], 0) := by
  decide +kernel

end CompoundLiquidation
