import CompoundLiquidation.Analysis.Matching
import CompoundLiquidation.Python.Json

/-!
# The hit-rate report

`merge` writes down all liquidations: those on chain as `included`, with what was signalled for
them, or as `not_include`, and the own ones that belong to none of them as `unmatched`. A window may
hold several own records, and a liquidation on chain may come more than two blocks after one.

What `merge` attributes to a liquidation is read from `my_data` after the loop, which is the last
own record of the debt and not the one that was found; and an own record that is written under a
time that is also a time on chain takes the place of the liquidation there. So the report is right
exactly if no path is shared, and all own records that are found in a window agree with the last one
of the debt.
-/

namespace CompoundLiquidation

open Python

/-! ## The program -/

section Program

/-- `extraInfos` as `read_and_parse` writes them of an own record. -/
structure ExtraInfos where
  signalHash : String
  blockNum : ℤ

/-- A record; `merge` does not look at the `others`. On chain `extraInfos` is empty. -/
structure Liquidation (ρ : Type) where
  blockNum : ℤ
  params : List Json
  extraInfos : Option ExtraInfos
  others : ρ

/-- What is written down of an own record with the liquidation that it belongs to. -/
structure Attribution where
  myParams : List Json
  sigHash : String
  myBlockNum : ℤ

/-- `type`, and what is written down with it. -/
inductive MergeType where
  | included (a : Attribution)
  | notInclude
  | unmatched

/-- What is written down with the type. -/
def MergeType.attribution? : MergeType → Option Attribution
  | .included a => some a
  | .notInclude | .unmatched => none

theorem MergeType.attribution?_eq_some_iff {type : MergeType} {a : Attribution} :
    type.attribution? = some a ↔ type = .included a := by
  cases type with
  | included b => exact Option.some_inj.trans (MergeType.included.injEq b a).symm.to_iff
  | notInclude => exact iff_of_false nofun nofun
  | unmatched => exact iff_of_false nofun nofun

/-- A record of the report. -/
structure Merged (ρ : Type) where
  data : Liquidation ρ
  type : MergeType

variable {ρ : Type}

/-- What an own record says. -/
def Liquidation.attribution? (my : Liquidation ρ) : Option Attribution :=
  my.extraInfos.map fun ex ↦ ⟨my.params, ex.signalHash, ex.blockNum⟩

/-- The three entries that are read off an own record. -/
def Liquidation.attribution (my : Liquidation ρ) : Except Error Attribution :=
  okOr my.attribution? (.keyError "signalHash")

variable {τ : Type} [DecidableEq τ]

/-- What `merge` asks and writes down; the levels that `map_check` makes are those of `put`. -/
def merging : Matcher τ (Liquidation ρ) (Records τ (Merged ρ)) where
  near data my := data.blockNum - my.blockNum ≤ 2
  included path data _ my merged := do
    let attribution ← my.attribution
    return merged.put path ⟨data, .included attribution⟩
  notIncluded path data merged := merged.put path ⟨data, .notInclude⟩

/-- The loop over what is left of the copy. -/
def addUnmatched (notMatched : Records τ (Liquidation ρ)) (merged : Records τ (Merged ρ)) :
    Records τ (Merged ρ) :=
  notMatched.entries.foldl (fun merged u ↦ u.2.entries.foldl (fun merged d ↦ d.2.entries.foldl
    (fun merged e ↦ merged.put (u.1, d.1, e.1) ⟨e.2, .unmatched⟩) merged) merged) merged

/-- `merge`: `merged` and `skip`. -/
def merge [ToString τ] (float : τ → ℚ) (actual my : Records τ (Liquidation ρ)) :
    Except Error (Records τ (Merged ρ) × ℕ) := do
  let (tally, notMatched) ← merging.matchRecords float actual my ∅
  return (addUnmatched notMatched tally.out, tally.skip)

end Program

/-! ## What is asked of the report -/

section Report

variable {τ ρ : Type} [DecidableEq τ] (float : τ → ℚ) (actual my : Records τ (Liquidation ρ))

/-- The report attributes the records correctly. -/
structure Attributed (merged : Records τ (Merged ρ)) : Prop where
  /-- A liquidation on chain is there at its own path. -/
  kept : ∀ p data, actual.find? p = some data →
    ∃ type, merged.find? p = some ⟨data, type⟩ ∧ type ≠ .unmatched
  /-- What is attributed to it is from an own record that is found in its window. -/
  matched : ∀ p data a, merged.find? p = some ⟨data, .included a⟩ →
    ∃ w ∈ windowsOf float actual, w.path = p ∧ w.data = data ∧
      ∃ r ∈ merging.found float my w, r.2.attribution? = some a
  /-- An own record is there as such a match, or at its own path. -/
  own : ∀ p m, my.find? p = some m →
    (∃ w ∈ windowsOf float actual, w.user = p.1 ∧ w.debt = p.2.1 ∧
      (p.2.2, m) ∈ merging.found float my w ∧
      ∃ a, m.attribution? = some a ∧ merged.find? w.path = some ⟨w.data, .included a⟩) ∨
    merged.find? p = some ⟨m, .unmatched⟩

/-- No own record has the time of a liquidation on chain of its user and debt. -/
def NoSharedPath : Prop := ∀ p data m, actual.find? p = some data → my.find? p ≠ some m

/-- The own records that are found in a window say the same as the last one of the debt. -/
def AgreeWithLast : Prop :=
  ∀ w ∈ windowsOf float actual, ∀ r ∈ merging.found float my w,
    ∀ last ∈ (ownRecords my w.user w.debt).getLast?, r.2.attribution? = last.2.attribution?

/-- All own records have `extraInfos`. -/
def AllSignalled : Prop := ∀ p m, my.find? p = some m → m.extraInfos.isSome

theorem allSignalled_iff : AllSignalled my ↔ ∀ e ∈ my.items, e.2.extraInfos.isSome := by
  constructor
  · exact fun h e he ↦ h e.1 e.2 (Nested.mem_items_iff.mp he)
  · exact fun h p m hm ↦ h (p, m) (Nested.mem_items_iff.mpr hm)

end Report

/-! ## What is written -/

section Written

variable {τ ρ : Type} [DecidableEq τ] {float : τ → ℚ} {actual my : Records τ (Liquidation ρ)}

/-- The type of the liquidation at the end of a window. -/
def windowType (float : τ → ℚ) (my : Records τ (Liquidation ρ))
    (w : TimeWindow τ (Liquidation ρ)) : MergeType :=
  match (merging.found float my w).getLast?, (ownRecords my w.user w.debt).getLast? with
  | some _, some last => (last.2.attribution?.map .included).getD .notInclude
  | _, _ => .notInclude

/-- The record of the liquidation at the end of a window. -/
def windowEntry (float : τ → ℚ) (my : Records τ (Liquidation ρ))
    (w : TimeWindow τ (Liquidation ρ)) : (String × String × τ) × Merged ρ :=
  (w.path, ⟨w.data, windowType float my w⟩)

theorem windowType_of_found_eq_nil {w : TimeWindow τ (Liquidation ρ)}
    (h : merging.found float my w = []) : windowType float my w = .notInclude := by
  rw [windowType, h]
  rfl

/-- Where something is found, the last own record of the debt speaks. -/
theorem windowType_of_mem_found (hall : AllSignalled my) {w : TimeWindow τ (Liquidation ρ)}
    {r : τ × Liquidation ρ} (h : r ∈ merging.found float my w) :
    ∃ last ∈ (ownRecords my w.user w.debt).getLast?, ∃ a, last.2.attribution? = some a ∧
      windowType float my w = .included a := by
  obtain ⟨target, htarget⟩ := exists_getLast?_of_mem h
  obtain ⟨last, hlast⟩ := exists_getLast?_of_mem (List.mem_of_mem_filter h)
  have hsignalled := hall _ _ (mem_ownRecords_iff.mp (List.mem_of_getLast? hlast))
  obtain ⟨ex, hex⟩ := Option.isSome_iff_exists.mp hsignalled
  have ha : last.2.attribution? = some ⟨last.2.params, ex.signalHash, ex.blockNum⟩ := by
    rw [Liquidation.attribution?, hex, Option.map_some]
  refine ⟨last, hlast, _, ha, ?_⟩
  rw [windowType, htarget, hlast]
  simp only [ha, Option.map_some, Option.getD_some]

theorem windowType_cases (hall : AllSignalled my) (w : TimeWindow τ (Liquidation ρ)) :
    (merging.found float my w = [] ∧ windowType float my w = .notInclude) ∨
    ∃ r ∈ merging.found float my w, ∃ last ∈ (ownRecords my w.user w.debt).getLast?,
      ∃ a, last.2.attribution? = some a ∧ windowType float my w = .included a := by
  by_cases hfound : merging.found float my w = []
  · exact .inl ⟨hfound, windowType_of_found_eq_nil hfound⟩
  · obtain ⟨r, hr⟩ := List.exists_mem_of_ne_nil _ hfound
    exact .inr ⟨r, hr, windowType_of_mem_found hall hr⟩

theorem windowType_ne_unmatched (hall : AllSignalled my) (w : TimeWindow τ (Liquidation ρ)) :
    windowType float my w ≠ .unmatched := by
  rcases windowType_cases hall w with ⟨-, htype⟩ | ⟨-, -, -, -, a, -, htype⟩
  · rw [htype]
    exact nofun
  · rw [htype]
    exact nofun

/-- One window: the liquidation is written under its path. -/
theorem count_merging (hall : AllSignalled my) (w : TimeWindow τ (Liquidation ρ))
    (tally : Tally (Records τ (Merged ρ))) :
    merging.count float my tally w
      = .ok { tally with out := tally.out.put w.path (windowEntry float my w).2 } := by
  rcases windowType_cases hall w with ⟨hfound, htype⟩ | ⟨r, hr, last, hlast, a, ha, htype⟩
  · rw [count_of_found_eq_nil merging hfound, windowEntry, htype]
    rfl
  · obtain ⟨target, htarget⟩ := exists_getLast?_of_mem hr
    obtain ⟨last', hlast', hcount⟩ := count_of_target merging htarget
    obtain rfl := Option.some.inj (hlast.symm.trans hlast')
    rw [hcount, windowEntry, htype]
    simp only [merging, Liquidation.attribution, ha, okOr_some, ok_bind]
    rfl

theorem foldlM_count_merging (hall : AllSignalled my) (ws : List (TimeWindow τ (Liquidation ρ))) :
    ws.foldlM (merging.count float my) ⟨∅, 0⟩
      = .ok ⟨(ws.map (windowEntry float my)).foldl (fun m e ↦ m.put e.1 e.2) ∅, 0⟩ := by
  induction ws using List.reverseRecOn with
  | nil => rfl
  | append_singleton ws w ih =>
    rw [List.foldlM_append, ih, ok_bind, List.foldlM_cons, count_merging hall, List.map_append,
      List.foldl_append]
    rfl

/-- What `merge` writes: the own records that are found in no window, over the liquidations. -/
structure Written (float : τ → ℚ) (actual my : Records τ (Liquidation ρ))
    (merged : Records τ (Merged ρ)) : Prop where
  unmatched : ∀ p m, my.find? p = some m → ¬ merging.Hit float actual p m →
    merged.find? p = some ⟨m, .unmatched⟩
  window : ∀ w ∈ windowsOf float actual, my.find? w.path = none →
    merged.find? w.path = some ⟨w.data, windowType float my w⟩
  only : ∀ p v, merged.find? p = some v →
    (∃ m, my.find? p = some m ∧ ¬ merging.Hit float actual p m ∧ v = ⟨m, .unmatched⟩) ∨
    ∃ w ∈ windowsOf float actual, w.path = p ∧ v = ⟨w.data, windowType float my w⟩

/-- The record of an own record that is left. -/
def unmatchedEntry (e : (String × String × τ) × Liquidation ρ) :
    (String × String × τ) × Merged ρ := (e.1, ⟨e.2, .unmatched⟩)

theorem find?_addUnmatched {notMatched : Records τ (Liquidation ρ)} {merged : Records τ (Merged ρ)}
    {p : String × String × τ} {v : Merged ρ} :
    (addUnmatched notMatched merged).find? p = some v ↔
      (∃ m, notMatched.find? p = some m ∧ v = ⟨m, .unmatched⟩) ∨
        notMatched.find? p = none ∧ merged.find? p = some v := by
  have hmem : ∀ v, (p, v) ∈ notMatched.items.map unmatchedEntry ↔
      ∃ m, notMatched.find? p = some m ∧ v = ⟨m, .unmatched⟩ := by
    intro v
    rw [List.mem_map]
    constructor
    · rintro ⟨e, he, heq⟩
      obtain ⟨rfl, rfl⟩ := Prod.mk.inj heq
      exact ⟨e.2, Nested.mem_items_iff.mp he, rfl⟩
    · rintro ⟨m, hm, rfl⟩
      exact ⟨(p, m), Nested.mem_items_iff.mpr hm, rfl⟩
  have hnd : ((notMatched.items.map unmatchedEntry).map Prod.fst).Nodup := by
    rw [List.map_map]
    exact notMatched.nodup_items
  have hloop : addUnmatched notMatched merged
      = (notMatched.items.map unmatchedEntry).foldl (fun m e ↦ m.put e.1 e.2) merged := by
    rw [List.foldl_map]
    exact Nested.foldl_items notMatched (fun m q data ↦ m.put q ⟨data, .unmatched⟩) merged
  rw [hloop, Nested.find?_foldl_put_of_nodup hnd, hmem]
  refine or_congr_right (and_congr_left fun _ ↦ ?_)
  rw [Option.eq_none_iff_forall_ne_some]
  constructor
  · exact fun h m hm ↦ h ⟨m, .unmatched⟩ ((hmem _).mpr ⟨m, hm, rfl⟩)
  · intro h v' hv'
    obtain ⟨m, hm, -⟩ := (hmem v').mp hv'
    exact h m hm

/-- `merge` returns, whatever own records are found. -/
theorem merge_eq [ToString τ] (hactual : TimesIncrease float actual) (hall : AllSignalled my) :
    ∃ merged, merge float actual my = .ok (merged, 0) ∧ Written float actual my merged := by
  obtain ⟨rest, hrun, hrest⟩ := matchRecords_eq merging hactual my (∅ : Records τ (Merged ρ))
  rw [foldlM_count_merging hall] at hrun
  have hnd : (((windowsOf float actual).map (windowEntry float my)).map Prod.fst).Nodup := by
    rw [List.map_map]
    exact nodup_map_windowsOf float actual
  refine ⟨_, by rw [merge, hrun]; rfl, ?_⟩
  have hfind : ∀ p v, (addUnmatched rest (((windowsOf float actual).map
      (windowEntry float my)).foldl (fun m e ↦ m.put e.1 e.2) ∅)).find? p = some v ↔
      (∃ m, rest.find? p = some m ∧ v = ⟨m, .unmatched⟩) ∨ rest.find? p = none ∧
        ∃ w ∈ windowsOf float actual, w.path = p ∧ v = ⟨w.data, windowType float my w⟩ := by
    intro p v
    rw [find?_addUnmatched, Nested.find?_foldl_put_empty hnd, List.mem_map]
    simp only [windowEntry, Prod.mk.injEq, eq_comm (a := v)]
  constructor
  · intro p m hm hnot
    exact (hfind p _).mpr (.inl ⟨m, (hrest p m).mpr ⟨hm, hnot⟩, rfl⟩)
  · intro w hw hnone
    refine (hfind w.path _).mpr (.inr ⟨?_, w, hw, rfl, rfl⟩)
    apply Option.eq_none_iff_forall_ne_some.mpr
    intro m hm
    rw [((hrest w.path m).mp hm).1] at hnone
    cases hnone
  · intro p v hv
    rcases (hfind p v).mp hv with ⟨m, hm, rfl⟩ | ⟨-, hw⟩
    · obtain ⟨hmy, hnot⟩ := (hrest p m).mp hm
      exact .inl ⟨m, hmy, hnot, rfl⟩
    · exact .inr hw

end Written

/-! ## When the report is right -/

section Attribution

variable {τ ρ : Type} [DecidableEq τ] {float : τ → ℚ} {actual my : Records τ (Liquidation ρ)}
  {merged : Records τ (Merged ρ)}

/-- An own record with the time of a liquidation is found in no window. -/
theorem not_hit_of_actual (hactual : TimesIncrease float actual) {p : String × String × τ}
    {data m : Liquidation ρ} (hp : actual.find? p = some data) :
    ¬ merging.Hit float actual p m := by
  rintro ⟨w, hw, huser, hdebt, hhit⟩
  obtain ⟨⟨hleft, htime⟩, -⟩ := (hits_iff merging).mp hhit
  have hfind : actual.find? (w.user, w.debt, p.2.2) = some data := by
    rw [huser, hdebt]
    exact hp
  rcases hactual.le_left_or_time_le hw hfind with hle | hle
  · exact absurd hleft (not_lt.mpr hle)
  · exact absurd htime (not_lt.mpr hle)

theorem noSharedPath_of_attributed (hactual : TimesIncrease float actual)
    (h : Attributed float actual my merged) : NoSharedPath actual my := by
  intro p data m hp hm
  obtain ⟨type, htype, hne⟩ := h.kept p data hp
  rcases h.own p m hm with ⟨w, hw, huser, hdebt, hfound, -⟩ | hown
  · exact not_hit_of_actual hactual hp
      ⟨w, hw, huser, hdebt, ((mem_found_iff merging).mp hfound).2⟩
  · rw [htype] at hown
    exact hne (congrArg Merged.type (Option.some.inj hown))

theorem agreeWithLast_of_attributed (hactual : TimesIncrease float actual) (hall : AllSignalled my)
    (hwritten : Written float actual my merged) (h : Attributed float actual my merged) :
    AgreeWithLast float actual my := by
  intro w hw r hr last hlast
  obtain ⟨last', hlast', a, ha, htype⟩ := windowType_of_mem_found hall hr
  obtain rfl := Option.some.inj (hlast.symm.trans hlast')
  obtain ⟨hmy, hhit⟩ := (mem_found_iff merging).mp hr
  have hbounds := ((hits_iff merging).mp hhit).1
  rcases h.own _ _ hmy with ⟨w', hw', huser, hdebt, hfound', a', ha', hincluded⟩ | hown
  · -- it can only be in the report with the liquidation of this window
    have hbounds' := ((hits_iff merging).mp ((mem_found_iff merging).mp hfound').2).1
    obtain rfl := hactual.window_eq hw hw' huser hdebt hbounds hbounds'
    rcases hwritten.only _ _ hincluded with ⟨m, -, -, heq⟩ | ⟨w', hw', hpath, heq⟩
    · cases congrArg Merged.type heq
    · obtain rfl := List.inj_on_of_nodup_map (nodup_map_windowsOf float actual) hw' hw hpath
      have heq := congrArg Merged.type heq
      simp only [htype, MergeType.included.injEq] at heq
      rw [ha, ha', heq]
  · rcases hwritten.only _ _ hown with ⟨m, hm, hnot, -⟩ | ⟨w', -, -, heq⟩
    · obtain rfl := Option.some.inj (hmy.symm.trans hm)
      exact absurd ⟨w, hw, rfl, rfl, hhit⟩ hnot
    · exact absurd (congrArg Merged.type heq).symm (windowType_ne_unmatched hall w')

theorem attributed_of_agree (hall : AllSignalled my) (hwritten : Written float actual my merged)
    (hpath : NoSharedPath actual my) (hagree : AgreeWithLast float actual my) :
    Attributed float actual my merged := by
  have hwindow : ∀ w ∈ windowsOf float actual,
      merged.find? w.path = some ⟨w.data, windowType float my w⟩ := fun w hw ↦
    hwritten.window w hw (Option.eq_none_iff_forall_ne_some.mpr fun m ↦
      hpath w.path w.data m (find?_of_mem_windowsOf float hw))
  constructor
  · intro p data hp
    obtain ⟨w, hw, rfl, rfl⟩ := exists_window_of_find? float hp
    exact ⟨_, hwindow w hw, windowType_ne_unmatched hall w⟩
  · intro p data a hp
    rcases hwritten.only _ _ hp with ⟨m, -, -, heq⟩ | ⟨w, hw, hwpath, heq⟩
    · cases congrArg Merged.type heq
    · refine ⟨w, hw, hwpath, (congrArg Merged.data heq).symm, ?_⟩
      have htype : windowType float my w = .included a := (congrArg Merged.type heq).symm
      rcases windowType_cases hall w with ⟨-, htype'⟩ | ⟨r, hr, last, hlast, a', ha', htype'⟩
      · cases htype.symm.trans htype'
      · obtain rfl := MergeType.included.inj (htype.symm.trans htype')
        exact ⟨r, hr, (hagree w hw r hr last hlast).trans ha'⟩
  · intro p m hm
    by_cases hhit : merging.Hit float actual p m
    · obtain ⟨w, hw, huser, hdebt, hhit⟩ := hhit
      have hr : (p.2.2, m) ∈ merging.found float my w := by
        rw [mem_found_iff, huser, hdebt]
        exact ⟨hm, hhit⟩
      obtain ⟨last, hlast, a, ha, htype⟩ := windowType_of_mem_found hall hr
      refine .inl ⟨w, hw, huser, hdebt, hr, a, (hagree w hw _ hr last hlast).trans ha, ?_⟩
      rw [hwindow w hw, htype]
    · exact .inr (hwritten.unmatched p m hm hhit)

/-- **When the report is right.** `merge` returns a report that attributes the records correctly
exactly if no own record has the time of a liquidation on chain, and all that are found in a window
say the same as the last own record of the debt. -/
theorem merge_attributed_iff [ToString τ] (hactual : TimesIncrease float actual)
    (hall : AllSignalled my) :
    (∃ merged skip, merge float actual my = .ok (merged, skip) ∧
      Attributed float actual my merged) ↔
      NoSharedPath actual my ∧ AgreeWithLast float actual my := by
  obtain ⟨merged, hmerge, hwritten⟩ := merge_eq hactual hall
  constructor
  · rintro ⟨merged', skip, hmerge', h⟩
    obtain ⟨rfl, -⟩ := Prod.mk.inj (Except.ok.inj (hmerge.symm.trans hmerge'))
    exact ⟨noSharedPath_of_attributed hactual h,
      agreeWithLast_of_attributed hactual hall hwritten h⟩
  · rintro ⟨hpath, hagree⟩
    exact ⟨merged, 0, hmerge, attributed_of_agree hall hwritten hpath hagree⟩

end Attribution

/-- One liquidation on chain. -/
def oneLiquidation : Records ℤ (Liquidation Unit) :=
  ⟨[("alice", ⟨[("vBNB", ⟨[(100, ⟨10, [.str "alice", .int 7], none, ()⟩)], by decide⟩)],
    by decide⟩)], by decide⟩

/-- An own record that belongs to it, and one from after it. -/
def twoSignals : Records ℤ (Liquidation Unit) :=
  ⟨[("alice", ⟨[("vBNB", ⟨[
    (50, ⟨10, [.str "alice", .int 7], some ⟨"0x0a", 10⟩, ()⟩),
    (150, ⟨15, [.str "alice", .int 9], some ⟨"0x0b", 15⟩, ()⟩)], by decide⟩)],
    by decide⟩)], by decide⟩

theorem merge_attributed_iff_twoSignals :
    (∃ merged skip, merge (fun t : ℤ ↦ (t : ℚ)) oneLiquidation twoSignals = .ok (merged, skip) ∧
      Attributed (fun t : ℤ ↦ (t : ℚ)) oneLiquidation twoSignals merged) ↔
      NoSharedPath oneLiquidation twoSignals ∧
        AgreeWithLast (fun t : ℤ ↦ (t : ℚ)) oneLiquidation twoSignals :=
  merge_attributed_iff ((timesIncrease_iff _).mpr (by decide))
    ((allSignalled_iff _).mpr (by decide))

/-- What is attributed to the liquidation is the own record from after it. -/
theorem merge_twoSignals_not_attributed :
    TimesIncrease (fun t : ℤ ↦ (t : ℚ)) oneLiquidation ∧
    TimesIncrease (fun t : ℤ ↦ (t : ℚ)) twoSignals ∧ AllSignalled twoSignals ∧
    ¬ ∃ merged skip,
      merge (fun t : ℤ ↦ (t : ℚ)) oneLiquidation twoSignals = .ok (merged, skip) ∧
        Attributed (fun t : ℤ ↦ (t : ℚ)) oneLiquidation twoSignals merged := by
  refine ⟨(timesIncrease_iff _).mpr (by decide), (timesIncrease_iff _).mpr (by decide),
    (allSignalled_iff _).mpr (by decide), ?_⟩
  rintro ⟨merged, skip, hmerge, h⟩
  have hhash : ((merge (fun t : ℤ ↦ (t : ℚ)) oneLiquidation twoSignals).toOption.bind
      (fun r ↦ r.1.find? ("alice", "vBNB", 100))).bind (·.type.attribution?.map (·.sigHash))
        = some "0x0b" := by
    decide +kernel
  have hfound : ∀ w ∈ windowsOf (fun t : ℤ ↦ (t : ℚ)) oneLiquidation,
      ∀ r ∈ merging.found (fun t : ℤ ↦ (t : ℚ)) twoSignals w,
        r.2.attribution?.map (·.sigHash) = some "0x0a" := by
    decide +kernel
  rw [hmerge] at hhash
  obtain ⟨⟨data, type⟩, hdata, htype⟩ := Option.bind_eq_some_iff.mp hhash
  obtain ⟨a, ha, hb⟩ := Option.map_eq_some_iff.mp htype
  obtain rfl := MergeType.attribution?_eq_some_iff.mp ha
  obtain ⟨w, hw, -, -, r, hr, hattribution⟩ := h.matched _ _ _ hdata
  have hsame := hfound w hw r hr
  rw [hattribution, Option.map_some, hb] at hsame
  exact absurd (Option.some.inj hsame) (by decide)

end CompoundLiquidation
