import Mathlib.Data.List.Nodup

/-!
# Arrangements of a list

`itertools.permutations(l, r)` lists the ordered selections of `r` positions of `l`, in
lexicographic order of the positions. Equal elements at different positions are different, so the
selection is made position by position and the rest of the list is carried along.
-/

namespace Python

variable {α : Type*}

/-- Each element of a list together with the list without that position. -/
def picks : List α → List (α × List α)
  | [] => []
  | a :: l => (a, l) :: (picks l).map fun p ↦ (p.1, a :: p.2)

/-- `itertools.permutations(l, r)`. -/
def permutations : ℕ → List α → List (List α)
  | 0, _ => [[]]
  | r + 1, l => (picks l).flatMap fun p ↦ (permutations r p.2).map (p.1 :: ·)

theorem map_fst_picks (l : List α) : (picks l).map Prod.fst = l := by
  induction l with
  | nil => rfl
  | cons a l ih => rw [picks, List.map_cons, List.map_map, Function.comp_def, ih]

theorem mem_of_mem_picks {l : List α} {p : α × List α} (h : p ∈ picks l) :
    p.1 ∈ l ∧ ∀ b ∈ p.2, b ∈ l := by
  induction l generalizing p with
  | nil => simp [picks] at h
  | cons a l ih =>
    rw [picks, List.mem_cons, List.mem_map] at h
    rcases h with rfl | ⟨q, hq, rfl⟩
    · exact ⟨List.mem_cons_self, fun b hb ↦ List.mem_cons_of_mem a hb⟩
    · obtain ⟨hfst, hsnd⟩ := ih hq
      refine ⟨List.mem_cons_of_mem a hfst, fun b hb ↦ ?_⟩
      rcases List.mem_cons.mp hb with rfl | hb
      · exact List.mem_cons_self
      · exact List.mem_cons_of_mem a (hsnd b hb)

/-- An arrangement consists of elements of the list. -/
theorem mem_of_mem_permutations {r : ℕ} {l res : List α} (h : res ∈ permutations r l) :
    ∀ a ∈ res, a ∈ l := by
  induction r generalizing l res with
  | zero =>
    rw [permutations, List.mem_singleton] at h
    simp [h]
  | succ r ih =>
    rw [permutations, List.mem_flatMap] at h
    obtain ⟨p, hp, hres⟩ := h
    obtain ⟨tail, htail, rfl⟩ := List.mem_map.mp hres
    obtain ⟨hfst, hsnd⟩ := mem_of_mem_picks hp
    intro a ha
    rcases List.mem_cons.mp ha with rfl | ha
    · exact hfst
    · exact hsnd a (ih htail a ha)

/-- Every element is an arrangement of length one. -/
theorem singleton_mem_permutations {l : List α} {a : α} (h : a ∈ l) : [a] ∈ permutations 1 l := by
  rw [← map_fst_picks l, List.mem_map] at h
  obtain ⟨p, hp, rfl⟩ := h
  rw [permutations, List.mem_flatMap]
  exact ⟨p, hp, List.mem_map.mpr ⟨[], List.mem_singleton_self _, rfl⟩⟩

/-! ## Arrangements of distinct elements -/

/-- A pick splits the list at its element. -/
theorem mem_picks_iff {l : List α} {p : α × List α} :
    p ∈ picks l ↔ ∃ front back, l = front ++ p.1 :: back ∧ p.2 = front ++ back := by
  induction l generalizing p with
  | nil => simp [picks]
  | cons a l ih =>
    rw [picks, List.mem_cons, List.mem_map]
    constructor
    · rintro (rfl | ⟨q, hq, rfl⟩)
      · exact ⟨[], l, rfl, rfl⟩
      · obtain ⟨front, back, hl, hrest⟩ := ih.mp hq
        exact ⟨a :: front, back, congrArg (a :: ·) hl, congrArg (a :: ·) hrest⟩
    · rintro ⟨front, back, hl, hrest⟩
      rcases front with _ | ⟨b, front⟩
      · obtain ⟨hfst, hsnd⟩ := List.cons.inj hl
        exact .inl (Prod.ext hfst.symm (hrest.trans hsnd.symm))
      · obtain ⟨rfl, rfl⟩ := List.cons.inj hl
        exact .inr ⟨(p.1, front ++ back), ih.mpr ⟨front, back, rfl, rfl⟩,
          Prod.ext rfl hrest.symm⟩

/-- The arrangements of a list without duplicates are the selections without repetition. -/
theorem mem_permutations_iff {r : ℕ} {l res : List α} (hl : l.Nodup) :
    res ∈ permutations r l ↔ res.Nodup ∧ (∀ a ∈ res, a ∈ l) ∧ res.length = r := by
  induction r generalizing l res with
  | zero =>
    rw [permutations, List.mem_singleton, List.length_eq_zero_iff]
    constructor
    · rintro rfl
      exact ⟨List.nodup_nil, fun _ ha ↦ absurd ha List.not_mem_nil, rfl⟩
    · exact fun h ↦ h.2.2
  | succ r ih =>
    rw [permutations, List.mem_flatMap]
    constructor
    · rintro ⟨p, hp, hres⟩
      obtain ⟨tail, htail, rfl⟩ := List.mem_map.mp hres
      obtain ⟨front, back, rfl, hrest⟩ := mem_picks_iff.mp hp
      obtain ⟨hnotin, hnodup⟩ := List.nodup_cons.mp (List.nodup_middle.mp hl)
      rw [← hrest] at hnotin hnodup
      obtain ⟨htail', hsub, hlen⟩ := (ih hnodup).mp htail
      refine ⟨List.nodup_cons.mpr ⟨fun h ↦ hnotin (hsub _ h), htail'⟩, fun a ha ↦ ?_,
        congrArg (· + 1) hlen⟩
      rcases List.mem_cons.mp ha with rfl | ha
      · exact List.mem_append_right front List.mem_cons_self
      · have := hsub a ha
        rw [hrest, List.mem_append] at this
        exact this.elim (List.mem_append_left _)
          fun h ↦ List.mem_append_right front (List.mem_cons_of_mem _ h)
    · rintro ⟨hnodup, hsub, hlen⟩
      obtain ⟨a, tail, rfl⟩ := List.exists_cons_of_length_eq_add_one hlen
      obtain ⟨front, back, rfl⟩ := List.append_of_mem (hsub a List.mem_cons_self)
      obtain ⟨hnotin, htail⟩ := List.nodup_cons.mp hnodup
      refine ⟨(a, front ++ back), mem_picks_iff.mpr ⟨front, back, rfl, rfl⟩,
        List.mem_map.mpr ⟨tail, ?_, rfl⟩⟩
      refine (ih (List.nodup_cons.mp (List.nodup_middle.mp hl)).2).mpr
        ⟨htail, fun b hb ↦ ?_, Nat.succ.inj hlen⟩
      have hb' := hsub b (List.mem_cons_of_mem a hb)
      rw [List.mem_append, List.mem_cons] at hb'
      rw [List.mem_append]
      rcases hb' with hb' | rfl | hb'
      · exact .inl hb'
      · exact absurd hb hnotin
      · exact .inr hb'

end Python
