import CompoundLiquidation.Python.Proc
import Mathlib.Data.List.Nodup

/-!
# Dictionaries of dictionaries of dictionaries

Records are often kept under three keys, one level of dictionaries for each. What matters to a
reader is the value at a path of keys, and at which paths there is one. Assignments make the levels
they need. Removals may leave empty levels behind, which a program then drops, and each of them
raises where a level it goes through is not there.

A removal is given with what it leaves alone: every other leaf, and the branch it is in.
-/

namespace Python

variable {α β γ ν : Type}

/-! ## Subscripts -/

section Subscript

variable {κ : Type} [DecidableEq κ] [ToString κ]

/-- `d[k]`. -/
def Dict.subscript (d : Dict κ ν) (k : κ) : Except Error ν :=
  okOr (d.get? k) (.keyError (toString k))

/-- `d.pop(k)`. -/
def Dict.pop (d : Dict κ ν) (k : κ) : Except Error (Dict κ ν) :=
  (d.subscript k).map fun _ ↦ d.erase k

theorem Dict.subscript_of_get? {d : Dict κ ν} {k : κ} {v : ν} (h : d.get? k = some v) :
    d.subscript k = .ok v := by
  rw [subscript, h, okOr_some]

theorem Dict.pop_of_get? {d : Dict κ ν} {k : κ} {v : ν} (h : d.get? k = some v) :
    d.pop k = .ok (d.erase k) := by
  rw [pop, subscript_of_get? h]
  rfl

end Subscript

/-! ## Paths -/

/-- Three levels of dictionaries. -/
abbrev Nested (α β γ ν : Type) := Dict α (Dict β (Dict γ ν))

namespace Nested

/-- The values with their paths, in the order of iteration. -/
def items (m : Nested α β γ ν) : List ((α × β × γ) × ν) :=
  m.entries.flatMap fun e ↦ e.2.entries.flatMap fun e' ↦ e'.2.entries.map fun e'' ↦
    ((e.1, e'.1, e''.1), e''.2)

/-- A loop over the three levels is a loop over the values. -/
theorem foldl_items {σ : Type} (m : Nested α β γ ν) (f : σ → α × β × γ → ν → σ) (s : σ) :
    m.entries.foldl (fun s e ↦ e.2.entries.foldl (fun s e' ↦ e'.2.entries.foldl
      (fun s e'' ↦ f s (e.1, e'.1, e''.1) e''.2) s) s) s
      = m.items.foldl (fun s p ↦ f s p.1 p.2) s := by
  simp only [items, List.foldl_flatMap, List.foldl_map]

/-- Lists behind different labels have nothing in common. -/
theorem nodup_flatMap_map {κ δ μ : Type} {l : List (κ × μ)} (h : (l.map Prod.fst).Nodup)
    {f : μ → List δ} (hf : ∀ e ∈ l, (f e.2).Nodup) :
    (l.flatMap fun e ↦ (f e.2).map (e.1, ·)).Nodup := by
  refine List.nodup_flatMap.mpr ⟨fun e he ↦ (hf e he).map fun _ _ h ↦ (Prod.mk.inj h).2, ?_⟩
  refine (List.pairwise_map.mp h).imp fun hne ↦ ?_
  intro p hp hp'
  apply hne
  obtain ⟨x, -, rfl⟩ := List.mem_map.mp hp
  obtain ⟨y, -, heq⟩ := List.mem_map.mp hp'
  exact (Prod.mk.inj heq).1.symm

/-- A path leads to one value. -/
theorem nodup_items (m : Nested α β γ ν) : (m.items.map Prod.fst).Nodup := by
  have hpaths : m.items.map Prod.fst = m.entries.flatMap fun e ↦
      (e.2.entries.flatMap fun e' ↦ e'.2.keys.map (e'.1, ·)).map (e.1, ·) := by
    simp only [items, List.map_flatMap, List.map_map, Dict.keys, Function.comp_def]
  rw [hpaths]
  have hleaves : ∀ d : Dict β (Dict γ ν),
      (d.entries.flatMap fun e' ↦ e'.2.keys.map (e'.1, ·)).Nodup := fun d ↦
    nodup_flatMap_map (f := Dict.keys) d.nodup_keys fun e' _ ↦ e'.2.nodup_keys
  exact nodup_flatMap_map m.nodup_keys (f := fun d : Dict β (Dict γ ν) ↦
    d.entries.flatMap fun e' ↦ e'.2.keys.map (e'.1, ·)) fun e _ ↦ hleaves e.2

/-! ## Leaves -/

variable [DecidableEq α] [DecidableEq β]

/-- The leaf under two keys. -/
def leaf (m : Nested α β γ ν) (a : α) (b : β) : Option (Dict γ ν) := (m.get? a).bind (·.get? b)

theorem leaf_getD (m : Nested α β γ ν) (a : α) (b : β) :
    (m.getD a ∅).get? b = m.leaf a b := by
  rw [leaf, Dict.getD]
  rcases m.get? a with _ | inner
  · rfl
  · rfl

theorem exists_branch_of_leaf {m : Nested α β γ ν} {a : α} {b : β} {d : Dict γ ν}
    (h : m.leaf a b = some d) :
    ∃ inner, m.get? a = some inner ∧ inner.get? b = some d := Option.bind_eq_some_iff.mp h

/-- Nothing has happened but below the two keys. -/
structure Apart (a : α) (b : β) (m m' : Nested α β γ ν) : Prop where
  leaves : ∀ a' b', (a', b') ≠ (a, b) → m'.leaf a' b' = m.leaf a' b'
  branch : (m.get? a).isSome → (m'.get? a).isSome

namespace Apart

variable {a : α} {b : β} {m m' m'' : Nested α β γ ν}

theorem refl (a : α) (b : β) (m : Nested α β γ ν) : Apart a b m m := ⟨fun _ _ _ ↦ rfl, id⟩

theorem trans (h : Apart a b m m') (h' : Apart a b m' m'') : Apart a b m m'' :=
  ⟨fun a' b' hne ↦ (h'.leaves a' b' hne).trans (h.leaves a' b' hne), h'.branch ∘ h.branch⟩

end Apart

theorem apart_set {m : Nested α β γ ν} {a : α} {b : β} {inner inner' : Dict β (Dict γ ν)}
    (h : m.get? a = some inner) (hinner : ∀ b', b' ≠ b → inner'.get? b' = inner.get? b') :
    Apart a b m (m.set a inner') where
  leaves a' b' hne := by
    rw [leaf, leaf, Dict.get?_set]
    by_cases ha : a' = a
    · subst ha
      rw [if_pos rfl, h, Option.bind_some, Option.bind_some]
      exact hinner b' fun hb ↦ hne (by rw [hb])
    · rw [if_neg ha]
  branch _ := by rw [Dict.get?_set_self, Option.isSome_some]

section Branch

variable [ToString α]

/-- `if len(m[a]) == 0: m.pop(a)`. -/
def dropBranch (m : Nested α β γ ν) (a : α) : Except Error (Nested α β γ ν) := do
  let inner ← m.subscript a
  if inner.entries.length = 0 then m.pop a else return m

theorem dropBranch_of_branch {m : Nested α β γ ν} {a : α} (h : (m.get? a).isSome) :
    ∃ m', m.dropBranch a = .ok m' ∧ ∀ a' b', m'.leaf a' b' = m.leaf a' b' := by
  obtain ⟨inner, hinner⟩ := Option.isSome_iff_exists.mp h
  rw [dropBranch, Dict.subscript_of_get? hinner, ok_bind]
  by_cases hempty : inner.entries.length = 0
  · refine ⟨m.erase a, by rw [if_pos hempty, Dict.pop_of_get? hinner], fun a' b' ↦ ?_⟩
    rw [leaf, leaf, Dict.get?_erase]
    by_cases ha : a' = a
    · rw [if_pos ha, ha, hinner, Option.bind_none, Option.bind_some, Dict.get?,
        List.eq_nil_of_length_eq_zero hempty]
      rfl
    · rw [if_neg ha]
  · exact ⟨m, if_neg hempty, fun _ _ ↦ rfl⟩

end Branch

/-! ## Values -/

variable [DecidableEq γ]

/-- The value at a path. -/
def find? (m : Nested α β γ ν) (p : α × β × γ) : Option ν := (m.leaf p.1 p.2.1).bind (·.get? p.2.2)

theorem mem_items_iff {m : Nested α β γ ν} {p : α × β × γ} {v : ν} :
    (p, v) ∈ m.items ↔ m.find? p = some v := by
  simp only [items, List.mem_flatMap, List.mem_map, find?, leaf, Option.bind_eq_some_iff,
    Dict.get?_eq_some_iff]
  constructor
  · rintro ⟨e, he, e', he', e'', he'', h⟩
    obtain ⟨rfl, rfl⟩ := Prod.mk.inj h
    exact ⟨e'.2, ⟨e.2, he, he'⟩, he''⟩
  · rintro ⟨leaf, ⟨inner, hinner, hleaf⟩, hv⟩
    exact ⟨(p.1, inner), hinner, (p.2.1, leaf), hleaf, (p.2.2, v), hv, rfl⟩

@[simp] theorem find?_empty (p : α × β × γ) : (∅ : Nested α β γ ν).find? p = none := rfl

theorem find?_eq_none_of_leaf {m : Nested α β γ ν} {p : α × β × γ} (h : m.leaf p.1 p.2.1 = none) :
    m.find? p = none := by
  rw [find?, h, Option.bind_none]

/-! ## Assignment -/

/-- `m[a][b][c] = v`, with the levels that are missing. -/
def put (m : Nested α β γ ν) (p : α × β × γ) (v : ν) : Nested α β γ ν :=
  let inner := m.getD p.1 ∅
  m.set p.1 (inner.set p.2.1 ((inner.getD p.2.1 ∅).set p.2.2 v))

theorem find?_put (m : Nested α β γ ν) (p q : α × β × γ) (v : ν) :
    (m.put p v).find? q = if q = p then some v else m.find? q := by
  obtain ⟨a, b, c⟩ := p
  obtain ⟨a', b', c'⟩ := q
  simp only [find?, put, Prod.mk.injEq]
  rw [leaf, Dict.get?_set]
  by_cases ha : a' = a
  · rw [if_pos ha, Option.bind_some, Dict.get?_set]
    by_cases hb : b' = b
    · rw [if_pos hb, Option.bind_some, Dict.get?_set, Dict.getD, leaf_getD, ha, hb]
      by_cases hc : c' = c
      · rw [if_pos hc, if_pos ⟨rfl, rfl, hc⟩]
      · rw [if_neg hc, if_neg fun h ↦ hc h.2.2]
        rcases m.leaf a b with _ | d
        · rfl
        · rfl
    · rw [if_neg hb, if_neg fun h ↦ hb h.2.1, leaf_getD, ha]
  · rw [if_neg ha, if_neg fun h ↦ ha h.1]
    rfl

/-- After a run of assignments a path has the last value assigned to it, or the one from before. -/
theorem find?_foldl_put (l : List ((α × β × γ) × ν)) (m : Nested α β γ ν) (q : α × β × γ) :
    (l.foldl (fun m e ↦ m.put e.1 e.2) m).find? q = (Dict.lastFor q l).or (m.find? q) := by
  induction l using List.reverseRecOn with
  | nil => rfl
  | append_singleton l e ih =>
    rw [List.foldl_append, List.foldl_cons, List.foldl_nil, find?_put, ih, Dict.lastFor,
      Dict.lastFor, List.filterMap_append]
    by_cases hq : q = e.1
    · simp [hq]
    · simp [hq, Ne.symm hq]

/-- A run that gives each path once. -/
theorem find?_foldl_put_of_nodup {l : List ((α × β × γ) × ν)} (h : (l.map Prod.fst).Nodup)
    {m : Nested α β γ ν} {q : α × β × γ} {v : ν} :
    (l.foldl (fun m e ↦ m.put e.1 e.2) m).find? q = some v ↔
      (q, v) ∈ l ∨ (∀ v', (q, v') ∉ l) ∧ m.find? q = some v := by
  have hlast : Dict.lastFor q l = (⟨l, h⟩ : Dict (α × β × γ) ν).get? q :=
    Dict.lastFor_entries ⟨l, h⟩ q
  have hmem : ∀ v, Dict.lastFor q l = some v ↔ (q, v) ∈ l := by
    intro v
    rw [hlast]
    exact Dict.get?_eq_some_iff
  simp only [find?_foldl_put, Option.or_eq_some_iff, Option.eq_none_iff_forall_ne_some, ne_eq, hmem]

theorem find?_foldl_put_empty {l : List ((α × β × γ) × ν)} (h : (l.map Prod.fst).Nodup)
    {q : α × β × γ} {v : ν} :
    (l.foldl (fun m e ↦ m.put e.1 e.2) (∅ : Nested α β γ ν)).find? q = some v ↔ (q, v) ∈ l := by
  rw [find?_foldl_put_of_nodup h, find?_empty]
  exact or_iff_left fun hnone ↦ nomatch hnone.2

theorem items_foldl_put_empty {l : List ((α × β × γ) × ν)} (h : (l.map Prod.fst).Nodup) :
    (l.foldl (fun m e ↦ m.put e.1 e.2) (∅ : Nested α β γ ν)).items.Perm l :=
  (List.perm_ext_iff_of_nodup (nodup_items _).of_map h.of_map).mpr fun _ ↦
    mem_items_iff.trans (find?_foldl_put_empty h)

/-! ## Removal -/

section Removal

variable [ToString α] [ToString β]

/-- `if len(m[a][b]) == 0: m[a].pop(b)`. -/
def dropLeaf (m : Nested α β γ ν) (a : α) (b : β) : Except Error (Nested α β γ ν) := do
  let inner ← m.subscript a
  let leaf ← inner.subscript b
  if leaf.entries.length = 0 then do
    let inner ← inner.pop b
    return m.set a inner
  else return m

/-- `m[a][b].pop(c)`. -/
def popAt [ToString γ] (m : Nested α β γ ν) (a : α) (b : β) (c : γ) :
    Except Error (Nested α β γ ν) := do
  let inner ← m.subscript a
  let leaf ← inner.subscript b
  let leaf ← leaf.pop c
  return m.set a (inner.set b leaf)

variable {m : Nested α β γ ν} {a : α} {b : β} {d : Dict γ ν}

theorem dropLeaf_of_leaf (h : m.leaf a b = some d) :
    ∃ m', m.dropLeaf a b = .ok m' ∧ Apart a b m m' ∧ ∀ c, m'.find? (a, b, c) = d.get? c := by
  obtain ⟨inner, hinner, hd⟩ := exists_branch_of_leaf h
  rw [dropLeaf, Dict.subscript_of_get? hinner, ok_bind, Dict.subscript_of_get? hd, ok_bind]
  by_cases hempty : d.entries.length = 0
  · refine ⟨m.set a (inner.erase b), ?_, apart_set hinner fun b' hb ↦ ?_, fun c ↦ ?_⟩
    · rw [if_pos hempty, Dict.pop_of_get? hd]
      rfl
    · rw [Dict.get?_erase, if_neg hb]
    · rw [find?, leaf, Dict.get?_set_self, Option.bind_some, Dict.get?_erase, if_pos rfl,
        Dict.get?, List.eq_nil_of_length_eq_zero hempty]
      rfl
  · refine ⟨m, if_neg hempty, .refl a b m, fun c ↦ ?_⟩
    rw [find?, h, Option.bind_some]

theorem popAt_of_leaf [ToString γ] (h : m.leaf a b = some d) {c : γ} {v : ν}
    (hv : d.get? c = some v) :
    ∃ m', m.popAt a b c = .ok m' ∧ Apart a b m m' ∧ m'.leaf a b = some (d.erase c) := by
  obtain ⟨inner, hinner, hd⟩ := exists_branch_of_leaf h
  refine ⟨m.set a (inner.set b (d.erase c)), ?_,
    apart_set hinner fun b' hb ↦ Dict.get?_set_of_ne _ _ hb, ?_⟩
  · rw [popAt, Dict.subscript_of_get? hinner, ok_bind, Dict.subscript_of_get? hd, ok_bind,
      Dict.pop_of_get? hv]
    rfl
  · rw [leaf, Dict.get?_set_self, Option.bind_some, Dict.get?_set_self]

end Removal

end Nested

end Python
