import CompoundLiquidation.Python.Dict

/-!
# Dictionaries of lists

A loop sorts elements into lists under keys: `d.setdefault(k, []).append(v)`. What is under a key
then are the elements with this key in their order. The other way round a dictionary gives each
element the key it is under. It assigns the keys one after the other, and an element that is under
two keys keeps the last one. Where no element is under two keys, the two dictionaries are inverse to
each other.
-/

namespace Python

namespace Dict

variable {κ ν α : Type*}

section Group

variable [DecidableEq κ]

/-- `d.setdefault(k, []).append(v)`. -/
def push (d : Dict κ (List ν)) (k : κ) (v : ν) : Dict κ (List ν) := d.set k (d.getD k [] ++ [v])

theorem getD_push (d : Dict κ (List ν)) (k k' : κ) (v : ν) :
    (d.push k v).getD k' [] = d.getD k' [] ++ if k = k' then [v] else [] := by
  rw [push, getD_set]
  by_cases h : k' = k
  · rw [if_pos h, if_pos h.symm, h]
  · rw [if_neg h, if_neg (Ne.symm h), List.append_nil]

/-- A loop that sorts elements. -/
def group (l : List (κ × ν)) : Dict κ (List ν) := l.foldl (fun d p ↦ d.push p.1 p.2) ∅

theorem group_concat (l : List (κ × ν)) (p : κ × ν) :
    group (l ++ [p]) = (group l).push p.1 p.2 := by
  rw [group, List.foldl_append]
  rfl

/-- The elements under a key, in their order. -/
theorem getD_group (l : List (κ × ν)) (k : κ) :
    (group l).getD k [] = l.filterMap fun p ↦ if p.1 = k then some p.2 else none := by
  induction l using List.reverseRecOn with
  | nil => rfl
  | append_singleton l p ih =>
    rw [group_concat, getD_push, ih, List.filterMap_append]
    by_cases h : p.1 = k
    · simp [h]
    · simp [h]

theorem mem_getD_group {l : List (κ × ν)} {k : κ} {v : ν} :
    v ∈ (group l).getD k [] ↔ (k, v) ∈ l := by
  rw [getD_group, List.mem_filterMap]
  constructor
  · rintro ⟨⟨k', v'⟩, hmem, h⟩
    split_ifs at h with hk
    rw [← Option.some_inj.mp h, ← hk]
    exact hmem
  · exact fun h ↦ ⟨(k, v), h, if_pos rfl⟩

theorem getD_group_sublist (l : List (κ × ν)) (k : κ) :
    ((group l).getD k []).Sublist (l.map Prod.snd) := by
  induction l using List.reverseRecOn with
  | nil => exact List.Sublist.refl []
  | append_singleton l p ih =>
    rw [group_concat, getD_push, List.map_append, List.map_singleton]
    refine ih.append ?_
    split_ifs
    · exact List.Sublist.refl [p.2]
    · exact List.nil_sublist [p.2]

/-- A key comes with its first element. -/
theorem mem_keys_group {l : List (κ × ν)} {k : κ} :
    k ∈ (group l).keys ↔ k ∈ l.map Prod.fst := by
  induction l using List.reverseRecOn with
  | nil => exact Iff.rfl
  | append_singleton l p ih =>
    rw [group_concat, push, mem_keys_set, ih, List.map_append, List.mem_append, List.map_singleton,
      List.mem_singleton, or_comm]

end Group

/-! ## The inverse -/

section Invert

variable [DecidableEq α]

/-- Which key each element, known by its label, is under. -/
def invert (label : ν → α) (d : Dict κ (List ν)) : Dict α κ :=
  d.entries.foldl (fun acc e ↦ e.2.foldl (fun acc v ↦ acc.set (label v) e.1) acc) ∅

/-- The labels with their keys. -/
def labels (label : ν → α) (d : Dict κ (List ν)) : List (α × κ) :=
  d.entries.flatMap fun e ↦ e.2.map fun v ↦ (label v, e.1)

theorem invert_eq (label : ν → α) (d : Dict κ (List ν)) :
    d.invert label = (d.labels label).foldl (fun acc p ↦ acc.set p.1 p.2) ∅ := by
  rw [invert, labels, List.foldl_flatMap]
  simp only [List.foldl_map]

theorem mem_of_lastFor {l : List (α × κ)} {a : α} {k : κ} (h : lastFor a l = some k) :
    (a, k) ∈ l := by
  obtain ⟨⟨a', k'⟩, hmem, hp⟩ := List.mem_filterMap.mp (List.mem_of_getLast? h)
  split_ifs at hp with ha
  rw [← Option.some_inj.mp hp, ← ha]
  exact hmem

theorem exists_lastFor {l : List (α × κ)} {a : α} {k : κ} (h : (a, k) ∈ l) :
    ∃ k', lastFor a l = some k' := by
  have hmem : k ∈ l.filterMap fun p ↦ if p.1 = a then some p.2 else none :=
    List.mem_filterMap.mpr ⟨(a, k), h, if_pos rfl⟩
  exact ⟨_, List.getLast?_eq_some_getLast (List.ne_nil_of_mem hmem)⟩

end Invert

variable [DecidableEq κ] {label : ν → α}

theorem mem_labels {d : Dict κ (List ν)} {a : α} {k : κ} :
    (a, k) ∈ d.labels label ↔ ∃ v ∈ d.getD k [], label v = a := by
  rw [labels, List.mem_flatMap]
  constructor
  · rintro ⟨⟨k', l⟩, hentry, hmem⟩
    obtain ⟨v, hv, heq⟩ := List.mem_map.mp hmem
    obtain ⟨rfl, rfl⟩ := Prod.mk.inj heq
    rw [getD_of_get? (get?_eq_some_iff.mpr hentry)]
    exact ⟨v, hv, rfl⟩
  · rintro ⟨v, hv, rfl⟩
    rcases hget : d.get? k with _ | l
    · rw [getD_of_get?_eq_none hget] at hv
      exact absurd hv List.not_mem_nil
    · rw [getD_of_get? hget] at hv
      exact ⟨(k, l), get?_eq_some_iff.mp hget, List.mem_map.mpr ⟨v, hv, rfl⟩⟩

/-- Where no label is under two keys, the keys are those the labels are under. -/
theorem get?_invert_iff [DecidableEq α] {d : Dict κ (List ν)}
    (hunique : ∀ k k' v v', v ∈ d.getD k [] → v' ∈ d.getD k' [] → label v = label v' → k = k')
    {a : α} {k : κ} : (d.invert label).get? a = some k ↔ ∃ v ∈ d.getD k [], label v = a := by
  rw [invert_eq, get?_foldl_assign, get?_empty, Option.or_none]
  constructor
  · exact fun h ↦ mem_labels.mp (mem_of_lastFor h)
  · rintro ⟨v, hv, rfl⟩
    have hmem : (label v, k) ∈ d.labels label := mem_labels.mpr ⟨v, hv, rfl⟩
    obtain ⟨k', hk'⟩ := exists_lastFor hmem
    obtain ⟨v', hv', hlabel⟩ := mem_labels.mp (mem_of_lastFor hk')
    rw [hk', hunique k' k v' v hv' hv hlabel]

end Dict

end Python
