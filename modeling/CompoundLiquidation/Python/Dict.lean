import Mathlib.Data.List.Induction
import Mathlib.Data.List.Nodup

/-!
# Insertion-ordered dictionaries

A `dict` keeps its keys in the order of their first insertion: assigning to a key that is already
there changes the value in place, assigning to a new key appends it. Both halves matter to a
program that iterates over one, so the model is the list of entries itself together with the proof
that no key occurs twice, and not a bare function from keys to values.

Every operation is given with the equation its lookup satisfies. Proofs about a program then read
lookups only, and the entry list is reopened just where iteration order is the point.
-/

namespace Python

/-- A dictionary: its entries in insertion order, no key twice. -/
structure Dict (κ ν : Type*) where
  /-- The key-value pairs, oldest key first. -/
  entries : List (κ × ν)
  /-- A key occurs at most once. -/
  nodup_keys : (entries.map Prod.fst).Nodup
deriving DecidableEq

namespace Dict

variable {κ ν μ : Type*}

@[ext] theorem ext {d e : Dict κ ν} (h : d.entries = e.entries) : d = e := by
  cases d
  cases e
  simpa using h

/-- The keys in insertion order. -/
def keys (d : Dict κ ν) : List κ := d.entries.map Prod.fst

/-- The values in insertion order of their keys. -/
def values (d : Dict κ ν) : List ν := d.entries.map Prod.snd

/-- The dictionary with no entry. -/
def empty : Dict κ ν := ⟨[], List.nodup_nil⟩

instance : EmptyCollection (Dict κ ν) := ⟨empty⟩

@[simp] theorem entries_empty : (∅ : Dict κ ν).entries = [] := rfl

@[simp] theorem keys_empty : (∅ : Dict κ ν).keys = [] := rfl

theorem nodup_keys' (d : Dict κ ν) : d.keys.Nodup := d.nodup_keys

/-- Every value replaced by `f` of its key and itself, the keys and their order kept. -/
def mapWithKey (d : Dict κ ν) (f : κ → ν → μ) : Dict κ μ where
  entries := d.entries.map fun e ↦ (e.1, f e.1 e.2)
  nodup_keys := by simpa [List.map_map, Function.comp_def] using d.nodup_keys

@[simp] theorem keys_mapWithKey (d : Dict κ ν) (f : κ → ν → μ) :
    (d.mapWithKey f).keys = d.keys := by
  simp [keys, mapWithKey, List.map_map, Function.comp_def]

theorem mapWithKey_mapWithKey {ξ : Type*} (d : Dict κ ν) (f : κ → ν → μ) (g : κ → μ → ξ) :
    (d.mapWithKey f).mapWithKey g = d.mapWithKey fun k v ↦ g k (f k v) :=
  ext List.map_map

theorem mapWithKey_id (d : Dict κ ν) : (d.mapWithKey fun _ v ↦ v) = d :=
  ext (List.map_id _)

/-- The entries that satisfy `p`, in their order. -/
def filter (d : Dict κ ν) (p : κ → ν → Bool) : Dict κ ν where
  entries := d.entries.filter fun e ↦ p e.1 e.2
  nodup_keys := d.nodup_keys.sublist (List.filter_sublist.map _)

variable [DecidableEq κ]

/-! ## Lookup -/

/-- `d.get(k)`: the value stored under `k`, if any. -/
def get? (d : Dict κ ν) (k : κ) : Option ν := d.entries.lookup k

/-- `k in d`. -/
def contains (d : Dict κ ν) (k : κ) : Bool := (d.get? k).isSome

/-- `d.get(k, v)`. -/
def getD (d : Dict κ ν) (k : κ) (v : ν) : ν := (d.get? k).getD v

@[simp] theorem get?_empty (k : κ) : (∅ : Dict κ ν).get? k = none := rfl

theorem lookup_cons_ite (k : κ) (e : κ × ν) (l : List (κ × ν)) :
    (e :: l).lookup k = if k = e.1 then some e.2 else l.lookup k := by
  by_cases h : k = e.1
  · rw [if_pos h, List.lookup_cons, h, beq_self_eq_true]
  · rw [if_neg h, List.lookup_cons, beq_eq_false_iff_ne.mpr h]

private theorem lookup_eq_some_of_nodup {l : List (κ × ν)} (h : (l.map Prod.fst).Nodup)
    {k : κ} {v : ν} : l.lookup k = some v ↔ (k, v) ∈ l := by
  induction l with
  | nil => simp
  | cons e l ih =>
    rw [List.map_cons, List.nodup_cons] at h
    rw [lookup_cons_ite, List.mem_cons]
    by_cases hk : k = e.1
    · have hnot : (k, v) ∉ l := fun hmem ↦ h.1 (hk ▸ List.mem_map_of_mem (f := Prod.fst) hmem)
      rw [if_pos hk, Option.some_inj]
      exact ⟨fun hv ↦ Or.inl (Prod.ext hk hv.symm),
        fun hv ↦ (hv.resolve_right hnot) ▸ rfl⟩
    · rw [if_neg hk, ih h.2]
      exact ⟨Or.inr, fun hv ↦ hv.resolve_left fun he ↦ hk (he ▸ rfl)⟩

theorem get?_eq_some_iff {d : Dict κ ν} {k : κ} {v : ν} :
    d.get? k = some v ↔ (k, v) ∈ d.entries :=
  lookup_eq_some_of_nodup d.nodup_keys

theorem mem_keys_iff {d : Dict κ ν} {k : κ} : k ∈ d.keys ↔ ∃ v, d.get? k = some v := by
  simp only [keys, List.mem_map, get?_eq_some_iff]
  constructor
  · rintro ⟨⟨k', v⟩, hmem, rfl⟩
    exact ⟨v, hmem⟩
  · rintro ⟨v, hmem⟩
    exact ⟨(k, v), hmem, rfl⟩

theorem get?_eq_none_iff {d : Dict κ ν} {k : κ} : d.get? k = none ↔ k ∉ d.keys := by
  rw [mem_keys_iff, Option.eq_none_iff_forall_ne_some]
  simp

/-- Two dictionaries with the same keys in the same order and the same lookups are equal. -/
theorem ext_get? {d e : Dict κ ν} (hk : d.keys = e.keys) (h : ∀ k, d.get? k = e.get? k) :
    d = e := by
  have hlist : ∀ (d : Dict κ ν), d.entries = d.keys.filterMap fun k ↦ (d.get? k).map (k, ·) := by
    intro d
    rw [keys, List.filterMap_map]
    conv_lhs => rw [← List.filterMap_some (l := d.entries)]
    refine List.filterMap_congr fun e he ↦ ?_
    rw [Function.comp_apply, get?_eq_some_iff.mpr he]
    rfl
  apply ext
  rw [hlist d, hlist e, hk]
  exact List.filterMap_congr fun k _ ↦ by rw [h]

/-! ## Assignment -/

/-- Assignment on the entry list: in place when the key is there, at the end when it is not. -/
def setEntries (k : κ) (v : ν) : List (κ × ν) → List (κ × ν)
  | [] => [(k, v)]
  | e :: l => if e.1 = k then (k, v) :: l else e :: setEntries k v l

theorem map_fst_setEntries (k : κ) (v : ν) (l : List (κ × ν)) :
    (setEntries k v l).map Prod.fst
      = if k ∈ l.map Prod.fst then l.map Prod.fst else l.map Prod.fst ++ [k] := by
  induction l with
  | nil => simp [setEntries]
  | cons e l ih =>
    rw [setEntries]
    by_cases he : e.1 = k
    · simp [he]
    · rw [if_neg he, List.map_cons, ih]
      by_cases hmem : k ∈ l.map Prod.fst
      · rw [if_pos hmem, if_pos (by simp only [List.map_cons]; exact List.mem_cons_of_mem _ hmem),
          List.map_cons]
      · rw [if_neg hmem, if_neg (by simp only [List.map_cons, List.mem_cons]; tauto),
          List.map_cons, List.cons_append]

/-- `d[k] = v`. -/
def set (d : Dict κ ν) (k : κ) (v : ν) : Dict κ ν where
  entries := setEntries k v d.entries
  nodup_keys := by
    rw [map_fst_setEntries]
    split
    · exact d.nodup_keys
    · next h =>
      refine List.nodup_append.mpr ⟨d.nodup_keys, List.nodup_singleton k, ?_⟩
      intro a ha b hb hab
      rw [List.mem_singleton] at hb
      exact h (hb ▸ hab ▸ ha)

theorem keys_set (d : Dict κ ν) (k : κ) (v : ν) :
    (d.set k v).keys = if k ∈ d.keys then d.keys else d.keys ++ [k] :=
  map_fst_setEntries k v d.entries

theorem mem_keys_set {d : Dict κ ν} {k k' : κ} {v : ν} :
    k' ∈ (d.set k v).keys ↔ k' = k ∨ k' ∈ d.keys := by
  rw [keys_set]
  by_cases h : k ∈ d.keys
  · rw [if_pos h]
    exact ⟨Or.inr, fun h' ↦ h'.elim (fun e ↦ e ▸ h) id⟩
  · rw [if_neg h, List.mem_append, List.mem_singleton, or_comm]

private theorem setEntries_of_not_mem {k : κ} {v : ν} {l : List (κ × ν)}
    (h : k ∉ l.map Prod.fst) : setEntries k v l = l ++ [(k, v)] := by
  induction l with
  | nil => rfl
  | cons e l ih =>
    rw [List.map_cons, List.mem_cons, not_or] at h
    rw [setEntries, if_neg (Ne.symm h.1), ih h.2, List.cons_append]

theorem entries_set_of_not_mem {d : Dict κ ν} {k : κ} {v : ν} (h : k ∉ d.keys) :
    (d.set k v).entries = d.entries ++ [(k, v)] := setEntries_of_not_mem h

private theorem lookup_setEntries (k k' : κ) (v : ν) (l : List (κ × ν)) :
    (setEntries k v l).lookup k' = if k' = k then some v else l.lookup k' := by
  induction l with
  | nil => rw [setEntries, lookup_cons_ite]
  | cons e l ih =>
    rw [setEntries]
    by_cases he : e.1 = k
    · rw [if_pos he, lookup_cons_ite, lookup_cons_ite, he]
      by_cases h : k' = k <;> simp [h]
    · rw [if_neg he, lookup_cons_ite, lookup_cons_ite, ih]
      by_cases h : k' = e.1
      · rw [if_pos h, if_neg fun hk ↦ he (h ▸ hk), if_pos h]
      · rw [if_neg h, if_neg h]

theorem get?_set (d : Dict κ ν) (k k' : κ) (v : ν) :
    (d.set k v).get? k' = if k' = k then some v else d.get? k' :=
  lookup_setEntries k k' v d.entries

@[simp] theorem get?_set_self (d : Dict κ ν) (k : κ) (v : ν) : (d.set k v).get? k = some v := by
  rw [get?_set, if_pos rfl]

theorem get?_set_of_ne (d : Dict κ ν) {k k' : κ} (v : ν) (h : k' ≠ k) :
    (d.set k v).get? k' = d.get? k' := by
  rw [get?_set, if_neg h]

theorem getD_set (d : Dict κ ν) (k k' : κ) (v w : ν) :
    (d.set k v).getD k' w = if k' = k then v else d.getD k' w := by
  rw [getD, get?_set]
  by_cases h : k' = k
  · rw [if_pos h, if_pos h, Option.getD_some]
  · rw [if_neg h, if_neg h, getD]

private theorem setEntries_of_lookup {l : List (κ × ν)} {k : κ} {v : ν}
    (h : l.lookup k = some v) : setEntries k v l = l := by
  induction l with
  | nil => simp at h
  | cons e l ih =>
    rw [lookup_cons_ite] at h
    rw [setEntries]
    by_cases he : e.1 = k
    · rw [if_pos he.symm, Option.some_inj] at h
      rw [if_pos he, ← he, ← h]
    · rw [if_neg he, ih]
      rwa [if_neg fun hk ↦ he hk.symm] at h

/-- Assigning the value that is already there changes nothing. -/
theorem set_of_get?_eq_some {d : Dict κ ν} {k : κ} {v : ν} (h : d.get? k = some v) :
    d.set k v = d :=
  ext (setEntries_of_lookup h)

/-! ## Updating a value in place -/

/-- The value under `k` replaced by `f` of it; nothing happens when `k` is absent. -/
def modify (d : Dict κ ν) (k : κ) (f : ν → ν) : Dict κ ν :=
  d.mapWithKey fun k' v ↦ if k' = k then f v else v

@[simp] theorem keys_modify (d : Dict κ ν) (k : κ) (f : ν → ν) : (d.modify k f).keys = d.keys :=
  keys_mapWithKey d _

private theorem lookup_map_snd (f : κ → ν → μ) (k : κ) (l : List (κ × ν)) :
    (l.map fun e ↦ (e.1, f e.1 e.2)).lookup k = (l.lookup k).map (f k) := by
  induction l with
  | nil => rfl
  | cons e l ih =>
    rw [List.map_cons, lookup_cons_ite, lookup_cons_ite, ih]
    by_cases h : k = e.1
    · rw [if_pos h, if_pos h, h, Option.map_some]
    · rw [if_neg h, if_neg h]

theorem get?_mapWithKey (d : Dict κ ν) (f : κ → ν → μ) (k : κ) :
    (d.mapWithKey f).get? k = (d.get? k).map (f k) :=
  lookup_map_snd f k d.entries

theorem get?_modify (d : Dict κ ν) (k k' : κ) (f : ν → ν) :
    (d.modify k f).get? k' = if k' = k then (d.get? k').map f else d.get? k' := by
  rw [modify, get?_mapWithKey]
  by_cases h : k' = k
  · simp [h]
  · cases d.get? k' <;> simp [h]

@[simp] theorem get?_modify_self (d : Dict κ ν) (k : κ) (f : ν → ν) :
    (d.modify k f).get? k = (d.get? k).map f := by
  rw [get?_modify, if_pos rfl]

theorem get?_modify_of_ne (d : Dict κ ν) {k k' : κ} (f : ν → ν) (h : k' ≠ k) :
    (d.modify k f).get? k' = d.get? k' := by
  rw [get?_modify, if_neg h]

theorem modify_of_get?_eq_none {d : Dict κ ν} {k : κ} (f : ν → ν) (h : d.get? k = none) :
    d.modify k f = d := by
  refine ext_get? (keys_modify d k f) fun k' ↦ ?_
  rw [get?_modify]
  by_cases hk : k' = k
  · rw [if_pos hk, hk, h, Option.map_none]
  · rw [if_neg hk]

theorem mapWithKey_congr {d : Dict κ ν} {f g : κ → ν → μ}
    (h : ∀ k v, d.get? k = some v → f k v = g k v) : d.mapWithKey f = d.mapWithKey g := by
  apply ext
  refine List.map_congr_left fun e he ↦ ?_
  rw [h e.1 e.2 (get?_eq_some_iff.mpr he)]

theorem modify_modify (d : Dict κ ν) (k : κ) (f g : ν → ν) :
    (d.modify k f).modify k g = d.modify k fun v ↦ g (f v) := by
  rw [modify, modify, modify, mapWithKey_mapWithKey]
  congr 1
  funext k' v
  by_cases h : k' = k
  · rw [if_pos h, if_pos h, if_pos h]
  · rw [if_neg h, if_neg h, if_neg h]

theorem modify_id (d : Dict κ ν) (k : κ) : (d.modify k fun v ↦ v) = d := by
  rw [modify]
  simp only [ite_self, mapWithKey_id]

/-- The second of two assignments to a key wins. -/
@[simp] theorem set_set (d : Dict κ ν) (k : κ) (v w : ν) : (d.set k v).set k w = d.set k w := by
  refine ext_get? ?_ fun k' ↦ ?_
  · have hmem : k ∈ (d.set k v).keys := mem_keys_set.mpr (Or.inl rfl)
    rw [keys_set _ k w, if_pos hmem, keys_set, keys_set]
  · rw [get?_set, get?_set, get?_set]
    by_cases hk : k' = k
    · rw [if_pos hk, if_pos hk]
    · rw [if_neg hk, if_neg hk, if_neg hk]

theorem modify_of_get?_eq_some {d : Dict κ ν} {k : κ} {v : ν} (f : ν → ν)
    (h : d.get? k = some v) : d.modify k f = d.set k (f v) := by
  refine ext_get? ?_ fun k' ↦ ?_
  · rw [keys_modify, keys_set, if_pos (mem_keys_iff.mpr ⟨v, h⟩)]
  · rw [get?_modify, get?_set]
    by_cases hk : k' = k
    · rw [if_pos hk, if_pos hk, hk, h, Option.map_some]
    · rw [if_neg hk, if_neg hk]

@[simp] theorem modify_set_self (d : Dict κ ν) (k : κ) (v : ν) (f : ν → ν) :
    (d.set k v).modify k f = d.set k (f v) := by
  rw [modify_of_get?_eq_some f (get?_set_self d k v), set_set]

theorem getD_of_get? {d : Dict κ ν} {k : κ} {v w : ν} (h : d.get? k = some v) : d.getD k w = v := by
  rw [getD, h, Option.getD_some]

theorem getD_of_get?_eq_none {d : Dict κ ν} {k : κ} {w : ν} (h : d.get? k = none) :
    d.getD k w = w := by
  rw [getD, h, Option.getD_none]

/-! ## Removal -/

/-- `d.pop(k)`, the dictionary it leaves. -/
def erase (d : Dict κ ν) (k : κ) : Dict κ ν := d.filter fun k' _ ↦ k' ≠ k

theorem get?_filter (d : Dict κ ν) (p : κ → ν → Bool) (k : κ) :
    (d.filter p).get? k = (d.get? k).filter (p k) := by
  apply Option.ext
  intro v
  rw [Option.filter_eq_some_iff, get?_eq_some_iff, get?_eq_some_iff, filter, List.mem_filter]

theorem get?_erase (d : Dict κ ν) (k k' : κ) :
    (d.erase k).get? k' = if k' = k then none else d.get? k' := by
  rw [erase, get?_filter]
  by_cases h : k' = k
  · cases d.get? k' <;> simp [h]
  · cases d.get? k' <;> simp [h]

/-! ## Runs of assignments -/

/-- The last value a list of assignments gives to `k`. -/
def lastFor (k : κ) (l : List (κ × ν)) : Option ν :=
  (l.filterMap fun p ↦ if p.1 = k then some p.2 else none).getLast?

/-- After a run of assignments a key holds the last value assigned to it, or what it held before. -/
theorem get?_foldl_assign (d : Dict κ ν) (l : List (κ × ν)) (k : κ) :
    (l.foldl (fun acc p ↦ acc.set p.1 p.2) d).get? k = (lastFor k l).or (d.get? k) := by
  induction l using List.reverseRecOn with
  | nil => rfl
  | append_singleton l p ih =>
    rw [List.foldl_append, List.foldl_cons, List.foldl_nil, get?_set, ih, lastFor, lastFor,
      List.filterMap_append]
    by_cases h : k = p.1
    · simp [h]
    · simp [h, Ne.symm h]

/-- A dictionary built by a loop over its keys holds the value of each key it met. -/
theorem get?_foldl_of_mem (f : κ → ν) {l : List κ} {k : κ} (h : k ∈ l) (d : Dict κ ν) :
    (l.foldl (fun acc k' ↦ acc.set k' (f k')) d).get? k = some (f k) := by
  induction l using List.reverseRecOn with
  | nil => exact absurd h List.not_mem_nil
  | append_singleton l a ih =>
    rw [List.foldl_append, List.foldl_cons, List.foldl_nil, get?_set]
    by_cases ha : k = a
    · rw [if_pos ha, ha]
    · rw [if_neg ha]
      rw [List.mem_append, List.mem_singleton] at h
      exact ih (h.resolve_right ha)

/-! ## Updating from another dictionary -/

/-- `d.update(e)`: every entry of `e` assigned in the order of `e`. -/
def update (d e : Dict κ ν) : Dict κ ν := e.entries.foldl (fun acc p ↦ acc.set p.1 p.2) d

private theorem get?_foldl_set (l : List (κ × ν)) (k : κ) : ∀ d : Dict κ ν,
    (l.map Prod.fst).Nodup →
    (l.foldl (fun acc p ↦ acc.set p.1 p.2) d).get? k = (l.lookup k).or (d.get? k) := by
  induction l with
  | nil => intro d _; simp
  | cons e l ih =>
    intro d hnd
    rw [List.map_cons, List.nodup_cons] at hnd
    rw [List.foldl_cons, ih _ hnd.2, get?_set, lookup_cons_ite]
    by_cases h : k = e.1
    · have hnone : l.lookup k = none := by
        rw [List.lookup_eq_none_iff]
        intro p hp
        rw [bne_iff_ne]
        exact fun hpk ↦ hnd.1 (h ▸ hpk ▸ List.mem_map_of_mem (f := Prod.fst) hp)
      rw [if_pos h, if_pos h, hnone, Option.none_or, Option.some_or]
    · rw [if_neg h, if_neg h]

/-- New keys are appended in the order in which they come. -/
theorem entries_foldl_set (l : List (κ × ν)) : ∀ {d : Dict κ ν},
    (d.keys ++ l.map Prod.fst).Nodup →
    (l.foldl (fun acc p ↦ acc.set p.1 p.2) d).entries = d.entries ++ l := by
  induction l with
  | nil => exact fun _ ↦ (List.append_nil _).symm
  | cons e l ih =>
    intro d hnd
    have hnew : e.1 ∉ d.keys := fun hmem ↦
      List.disjoint_of_nodup_append hnd hmem (List.mem_map_of_mem List.mem_cons_self)
    have hset : (d.set e.1 e.2).entries = d.entries ++ [e] := entries_set_of_not_mem hnew
    have hkeys : (d.set e.1 e.2).keys = d.keys ++ [e.1] := by rw [keys_set, if_neg hnew]
    rw [List.foldl_cons, ih, hset, List.append_assoc, List.singleton_append]
    rwa [hkeys, List.append_assoc, List.singleton_append]

theorem get?_update (d e : Dict κ ν) (k : κ) :
    (d.update e).get? k = (e.get? k).or (d.get? k) :=
  get?_foldl_set e.entries k d e.nodup_keys

theorem mem_keys_update {d e : Dict κ ν} {k : κ} :
    k ∈ (d.update e).keys ↔ k ∈ d.keys ∨ k ∈ e.keys := by
  rw [mem_keys_iff, mem_keys_iff, mem_keys_iff, get?_update]
  rcases e.get? k with _ | v
  · simp
  · simp

/-- The entries of a dictionary give each key once. -/
theorem lastFor_entries (d : Dict κ ν) (k : κ) : lastFor k d.entries = d.get? k := by
  have hassign := get?_foldl_assign (∅ : Dict κ ν) d.entries k
  have hupdate := get?_update (∅ : Dict κ ν) d k
  rw [get?_empty, Option.or_none] at hassign hupdate
  exact hassign.symm.trans hupdate

/-! ## Merging -/

/-- `for k, v in e.items()`: combine `v` with the value under `k`, or assign it. -/
def mergeWith (f : ν → ν → ν) (d e : Dict κ ν) : Dict κ ν :=
  e.entries.foldl (fun acc p ↦
    match acc.get? p.1 with
    | some v => acc.set p.1 (f v p.2)
    | none => acc.set p.1 p.2) d

private theorem get?_foldl_merge (f : ν → ν → ν) (l : List (κ × ν)) (k : κ) : ∀ d : Dict κ ν,
    (l.map Prod.fst).Nodup →
    (l.foldl (fun acc p ↦
      match acc.get? p.1 with
      | some v => acc.set p.1 (f v p.2)
      | none => acc.set p.1 p.2) d).get? k
      = match d.get? k, l.lookup k with
        | some v, some w => some (f v w)
        | some v, none => some v
        | none, x => x := by
  induction l with
  | nil =>
    intro d _
    rw [List.foldl_nil, List.lookup_nil]
    rcases d.get? k with _ | v
    · rfl
    · rfl
  | cons e l ih =>
    intro d hnd
    rw [List.map_cons, List.nodup_cons] at hnd
    rw [List.foldl_cons, ih _ hnd.2, lookup_cons_ite]
    by_cases h : k = e.1
    · have hnone : l.lookup k = none := by
        rw [List.lookup_eq_none_iff]
        intro p hp
        rw [bne_iff_ne]
        exact fun hpk ↦ hnd.1 (h ▸ hpk ▸ List.mem_map_of_mem hp)
      rw [hnone, if_pos h, ← h]
      rcases hget : d.get? k with _ | v
      · simp
      · simp
    · rw [if_neg h]
      rcases hget : d.get? e.1 with _ | v
      · simp only [get?_set_of_ne _ _ h]
      · simp only [get?_set_of_ne _ _ h]

theorem get?_mergeWith (f : ν → ν → ν) (d e : Dict κ ν) (k : κ) :
    (d.mergeWith f e).get? k = match d.get? k, e.get? k with
      | some v, some w => some (f v w)
      | some v, none => some v
      | none, x => x := get?_foldl_merge f e.entries k d e.nodup_keys

end Dict

end Python
