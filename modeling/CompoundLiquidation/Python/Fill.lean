import CompoundLiquidation.Python.Collect

/-!
# Loops that fill a dictionary

The body of such a loop raises, or it assigns to the key of its element: a new entry, or a new value
of an entry that has to be there. The order of the elements and repetitions do not matter for what
can be said of all entries.
-/

namespace Python

variable {κ ν ε : Type} [DecidableEq κ]

/-- A loop that assigns what it finds at each key. -/
def Dict.fill (f : κ → Except ε ν) (l : List κ) (d : Dict κ ν) : Except ε (Dict κ ν) :=
  l.foldlM (fun d k ↦ (f k).map (d.set k ·)) d

/-- Behind the loop each key has what has been found there. -/
theorem Dict.fill_ok {f : κ → Except ε ν} {l : List κ} {d d' : Dict κ ν}
    (h : Dict.fill f l d = .ok d') :
    (∀ k ∈ l, ∃ v, f k = .ok v ∧ d'.get? k = some v) ∧ ∀ k ∉ l, d'.get? k = d.get? k := by
  induction l generalizing d with
  | nil =>
    rw [← Except.ok.inj h]
    exact ⟨nofun, fun _ _ ↦ rfl⟩
  | cons a l ih =>
    rw [Dict.fill, List.foldlM_cons] at h
    obtain ⟨d₁, hstep, hrest⟩ := exists_of_bind_ok h
    obtain ⟨hmem, hother⟩ := ih hrest
    obtain ⟨v, hv, hd₁⟩ := exists_of_map_ok hstep
    refine ⟨fun k hk ↦ ?_, fun k hk ↦ ?_⟩
    · by_cases hkl : k ∈ l
      · exact hmem k hkl
      · obtain rfl | hk := List.mem_cons.mp hk
        · exact ⟨v, hv, by rw [hother k hkl, ← hd₁, Dict.get?_set_self]⟩
        · exact absurd hk hkl
    · have hka : k ≠ a := fun heq ↦ hk (heq ▸ List.mem_cons_self)
      rw [hother k fun hkl ↦ hk (List.mem_cons_of_mem a hkl), ← hd₁, Dict.get?_set_of_ne _ _ hka]

/-- A loop that replaces entries: each one it comes to has the new property, and no entry has lost
what every replacement keeps. -/
theorem foldlM_replace {body : Dict κ ν → κ → Except ε (Dict κ ν)} {P : κ → ν → Prop}
    {R : ν → ν → Prop} (hrefl : ∀ v, R v v) (htrans : ∀ u v w, R u v → R v w → R u w)
    (hbody : ∀ d k d', body d k = .ok d' →
      ∃ v v', d.get? k = some v ∧ d' = d.set k v' ∧ P k v' ∧ R v v')
    {l : List κ} {d d' : Dict κ ν} (h : l.foldlM body d = .ok d') :
    d'.keys = d.keys ∧ (∀ k ∈ l, ∃ v, d'.get? k = some v ∧ P k v) ∧
      (∀ k ∉ l, d'.get? k = d.get? k) ∧
      ∀ k v, d.get? k = some v → ∃ v', d'.get? k = some v' ∧ R v v' := by
  induction l generalizing d with
  | nil =>
    rw [← Except.ok.inj h]
    exact ⟨rfl, nofun, fun _ _ ↦ rfl, fun k v hv ↦ ⟨v, hv, hrefl v⟩⟩
  | cons a l ih =>
    rw [List.foldlM_cons] at h
    obtain ⟨d₁, hstep, hrest⟩ := exists_of_bind_ok h
    obtain ⟨v, v', hv, rfl, hP, hR⟩ := hbody d a d₁ hstep
    obtain ⟨hkeys, hmem, hother, hall⟩ := ih hrest
    refine ⟨?_, fun k hk ↦ ?_, fun k hk ↦ ?_, fun k w hw ↦ ?_⟩
    · rw [hkeys, Dict.keys_set, if_pos (Dict.mem_keys_iff.mpr ⟨v, hv⟩)]
    · by_cases hkl : k ∈ l
      · exact hmem k hkl
      · -- the last replacement of this key
        obtain rfl | hk := List.mem_cons.mp hk
        · exact ⟨v', by rw [hother k hkl, Dict.get?_set_self], hP⟩
        · exact absurd hk hkl
    · have hka : k ≠ a := fun heq ↦ hk (heq ▸ List.mem_cons_self)
      rw [hother k fun hkl ↦ hk (List.mem_cons_of_mem a hkl), Dict.get?_set_of_ne _ _ hka]
    · by_cases hka : k = a
      · subst hka
        obtain ⟨w', hw', hR'⟩ := hall k v' (Dict.get?_set_self _ _ _)
        rw [hv, Option.some_inj] at hw
        exact ⟨w', hw', htrans _ _ _ (hw ▸ hR) hR'⟩
      · exact hall k w (by rw [Dict.get?_set_of_ne _ _ hka, hw])

end Python
