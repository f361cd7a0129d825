import Mathlib.Data.List.Sort

/-!
# Sorting from the largest down

`sorted(l, key=key, reverse=True)` is stable: elements with equal keys keep their order.
-/

namespace Python

variable {α β : Type*} [LinearOrder β]

/-- `sorted(l, key=key, reverse=True)`. -/
def sortedReverse (key : α → β) (l : List α) : List α := l.insertionSort fun a b ↦ key b ≤ key a

variable {key : α → β} {l : List α}

instance total_key (key : α → β) : Std.Total fun a b ↦ key b ≤ key a :=
  ⟨fun a b ↦ le_total (key b) (key a)⟩

instance isTrans_key (key : α → β) : IsTrans α fun a b ↦ key b ≤ key a :=
  ⟨fun _ _ _ hab hbc ↦ hbc.trans hab⟩

theorem perm_sortedReverse : (sortedReverse key l).Perm l := List.perm_insertionSort _ l

theorem mem_sortedReverse {a : α} : a ∈ sortedReverse key l ↔ a ∈ l :=
  perm_sortedReverse.mem_iff

theorem pairwise_sortedReverse : (sortedReverse key l).Pairwise fun a b ↦ key b ≤ key a :=
  List.pairwise_insertionSort _ l

/-- The first element has the largest key. -/
theorem le_of_sortedReverse_eq_cons {first : α} {rest : List α}
    (h : sortedReverse key l = first :: rest) {a : α} (ha : a ∈ l) : key a ≤ key first := by
  have hsorted := @pairwise_sortedReverse α β _ key l
  have hmem : a ∈ sortedReverse key l := mem_sortedReverse.mpr ha
  rw [h] at hsorted hmem
  rcases List.mem_cons.mp hmem with rfl | ha
  · exact le_rfl
  · exact (List.pairwise_cons.mp hsorted).1 a ha

end Python
