import Mathlib.Data.List.Induction
import Mathlib.Order.Lattice

/-!
# Loops that keep the cheapest element

A search loop compares each candidate with the best one so far and replaces it if the new one is
cheaper. A candidate without a cost is passed over. At the end the loop holds the first of the
cheapest candidates: those in front of it are dearer, those behind it not cheaper.
-/

namespace Python

variable {α β : Type*} [LinearOrder β]

/-- One round of the loop. -/
def keepCheaper (cost : α → Option β) (best : Option (β × α)) (a : α) : Option (β × α) :=
  match cost a, best with
  | none, _ => best
  | some c, none => some (c, a)
  | some c, some held => if c < held.1 then some (c, a) else some held

/-- The first of the cheapest elements, with its cost. -/
structure FirstCheapest (cost : α → Option β) (front : List α) (a : α) (back : List α) (c : β) :
    Prop where
  cost_eq : cost a = some c
  lt_of_front : ∀ b ∈ front, ∀ c', cost b = some c' → c < c'
  le_of_back : ∀ b ∈ back, ∀ c', cost b = some c' → c ≤ c'

theorem FirstCheapest.le {cost : α → Option β} {front back : List α} {a : α} {c : β}
    (h : FirstCheapest cost front a back c) {b : α} (hb : b ∈ front ++ a :: back) {c' : β}
    (hc' : cost b = some c') : c ≤ c' := by
  rcases List.mem_append.mp hb with hb | hb
  · exact (h.lt_of_front b hb c' hc').le
  rcases List.mem_cons.mp hb with rfl | hb
  · exact (Option.some_inj.mp (h.cost_eq.symm.trans hc')).le
  · exact h.le_of_back b hb c' hc'

/-- A further element that is not cheaper changes nothing. -/
theorem FirstCheapest.concat {cost : α → Option β} {front back : List α} {a : α} {c : β}
    (h : FirstCheapest cost front a back c) {b : α} (hb : ∀ c', cost b = some c' → c ≤ c') :
    FirstCheapest cost front a (back ++ [b]) c := by
  refine ⟨h.cost_eq, h.lt_of_front, fun d hd c' hc' ↦ ?_⟩
  rcases List.mem_append.mp hd with hd | hd
  · exact h.le_of_back d hd c' hc'
  · exact hb c' (List.mem_singleton.mp hd ▸ hc')

/-- A further element that is cheaper takes over. -/
theorem FirstCheapest.replace {cost : α → Option β} {front back : List α} {a : α} {c : β}
    (h : FirstCheapest cost front a back c) {b : α} {c' : β} (hb : cost b = some c')
    (hlt : c' < c) : FirstCheapest cost (front ++ a :: back) b [] c' :=
  ⟨hb, fun _ hd _ hc ↦ hlt.trans_le (h.le hd hc), fun _ hd ↦ absurd hd List.not_mem_nil⟩

/-- What the loop holds after a list. -/
theorem foldl_keepCheaper (cost : α → Option β) (l : List α) :
    match l.foldl (keepCheaper cost) none with
    | none => ∀ a ∈ l, cost a = none
    | some (c, a) => ∃ front back, l = front ++ a :: back ∧ FirstCheapest cost front a back c := by
  -- the loop ends with the last element, so the induction takes elements from the back
  induction l using List.reverseRecOn with
  | nil => exact fun _ ha ↦ absurd ha List.not_mem_nil
  | append_singleton l b ih =>
    rw [List.foldl_append, List.foldl_cons, List.foldl_nil]
    rcases hbest : l.foldl (keepCheaper cost) none with _ | ⟨c, a⟩
    · rw [hbest] at ih
      -- nothing is held so far, and `b` is the first element with a cost if it has one
      rcases hb : cost b with _ | c
      · simp only [keepCheaper, hb]
        intro a ha
        rcases List.mem_append.mp ha with ha | ha
        · exact ih a ha
        · exact List.mem_singleton.mp ha ▸ hb
      · simp only [keepCheaper, hb]
        refine ⟨l, [], rfl, hb, fun a ha c' hc' ↦ ?_, fun _ ha ↦ absurd ha List.not_mem_nil⟩
        exact absurd ((ih a ha).symm.trans hc') (Option.some_ne_none c').symm
    · rw [hbest] at ih
      obtain ⟨front, back, rfl, hfirst⟩ := ih
      have hsplit : front ++ a :: back ++ [b] = front ++ a :: (back ++ [b]) := by
        rw [List.append_assoc, List.cons_append]
      -- `a` is held, and stays unless `b` is cheaper
      rcases hb : cost b with _ | c'
      · simp only [keepCheaper, hb]
        refine ⟨front, back ++ [b], hsplit, hfirst.concat fun c' hc' ↦ ?_⟩
        exact absurd (hb.symm.trans hc') (Option.some_ne_none c').symm
      · by_cases hlt : c' < c
        · simp only [keepCheaper, hb, if_pos hlt]
          exact ⟨front ++ a :: back, [], rfl, hfirst.replace hb hlt⟩
        · simp only [keepCheaper, hb, if_neg hlt]
          refine ⟨front, back ++ [b], hsplit, hfirst.concat fun c'' hc'' ↦ ?_⟩
          exact (not_lt.mp hlt).trans_eq (Option.some_inj.mp (hb.symm.trans hc''))

end Python
