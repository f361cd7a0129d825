import CompoundLiquidation.Python.Dict
import Mathlib.Algebra.BigOperators.Group.Finset.Piecewise

/-!
# Sums over a dictionary

A sum over the entries is turned into a sum over any finite set that holds the keys, with nothing
for a key that is absent. Two dictionaries with different keys can then be summed over one common
set and compared term by term.
-/

namespace Python.Dict

open scoped BigOperators

variable {κ ν M : Type*} [DecidableEq κ] [AddCommMonoid M]

/-- The sum of `f` over the entries. -/
def sum (f : κ → ν → M) (d : Dict κ ν) : M := (d.entries.map fun e ↦ f e.1 e.2).sum

/-- The sum over a set that holds the keys. -/
theorem sum_eq_finsetSum (f : κ → ν → M) {d : Dict κ ν} {K : Finset κ}
    (hK : ∀ k ∈ d.keys, k ∈ K) : d.sum f = ∑ k ∈ K, (d.get? k).elim 0 (f k) := by
  have hsub : d.keys.toFinset ⊆ K := fun k hk ↦ hK k (List.mem_toFinset.mp hk)
  have hzero : ∀ k ∈ K, k ∉ d.keys.toFinset → (d.get? k).elim 0 (f k) = 0 := by
    intro k _ hk
    rw [List.mem_toFinset, ← get?_eq_none_iff] at hk
    rw [hk, Option.elim_none]
  rw [← Finset.sum_subset hsub hzero, List.sum_toFinset _ d.nodup_keys', sum, keys, List.map_map]
  refine congrArg List.sum (List.map_congr_left fun e he ↦ ?_)
  rw [Function.comp_apply, get?_eq_some_iff.mpr he, Option.elim_some]

end Python.Dict
