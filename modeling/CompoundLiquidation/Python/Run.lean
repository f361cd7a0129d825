import Mathlib.Data.List.Infix
import Mathlib.Data.List.Induction

/-!
# Properties of every point of a run

A run is a list of inputs, and a point of it is a prefix of that list: the inputs handled so far.
A safety property is a predicate on points, so that it may speak of the history as well as of the
state the history leads to. The first rule proves such a property by showing what one further
input does. The second is the exact form: when each step decides whether the property survives it,
the property holds at every point if and only if every step is of the good kind.
-/

namespace Python

variable {ι σ : Type*}

/-- The state after the inputs `l`, one `step` each. -/
def runFrom (step : σ → ι → σ) (s : σ) (l : List ι) : σ := l.foldl step s

@[simp] theorem runFrom_nil (step : σ → ι → σ) (s : σ) : runFrom step s [] = s := rfl

@[simp] theorem runFrom_singleton (step : σ → ι → σ) (s : σ) (i : ι) :
    runFrom step s [i] = step s i := rfl

theorem runFrom_cons (step : σ → ι → σ) (s : σ) (i : ι) (l : List ι) :
    runFrom step s (i :: l) = runFrom step (step s i) l := rfl

theorem runFrom_append (step : σ → ι → σ) (s : σ) (l m : List ι) :
    runFrom step s (l ++ m) = runFrom step (runFrom step s l) m := List.foldl_append

theorem runFrom_concat (step : σ → ι → σ) (s : σ) (l : List ι) (i : ι) :
    runFrom step s (l ++ [i]) = step (runFrom step s l) i := by
  rw [runFrom_append]
  rfl

/-- An invariant of one step is an invariant of the run. -/
theorem runFrom_invariant {step : σ → ι → σ} {Inv : σ → Prop}
    (hstep : ∀ s i, Inv s → Inv (step s i)) {s : σ} (hs : Inv s) (l : List ι) :
    Inv (runFrom step s l) := by
  induction l using List.reverseRecOn with
  | nil => exact hs
  | append_singleton l i ih =>
    rw [runFrom_concat]
    exact hstep _ i ih

private theorem isPrefix_of_concat {past l : List ι} {i : ι} (h : past ++ [i] <+: l) :
    past <+: l := (List.prefix_append past [i]).trans h

/-- What holds at the start and survives every step of the run holds at every point of it. -/
theorem forall_prefix {P : List ι → Prop} (l : List ι) (h0 : P [])
    (hstep : ∀ past i, past ++ [i] <+: l → P past → P (past ++ [i])) :
    ∀ past, past <+: l → P past := by
  intro past
  induction past using List.reverseRecOn with
  | nil => exact fun _ ↦ h0
  | append_singleton past i ih =>
    exact fun h ↦ hstep past i h (ih (isPrefix_of_concat h))

/-- **The exact form.** If the property survives a step exactly when the step is good, it holds at
every point exactly when all steps are good. -/
theorem forall_prefix_iff {P : List ι → Prop} {Good : List ι → ι → Prop} (l : List ι) (h0 : P [])
    (hstep : ∀ past i, past ++ [i] <+: l → P past → (P (past ++ [i]) ↔ Good past i)) :
    (∀ past, past <+: l → P past) ↔ ∀ past i, past ++ [i] <+: l → Good past i := by
  constructor
  · intro h past i hpre
    exact (hstep past i hpre (h past (isPrefix_of_concat hpre))).mp (h _ hpre)
  · intro h
    exact forall_prefix l h0 fun past i hpre hP ↦ (hstep past i hpre hP).mpr (h past i hpre)

end Python
