import CompoundLiquidation.Python.Proc
import CompoundLiquidation.Python.Run

/-!
# Computations as replays

Often only a small part of a state matters, an observation, and all that a computation can do to it
is a list of moves known in advance. A computation that returns has made all of them. One that
raises has made those in front of the point where it stopped, so that what is left is a prefix of
the list. The rules follow the structure of computations, with the lists put one behind the other.
-/

namespace Python

namespace Proc

variable {σ τ ι ε α β : Type*}

/-- From the state `s`, the computation replays moves from the front of the list on the observation,
all of them if it returns. -/
def ReplaysAt (obs : σ → τ) (step : τ → ι → τ) (moves : List ι) (x : Proc σ ε α) (s : σ) : Prop :=
  ∃ done, done <+: moves ∧ obs (x.run s).2 = runFrom step (obs s) done ∧
    ∀ a, (x.run s).1 = .ok a → done = moves

/-- From every state with the invariant, and the invariant is kept. -/
def Replays (Inv : σ → Prop) (obs : σ → τ) (step : τ → ι → τ) (moves : List ι) (x : Proc σ ε α) :
    Prop :=
  ∀ s, Inv s → Inv (x.run s).2 ∧ ReplaysAt obs step moves x s

section Replays

variable {Inv : σ → Prop} {obs : σ → τ} {step : τ → ι → τ} {moves : List ι}

theorem replaysAt_of_run_eq {x y : Proc σ ε α} {s s' : σ} (h : x.run s = y.run s')
    (hobs : obs s' = obs s) (hy : ReplaysAt obs step moves y s') :
    ReplaysAt obs step moves x s := by
  rw [ReplaysAt, h, ← hobs]
  exact hy

/-- A computation that leaves the observation alone makes no moves. -/
theorem replaysAt_of_eq {x : Proc σ ε α} {s : σ} (h : obs (x.run s).2 = obs s) :
    ReplaysAt obs step [] x s := ⟨[], List.prefix_rfl, h, fun _ _ ↦ rfl⟩

/-- One that raises at once can have had any. -/
theorem replaysAt_of_error {x : Proc σ ε α} {s : σ} {e : ε} (h : x.run s = (.error e, s)) :
    ReplaysAt obs step moves x s := by
  refine ⟨[], List.nil_prefix, ?_, fun a ha ↦ ?_⟩
  · rw [h]
    rfl
  · rw [h] at ha
    cases ha

/-- An assignment that makes the moves. -/
theorem replaysAt_modify {f : σ → σ} {s : σ} (h : obs (f s) = runFrom step (obs s) moves) :
    ReplaysAt obs step moves (modify f : Proc σ ε Unit) s :=
  ⟨moves, List.prefix_rfl, h, fun _ _ ↦ rfl⟩

theorem replaysAt_bind {α β : Type _} {moves' : List ι} {x : Proc σ ε α} {f : α → Proc σ ε β}
    {s : σ} (hx : ReplaysAt obs step moves x s)
    (hf : ∀ a s', x.run s = (.ok a, s') → ReplaysAt obs step moves' (f a) s') :
    ReplaysAt obs step (moves ++ moves') (x >>= f) s := by
  obtain ⟨done, hpre, hobs, hall⟩ := hx
  rw [ReplaysAt, run_bind]
  rcases hrun : x.run s with ⟨e | a, s'⟩
  · rw [hrun] at hobs
    exact ⟨done, hpre.trans (List.prefix_append moves moves'), hobs, fun _ hb ↦ (by cases hb)⟩
  · rw [hrun] at hobs hall
    obtain rfl := hall a rfl
    obtain ⟨done', hpre', hobs', hall'⟩ := hf a s' hrun
    refine ⟨done ++ done', (List.prefix_append_right_inj done).mpr hpre', ?_, fun b hb ↦ ?_⟩
    · rw [runFrom_append, ← hobs]
      exact hobs'
    · rw [hall' b hb]

theorem replays_pure (a : α) : Replays Inv obs step [] (pure a : Proc σ ε α) :=
  fun _ hs ↦ ⟨hs, replaysAt_of_eq rfl⟩

theorem replays_bind {α β : Type _} {moves' : List ι} {x : Proc σ ε α} {f : α → Proc σ ε β}
    (hx : Replays Inv obs step moves x) (hf : ∀ a, Replays Inv obs step moves' (f a)) :
    Replays Inv obs step (moves ++ moves') (x >>= f) := by
  intro s hs
  obtain ⟨hinv, hreplays⟩ := hx s hs
  refine ⟨?_, replaysAt_bind hreplays fun a s' hrun ↦ ?_⟩
  · rw [run_bind]
    rcases hrun : x.run s with ⟨e | a, s'⟩
    · rw [hrun] at hinv
      exact hinv
    · rw [hrun] at hinv
      exact (hf a s' hinv).1
  · rw [hrun] at hinv
    exact (hf a s' hinv).2

theorem replays_forEach {l : List α} {f : α → Proc σ ε Unit} {moves : α → List ι}
    (hf : ∀ a ∈ l, Replays Inv obs step (moves a) (f a)) :
    Replays Inv obs step (l.flatMap moves) (forEach l f) := by
  induction l with
  | nil => exact replays_pure ()
  | cons a l ih =>
    rw [List.flatMap_cons, forEach_cons]
    exact replays_bind (hf a List.mem_cons_self) fun _ ↦
      ih fun b hb ↦ hf b (List.mem_cons_of_mem a hb)

end Replays

end Proc

end Python
