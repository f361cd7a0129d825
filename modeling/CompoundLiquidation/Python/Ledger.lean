import CompoundLiquidation.Python.Proc
import Mathlib.Data.List.Forall2

/-!
# Ledgers

The state of a computation need not show what has been done with it. `Writes` keeps a ledger of
this beside the states: a relation between the state before, the entries and the state behind, which
holds whether the computation returns or raises. What is returned may refer to the entries.

Where the state is a list of which each place has a history of its own, an entry is about two states
of one place. Places that belong together stay together when histories are put one behind the other.
-/

namespace Python

/-! ## Computations with a ledger -/

namespace Proc

variable {σ ε ℓ α : Type*}

/-- A run of the computation writes entries. If it returns, the outcome refers to them. -/
def Writes (R : σ → List ℓ → σ → Prop) (Q : α → List ℓ → Prop) (x : Proc σ ε α) : Prop :=
  ∀ s, ∃ l, R s l (x.run s).2 ∧ ∀ a, (x.run s).1 = .ok a → Q a l

section Writes

variable {R : σ → List ℓ → σ → Prop} {Q : α → List ℓ → Prop}

theorem writes_pure (hrefl : ∀ s, R s [] s) {a : α} (ha : Q a []) :
    Writes R Q (pure a : Proc σ ε α) := fun s ↦
  ⟨[], hrefl s, fun _ h ↦ Except.ok.inj h ▸ ha⟩

theorem writes_ite {c : Prop} [Decidable c] {x y : Proc σ ε α} (hx : c → Writes R Q x)
    (hy : ¬ c → Writes R Q y) : Writes R Q (if c then x else y) := by
  by_cases h : c
  · rw [if_pos h]
    exact hx h
  · rw [if_neg h]
    exact hy h

theorem writes_zoom {τ : Type*} (get : τ → σ) (put : σ → τ → τ) {R' : τ → List ℓ → τ → Prop}
    (hput : ∀ t l s, R (get t) l s → R' t l (put s t)) {x : Proc σ ε α} (hx : Writes R Q x) :
    Writes R' Q (zoom get put x) := by
  intro t
  obtain ⟨l, hl, hreturn⟩ := hx (get t)
  exact ⟨l, hput t l _ hl, hreturn⟩

end Writes

/-- A first part that writes nothing. What is written may depend on what it returns. -/
theorem writes_after {α β : Type _} {R : σ → List ℓ → σ → Prop} {Q : β → List ℓ → Prop}
    (htrans : ∀ s l t l' u, R s l t → R t l' u → R s (l ++ l') u) {x : Proc σ ε α}
    {f : α → Proc σ ε β} (hx : Keeps (fun s s' ↦ R s [] s') x)
    (hf : ∀ a s s', x.run s = (.ok a, s') → Writes R Q (f a)) : Writes R Q (x >>= f) := by
  intro s
  have hs := hx s
  rw [run_bind]
  match hrun : x.run s with
  | (.ok a, s') =>
    rw [hrun] at hs
    obtain ⟨l, hl, hreturn⟩ := hf a s s' hrun s'
    exact ⟨l, htrans s [] s' l _ hs hl, hreturn⟩
  | (.error e, s') =>
    rw [hrun] at hs
    exact ⟨[], hs, nofun⟩

/-- The ledger of a sequence is that of its first part and then that of its second. -/
theorem writes_bind {α β : Type _} {R : σ → List ℓ → σ → Prop} {Q : α → List ℓ → Prop}
    {Q' : β → List ℓ → Prop}
    (htrans : ∀ s l t l' u, R s l t → R t l' u → R s (l ++ l') u) {x : Proc σ ε α}
    {f : α → Proc σ ε β} (hx : Writes R Q x)
    (hf : ∀ a l, Q a l → Writes R (fun b l' ↦ Q' b (l ++ l')) (f a)) :
    Writes R Q' (x >>= f) := by
  intro s
  obtain ⟨l, hl, hreturn⟩ := hx s
  rw [run_bind]
  match hrun : x.run s with
  | (.ok a, s') =>
    rw [hrun] at hl hreturn
    obtain ⟨l', hl', hreturn'⟩ := hf a l (hreturn a rfl) s'
    exact ⟨l ++ l', htrans s l s' l' _ hl hl', hreturn'⟩
  | (.error e, s') =>
    rw [hrun] at hl
    exact ⟨l, hl, nofun⟩

end Proc

/-! ## Places -/

section Places

variable {α : Type*} {R R' : α → α → Prop} {l l' l'' : List α}

/-- The place of two states has a third one behind them. -/
theorem exists_mem_zip_of_before (h : List.Forall₂ R l l') (h' : List.Forall₂ R' l' l'')
    {a b : α} (hmem : (a, b) ∈ l.zip l') : ∃ c, (a, c) ∈ l.zip l'' ∧ R' b c := by
  induction h generalizing l'' with
  | nil => exact absurd hmem List.not_mem_nil
  | @cons x y xs ys hxy hrest ih =>
    obtain ⟨z, zs, hyz, hrest', rfl⟩ := List.forall₂_cons_left_iff.mp h'
    rw [List.zip_cons_cons, List.mem_cons] at hmem
    obtain heq | hmem := hmem
    · obtain ⟨rfl, rfl⟩ := Prod.mk.inj heq
      exact ⟨z, List.mem_cons_self, hyz⟩
    · obtain ⟨c, hc, hbc⟩ := ih hrest' hmem
      exact ⟨c, List.mem_cons_of_mem _ hc, hbc⟩

/-- The place of two states has a third one in front of them. -/
theorem exists_mem_zip_of_behind (h : List.Forall₂ R l l') (h' : List.Forall₂ R' l' l'')
    {b c : α} (hmem : (b, c) ∈ l'.zip l'') : ∃ a, (a, c) ∈ l.zip l'' ∧ R a b := by
  induction h generalizing l'' with
  | nil => exact absurd hmem List.not_mem_nil
  | @cons x y xs ys hxy hrest ih =>
    obtain ⟨z, zs, hyz, hrest', rfl⟩ := List.forall₂_cons_left_iff.mp h'
    rw [List.zip_cons_cons, List.mem_cons] at hmem
    obtain heq | hmem := hmem
    · obtain ⟨rfl, rfl⟩ := Prod.mk.inj heq
      exact ⟨x, List.mem_cons_self, hxy⟩
    · obtain ⟨a, ha, hab⟩ := ih hrest' hmem
      exact ⟨a, List.mem_cons_of_mem _ ha, hab⟩

/-- Histories of the places, one behind the other. -/
theorem forall₂_trans (htrans : ∀ a b c, R a b → R b c → R a c) (h : List.Forall₂ R l l')
    (h' : List.Forall₂ R l' l'') : List.Forall₂ R l l'' := by
  induction h generalizing l'' with
  | nil => exact h'
  | @cons x y xs ys hxy hrest ih =>
    obtain ⟨z, zs, hyz, hrest', rfl⟩ := List.forall₂_cons_left_iff.mp h'
    exact .cons (htrans x y z hxy hyz) (ih hrest')

end Places

end Python
