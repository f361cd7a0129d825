import CompoundLiquidation.Python.Proc

/-!
# Computations around one call

A long computation may do only one thing that matters, in one of its branches, and be quiet apart
from that. What can be said of it is then said of that one call, in the state it is made in. Behind
the call less may be allowed than in front of it, so that two relations are needed. Whether the call
raises is kept as well, as the exception goes through to the end.
-/

namespace Python

namespace Proc

variable {σ ε γ : Type*}

section CallsOnce

variable {Quiet Settled : σ → σ → Prop} {Call : σ → Except ε γ × σ → Prop}

/-- From this state the computation is quiet, or it is quiet up to a call and settled behind it, and
raises if the call does. -/
def CallsOnce {α : Type*} (Quiet : σ → σ → Prop) (Call : σ → Except ε γ × σ → Prop)
    (Settled : σ → σ → Prop) (x : Proc σ ε α) (s : σ) : Prop :=
  Quiet s (x.run s).2 ∨ ∃ s₁ r, Quiet s s₁ ∧ Call s₁ r ∧ Settled r.2 (x.run s).2 ∧
    ∀ e, r.1 = .error e → ∃ e', (x.run s).1 = .error e'

variable {α β : Type _} {s : σ}

/-- First something quiet. What is called may depend on what it returns. -/
theorem callsOnce_after (htrans : ∀ s t u, Quiet s t → Quiet t u → Quiet s u) {x : Proc σ ε α}
    {f : α → Proc σ ε β} (hx : Quiet s (x.run s).2)
    (hf : ∀ a s', x.run s = (.ok a, s') → CallsOnce Quiet Call Settled (f a) s') :
    CallsOnce Quiet Call Settled (x >>= f) s := by
  match hrun : x.run s with
  | (.error e, s') =>
    rw [hrun] at hx
    rw [CallsOnce, run_bind_of_error hrun]
    exact .inl hx
  | (.ok a, s') =>
    rw [hrun] at hx
    rw [CallsOnce, run_bind_of_ok hrun]
    obtain hquiet | ⟨s₁, r, hbefore, hcall, hbehind, hraises⟩ := hf a s' hrun
    · exact .inl (htrans s s' _ hx hquiet)
    · exact .inr ⟨s₁, r, htrans s s' s₁ hx hbefore, hcall, hbehind, hraises⟩

/-- Something settled in the end. -/
theorem callsOnce_then (hquiet : ∀ s t u, Quiet s t → Settled t u → Quiet s u)
    (htrans : ∀ s t u, Settled s t → Settled t u → Settled s u) {x : Proc σ ε α}
    {f : α → Proc σ ε β} (hx : CallsOnce Quiet Call Settled x s) (hf : ∀ a, Keeps Settled (f a)) :
    CallsOnce Quiet Call Settled (x >>= f) s := by
  rw [CallsOnce] at hx
  match hrun : x.run s with
  | (.error e, s') =>
    rw [hrun] at hx
    rw [CallsOnce, run_bind_of_error hrun]
    exact hx.imp_right fun ⟨s₁, r, hbefore, hcall, hbehind, hraises⟩ ↦
      ⟨s₁, r, hbefore, hcall, hbehind, fun e' _ ↦ ⟨e, rfl⟩⟩
  | (.ok a, s') =>
    rw [hrun] at hx
    rw [CallsOnce, run_bind_of_ok hrun]
    obtain hx | ⟨s₁, r, hbefore, hcall, hbehind, hraises⟩ := hx
    · exact .inl (hquiet s s' _ hx (hf a s'))
    · refine .inr ⟨s₁, r, hbefore, hcall, htrans _ s' _ hbehind (hf a s'), fun e he ↦ ?_⟩
      obtain ⟨e', he'⟩ := hraises e he
      cases he'

/-- A branch is taken in the state of the test. -/
theorem callsOnce_ite {c : Prop} [Decidable c] {x y : Proc σ ε α}
    (hx : c → CallsOnce Quiet Call Settled x s) (hy : ¬ c → CallsOnce Quiet Call Settled y s) :
    CallsOnce Quiet Call Settled (if c then x else y) s := by
  by_cases h : c
  · rw [if_pos h]
    exact hx h
  · rw [if_neg h]
    exact hy h

end CallsOnce

end Proc

end Python
