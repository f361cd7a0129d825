import CompoundLiquidation.Python.Proc

/-!
# While loops

A `while` statement may not come to an end, so its meaning is given for a bounded number of tests:
`whileFor n` is the outcome when the loop stops within `n` tests, and `none` when it does not. The
bound is not part of the program. `Stops` forgets it, and a loop that stops has one outcome only.

Three rules are all that proofs about a program need. A number that every round decreases makes the
loop stop. What every round keeps holds when the loop is left. And when the loop is left by an
exception, it holds in front of the round that raised.
-/

namespace Python

namespace Proc

variable {σ ε : Type*}

/-- `while test: body`, when it stops within so many tests. -/
def whileFor (test : σ → Bool) (body : Proc σ ε Unit) : ℕ → σ → Option (Except ε Unit × σ)
  | 0, _ => none
  | n + 1, s =>
    if test s then
      match body.run s with
      | (.ok (), s') => whileFor test body n s'
      | (.error e, s') => some (.error e, s')
    else some (.ok (), s)

/-- `while test: body` stops with this outcome. -/
def Stops (test : σ → Bool) (body : Proc σ ε Unit) (s : σ) (out : Except ε Unit × σ) : Prop :=
  ∃ n, whileFor test body n s = some out

variable {test : σ → Bool} {body : Proc σ ε Unit}

theorem whileFor_of_not {s : σ} (h : test s = false) (n : ℕ) :
    whileFor test body (n + 1) s = some (.ok (), s) := by
  rw [whileFor, h, if_neg Bool.false_ne_true]

theorem whileFor_of_ok {s s' : σ} (h : test s = true) (hrun : body.run s = (.ok (), s')) (n : ℕ) :
    whileFor test body (n + 1) s = whileFor test body n s' := by
  rw [whileFor, if_pos h, hrun]

theorem whileFor_of_error {s s' : σ} {e : ε} (h : test s = true)
    (hrun : body.run s = (.error e, s')) (n : ℕ) :
    whileFor test body (n + 1) s = some (.error e, s') := by
  rw [whileFor, if_pos h, hrun]

/-- More tests do not change the outcome. -/
theorem whileFor_mono {out : Except ε Unit × σ} {m n : ℕ} (hmn : m ≤ n) {s : σ}
    (h : whileFor test body m s = some out) : whileFor test body n s = some out := by
  induction m generalizing n s with
  | zero => cases h
  | succ m ih =>
    obtain ⟨n, rfl⟩ := Nat.exists_eq_add_of_le hmn
    rw [Nat.add_right_comm] at hmn ⊢
    by_cases htest : test s = true
    · rcases hrun : body.run s with ⟨e | _, s'⟩
      · rw [whileFor_of_error htest hrun] at h ⊢
        exact h
      · rw [whileFor_of_ok htest hrun] at h ⊢
        exact ih (Nat.le_of_succ_le_succ hmn) h
    · rw [Bool.not_eq_true] at htest
      rw [whileFor_of_not htest] at h ⊢
      exact h

/-- A loop that stops has one outcome. -/
theorem Stops.unique {s : σ} {out out' : Except ε Unit × σ} (h : Stops test body s out)
    (h' : Stops test body s out') : out = out' := by
  obtain ⟨m, hm⟩ := h
  obtain ⟨n, hn⟩ := h'
  have hout := whileFor_mono (Nat.le_max_left m n) hm
  rw [whileFor_mono (Nat.le_max_right m n) hn] at hout
  exact (Option.some_inj.mp hout).symm

/-- **Termination.** A loop stops within as many tests as a number that every round decreases says,
and one more. -/
theorem whileFor_isSome (μ : σ → ℕ)
    (hdec : ∀ s s', test s = true → body.run s = (.ok (), s') → μ s' < μ s) {n : ℕ} :
    ∀ {s : σ}, μ s < n → ∃ out, whileFor test body n s = some out := by
  induction n with
  | zero => exact fun h ↦ absurd h (Nat.not_lt_zero _)
  | succ n ih =>
    intro s hs
    by_cases htest : test s = true
    · rcases hrun : body.run s with ⟨e | _, s'⟩
      · exact ⟨_, whileFor_of_error htest hrun n⟩
      · rw [whileFor_of_ok htest hrun]
        exact ih (Nat.lt_of_lt_of_le (hdec s s' htest hrun) (Nat.le_of_lt_succ hs))
    · rw [Bool.not_eq_true] at htest
      exact ⟨_, whileFor_of_not htest n⟩

theorem exists_stops (μ : σ → ℕ)
    (hdec : ∀ s s', test s = true → body.run s = (.ok (), s') → μ s' < μ s) (s : σ) :
    ∃ out, Stops test body s out := by
  obtain ⟨out, hout⟩ := whileFor_isSome μ hdec (Nat.lt_succ_self (μ s))
  exact ⟨out, _, hout⟩

/-- **The invariant.** What every round keeps holds when the loop is left, and the test fails
there. When a round raises, it held in front of that round. -/
theorem Stops.invariant {inv : σ → Prop}
    (hkeep : ∀ s s', inv s → test s = true → body.run s = (.ok (), s') → inv s') {s : σ}
    {out : Except ε Unit × σ} (h : Stops test body s out) (hs : inv s) :
    (out.1 = .ok () ∧ inv out.2 ∧ test out.2 = false) ∨
      ∃ e s', out.1 = .error e ∧ inv s' ∧ test s' = true ∧ body.run s' = out := by
  obtain ⟨n, hn⟩ := h
  induction n generalizing s with
  | zero => cases hn
  | succ n ih =>
    by_cases htest : test s = true
    · rcases hrun : body.run s with ⟨e | _, s'⟩
      · rw [whileFor_of_error htest hrun, Option.some_inj] at hn
        exact .inr ⟨e, s, hn ▸ rfl, hs, htest, hn ▸ hrun⟩
      · rw [whileFor_of_ok htest hrun] at hn
        exact ih (hkeep s s' hs htest hrun) hn
    · rw [Bool.not_eq_true] at htest
      rw [whileFor_of_not htest, Option.some_inj] at hn
      exact .inl ⟨hn ▸ rfl, hn ▸ hs, hn ▸ htest⟩

end Proc

end Python
