import CompoundLiquidation.Python.Float

/-!
# Searching a sorted list

A list in ascending order begins with the elements below a threshold. How many there are
(`List.countP`) is where a search should end, so the facts are stated about this number.
-/

namespace Python

variable {α : Type*}

/-! ## Indices -/

/-- `l[i]`. Negative indices count from the end. -/
def itemAt (l : List α) (i : ℤ) : Except Error α :=
  let i := if i < 0 then i + l.length else i
  if i < 0 then .error .indexError else okOr l[i.toNat]? .indexError

/-- `l[0:b]`. Negative indices count from the end. -/
def sliceTo (l : List α) (b : ℤ) : List α := l.take (if b < 0 then b + l.length else b).toNat

theorem itemAt_natCast {l : List α} {i : ℕ} (h : i < l.length) : itemAt l i = .ok l[i] := by
  rw [itemAt, if_neg (by omega), if_neg (by omega), Int.toNat_natCast,
    List.getElem?_eq_getElem h, okOr_some]

theorem sliceTo_natCast (l : List α) (b : ℕ) : sliceTo l b = l.take b := by
  rw [sliceTo, if_neg (by omega), Int.toNat_natCast]

/-! ## Midpoints -/

/-- A midpoint lies strictly inside of a window of three or more. -/
theorem roundHalfEven_midpoint {left right : ℤ} (h : left < right - 1) :
    left + 1 ≤ roundHalfEven ((left + right : ℤ) / 2) ∧
      roundHalfEven ((left + right : ℤ) / 2) ≤ right - 1 := by
  constructor
  · refine le_roundHalfEven ?_
    rw [le_div_iff₀ (by norm_num)]
    exact_mod_cast (by omega : (left + 1) * 2 ≤ left + right)
  · refine roundHalfEven_le ?_
    rw [div_le_iff₀ (by norm_num)]
    exact_mod_cast (by omega : left + right ≤ (right - 1) * 2)

/-! ## The elements in front -/

section Front

variable {p q : α → Bool} {l : List α}

/-- The elements with a property stand in front of those without it. -/
def LeadsWith (p : α → Bool) (l : List α) : Prop := l.Pairwise fun a b ↦ p b = true → p a = true

theorem LeadsWith.tail {a : α} (h : LeadsWith p (a :: l)) : LeadsWith p l :=
  (List.pairwise_cons.mp h).2

/-- Behind an element without the property no element has it. -/
theorem LeadsWith.countP_tail {a : α} (h : LeadsWith p (a :: l)) (ha : p a = false) :
    l.countP p = 0 := by
  rw [List.countP_eq_zero]
  intro b hb hpb
  rw [(List.pairwise_cons.mp h).1 b hb hpb] at ha
  cases ha

theorem LeadsWith.countP_cons {a : α} (h : LeadsWith p (a :: l)) :
    (a :: l).countP p = if p a = true then l.countP p + 1 else 0 := by
  by_cases ha : p a = true
  · rw [if_pos ha, List.countP_cons_of_pos ha]
  · rw [if_neg ha, List.countP_cons_of_neg ha, h.countP_tail (Bool.eq_false_iff.mpr ha)]

/-- An index is among the front elements iff it is below their number. -/
theorem LeadsWith.getElem_iff (h : LeadsWith p l) {i : ℕ} (hi : i < l.length) :
    p l[i] = true ↔ i < l.countP p := by
  induction l generalizing i with
  | nil => exact absurd hi (Nat.not_lt_zero i)
  | cons a l ih =>
    rw [h.countP_cons]
    rcases i with _ | i
    · by_cases ha : p a = true
      · rw [if_pos ha]
        exact iff_of_true ha (Nat.succ_pos _)
      · rw [if_neg ha]
        exact iff_of_false ha (Nat.not_lt_zero 0)
    · rw [List.getElem_cons_succ, ih h.tail]
      by_cases ha : p a = true
      · rw [if_pos ha, Nat.succ_lt_succ_iff]
      · rw [if_neg ha, h.countP_tail (Bool.eq_false_iff.mpr ha)]
        exact iff_of_false (Nat.not_lt_zero i) (Nat.not_lt_zero _)

/-- Between two thresholds. -/
theorem LeadsWith.countP_and_not (hp : LeadsWith p l) (hq : LeadsWith q l) :
    l.countP (fun a ↦ p a && !q a) = l.countP p - l.countP q := by
  induction l with
  | nil => rfl
  | cons a l ih =>
    rw [hp.countP_cons, hq.countP_cons, List.countP_cons, ih hp.tail hq.tail]
    by_cases ha : p a = true
    · by_cases hb : q a = true
      · simp [ha, hb]
      · rw [hq.countP_tail (Bool.eq_false_iff.mpr hb)]
        simp [ha, hb]
    · rw [hp.countP_tail (Bool.eq_false_iff.mpr ha)]
      simp [ha]

end Front

end Python
