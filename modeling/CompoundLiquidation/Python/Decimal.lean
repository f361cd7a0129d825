import CompoundLiquidation.Python.Bytes

/-!
# Decimal numerals

`str` writes an integer in decimal digits with a sign in front of a negative one, and that is what
`toString` does here. `int` reads such text back, and allows white space around it, a plus sign and
underscores between digits. Zeros written behind a numeral multiply the number by powers of ten.
-/

namespace Python

/-- Decimal digits with single underscores between them. `afterDigit` says that the last character
was a digit. -/
def decDigits (afterDigit : Bool) (acc : ℕ) : List Char → Option ℕ
  | [] => if afterDigit then some acc else none
  | c :: cs =>
    if c.isDigit then decDigits true (10 * acc + (c.toNat - '0'.toNat)) cs
    else if c = '_' && afterDigit then decDigits false acc cs else none

/-- `int(s)` on ASCII text of any length. -/
def int10 (s : String) : Option ℤ :=
  match stripSpace s.toList with
  | '-' :: cs => (decDigits false 0 cs).map fun n : ℕ ↦ -(n : ℤ)
  | '+' :: cs => (decDigits false 0 cs).map Nat.cast
  | cs => (decDigits false 0 cs).map Nat.cast

theorem decDigits_of_isDigit {cs : List Char} (h : ∀ c ∈ cs, c.isDigit) :
    ∀ acc : ℕ, decDigits true acc cs = some (Nat.ofDigitChars 10 cs acc) := by
  induction cs with
  | nil => exact fun acc ↦ by rw [decDigits, if_pos rfl, Nat.ofDigitChars_nil]
  | cons c cs ih =>
    intro acc
    rw [decDigits, if_pos (h c List.mem_cons_self),
      ih fun d hd ↦ h d (List.mem_cons_of_mem c hd), Nat.ofDigitChars_cons]

/-- The numeral of a number with zeros behind it. -/
theorem decDigits_append_zeros (n k : ℕ) :
    decDigits false 0 (Nat.toDigits 10 n ++ List.replicate k '0') = some (n * 10 ^ k) := by
  have hdigits : ∀ c ∈ Nat.toDigits 10 n ++ List.replicate k '0', c.isDigit = true := by
    intro c hc
    rcases List.mem_append.mp hc with hc | hc
    · exact Nat.isDigit_of_mem_toDigits (by decide) (by decide) hc
    · rw [List.eq_of_mem_replicate hc]
      rfl
  have hvalue : Nat.ofDigitChars 10 (Nat.toDigits 10 n ++ List.replicate k '0') 0 = n * 10 ^ k := by
    rw [Nat.ofDigitChars_append, Nat.ofDigitChars_ten_toDigits, Nat.ofDigitChars_replicate_zero,
      Nat.mul_comm]
  rcases hcs : Nat.toDigits 10 n ++ List.replicate k '0' with _ | ⟨c, cs⟩
  · exact absurd (List.append_eq_nil_iff.mp hcs).1 Nat.toDigits_ne_nil
  rw [hcs] at hdigits hvalue
  rw [decDigits, if_pos (hdigits c List.mem_cons_self),
    decDigits_of_isDigit fun d hd ↦ hdigits d (List.mem_cons_of_mem c hd), ← Nat.ofDigitChars_cons,
    hvalue]

private theorem toNat_of_isDigit {c : Char} (h : c.isDigit) : 48 ≤ c.toNat := by
  have hle : ∀ {a b : Char}, a ≤ b → a.toNat ≤ b.toNat := fun h ↦ h
  simp only [Char.isDigit, Bool.and_eq_true, decide_eq_true_eq] at h
  exact hle h.1

private theorem isSpace_of_toNat {c : Char} (h : 33 ≤ c.toNat) : isSpace c = false := by
  have hle : ∀ {a b : Char}, a ≤ b → a.toNat ≤ b.toNat := fun h ↦ h
  rw [isSpace, Bool.or_eq_false_iff, Bool.and_eq_false_iff, decide_eq_false_iff_not,
    decide_eq_false_iff_not, decide_eq_false_iff_not]
  refine ⟨fun heq ↦ ?_, .inr fun hreturn ↦ ?_⟩
  · rw [heq] at h
    exact absurd h (by decide)
  · have hreturn' : c.toNat ≤ 13 := hle hreturn
    omega

/-- Zeros behind the numeral of an integer multiply it. -/
theorem int10_append_zeros (z : ℤ) (k : ℕ) :
    int10 (toString z ++ String.ofList (List.replicate k '0')) = some (z * 10 ^ k) := by
  have hdigit : ∀ n, ∀ c ∈ Nat.toDigits 10 n ++ List.replicate k '0', 48 ≤ c.toNat := by
    intro n c hc
    rcases List.mem_append.mp hc with hc | hc
    · exact toNat_of_isDigit (Nat.isDigit_of_mem_toDigits (by decide) (by decide) hc)
    · rw [List.eq_of_mem_replicate hc]
      decide
  have hstrip : ∀ n, stripSpace (Nat.toDigits 10 n ++ List.replicate k '0')
      = Nat.toDigits 10 n ++ List.replicate k '0' := fun n ↦
    stripSpace_of_forall fun c hc ↦ isSpace_of_toNat ((by decide : 33 ≤ 48).trans (hdigit n c hc))
  rw [Int.toString_eq_repr, Int.repr_eq_if]
  split_ifs with hz
  · obtain ⟨n, rfl⟩ := Int.eq_ofNat_of_zero_le hz
    rw [int10, Int.toNat_natCast, String.toList_append, String.toList_ofList, Nat.toList_repr,
      hstrip]
    split
    · next heq => exact absurd (hdigit n '-' (heq ▸ List.mem_cons_self)) (by decide)
    · next heq => exact absurd (hdigit n '+' (heq ▸ List.mem_cons_self)) (by decide)
    · rw [decDigits_append_zeros, Option.map_some]
      push_cast
      rfl
  · have hminus : ("-" ++ (-z).toNat.repr ++ String.ofList (List.replicate k '0')).toList
        = '-' :: (Nat.toDigits 10 (-z).toNat ++ List.replicate k '0') := by
      simp only [String.toList_append, String.toList_ofList, Nat.toList_repr]
      rfl
    have hvalue : -(((-z).toNat : ℤ) * 10 ^ k) = z * 10 ^ k := by
      rw [Int.toNat_of_nonneg (by omega), neg_mul, neg_neg]
    rw [int10, hminus, stripSpace_of_forall]
    · simp only [decDigits_append_zeros, Option.map_some, Option.some_inj]
      push_cast
      exact hvalue
    · intro c hc
      rcases List.mem_cons.mp hc with rfl | hc
      · decide
      · exact isSpace_of_toNat ((by decide : 33 ≤ 48).trans (hdigit _ c hc))

end Python
