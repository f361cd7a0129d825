import CompoundLiquidation.Python.Proc
import Mathlib.Data.Int.Log
import Mathlib.Data.Rat.Floor
import Mathlib.Tactic.LinearCombination

/-!
# Floats

A float is the rational number it stands for, and an operation on floats is the exact one followed
by a rounding to 53 binary digits, ties to even. Zeros have no sign, and exponents are not bounded
below, so that numbers under `2 ^ -1022` keep all their digits. A quotient of integers that is too
large is an `OverflowError`, as in Python.
-/

namespace Python

/-- The nearest integer, the even one of two. -/
def roundHalfEven (x : ℚ) : ℤ :=
  let rest := x - ⌊x⌋
  if rest < 1 / 2 ∨ rest = 1 / 2 ∧ ⌊x⌋ % 2 = 0 then ⌊x⌋ else ⌊x⌋ + 1

/-- The float nearest to a number. -/
def toFloat (x : ℚ) : ℚ :=
  if x = 0 then 0
  else
    let ulp : ℚ := 2 ^ (Int.log 2 |x| - 52)
    roundHalfEven (x / ulp) * ulp

/-- `a / b` for integers, which is rounded once. -/
def trueDiv (a b : ℤ) : Except Error ℚ :=
  if b = 0 then .error .zeroDivisionError
  else
    let q := toFloat (a / b)
    if 2 ^ 1024 ≤ |q| then .error (.exception "integer division result too large for a float")
    else .ok q

/-- A quotient without rounding, for results about exact numbers. -/
def exactDiv (a b : ℤ) : Except Error ℚ := .ok (a / b)

/-- `int(x)`. -/
def truncate (x : ℚ) : ℤ := if 0 ≤ x then ⌊x⌋ else ⌈x⌉

/-- One tenth is not a float, and nine tenths differ from one by less than the float next to it. -/
example : |toFloat (toFloat (9 / 10) - 1)| < toFloat (1 / 10) ∧ 1 / 10 < toFloat (1 / 10) := by
  decide +kernel

/-! ## Rounding to an integer -/

/-- Rounding does not cross an integer. -/
theorem le_roundHalfEven {a : ℤ} {x : ℚ} (h : a ≤ x) : a ≤ roundHalfEven x := by
  have hfloor : a ≤ ⌊x⌋ := Int.le_floor.mpr h
  rw [roundHalfEven]
  split_ifs
  · exact hfloor
  · omega

theorem roundHalfEven_le {b : ℤ} {x : ℚ} (h : x ≤ b) : roundHalfEven x ≤ b := by
  have hfloor : ⌊x⌋ ≤ b := Int.cast_le.mp ((Int.floor_le x).trans h)
  rw [roundHalfEven]
  split_ifs with hrest
  · exact hfloor
  · refine Int.add_one_le_of_lt (lt_of_le_of_ne hfloor fun heq ↦ hrest (.inl ?_))
    -- `x` is the integer `b`, so that there is no rest
    have hx : x = b := le_antisymm h (heq ▸ Int.floor_le x)
    rw [heq, hx, sub_self]
    norm_num

theorem roundHalfEven_intCast (n : ℤ) : roundHalfEven n = n :=
  le_antisymm (roundHalfEven_le le_rfl) (le_roundHalfEven le_rfl)

/-- No integer is nearer. -/
theorem abs_roundHalfEven_sub_le (k : ℤ) (x : ℚ) : |(roundHalfEven x : ℚ) - x| ≤ |(k : ℚ) - x| := by
  have hfloor := Int.floor_le x
  have hceil := Int.lt_floor_add_one x
  -- the rest up to `k` is at least the one to the integer next to `x` on this side
  have hside : x - ⌊x⌋ ≤ |(k : ℚ) - x| ∨ ⌊x⌋ + 1 - x ≤ |(k : ℚ) - x| := by
    obtain hle | hlt := le_or_gt k ⌊x⌋
    · have hk : (k : ℚ) ≤ ⌊x⌋ := by exact_mod_cast hle
      exact .inl (by rw [abs_of_nonpos (by linarith)]; linarith)
    · have hk : (⌊x⌋ : ℚ) + 1 ≤ k := by exact_mod_cast hlt
      exact .inr (by rw [abs_of_nonneg (by linarith)]; linarith)
  rw [roundHalfEven]
  split_ifs with hrest
  · have hhalf : x - ⌊x⌋ ≤ 1 / 2 := hrest.elim le_of_lt fun h ↦ h.1.le
    rw [abs_of_nonpos (by linarith)]
    obtain h | h := hside <;> linarith
  · have hhalf : 1 / 2 ≤ x - ⌊x⌋ := not_lt.mp fun h ↦ hrest (.inl h)
    rw [Int.cast_add, Int.cast_one, abs_of_nonneg (by linarith)]
    obtain h | h := hside <;> linarith

/-! ## Floats among the numbers -/

/-- A number that is a float. -/
def IsFloat (x : ℚ) : Prop := toFloat x = x

instance (x : ℚ) : Decidable (IsFloat x) := inferInstanceAs (Decidable (_ = _))

/-- Fifty-three digits are kept. -/
theorem isFloat_mul_zpow {n : ℤ} (h : |n| < 2 ^ 53) (e : ℤ) : IsFloat (n * 2 ^ e) := by
  obtain rfl | hn := eq_or_ne n 0
  · rw [Int.cast_zero, zero_mul, IsFloat, toFloat, if_pos rfl]
  have hne : (n : ℚ) * 2 ^ e ≠ 0 := 
    mul_ne_zero (Int.cast_ne_zero.mpr hn) (zpow_ne_zero e two_ne_zero)
  have hlog : Int.log 2 |(n : ℚ) * 2 ^ e| < 53 + e := by
    have hcast : |(n : ℚ)| < 2 ^ (53 : ℤ) := by exact_mod_cast h
    rw [← Int.lt_zpow_iff_log_lt one_lt_two (abs_pos.mpr hne), abs_mul, Nat.cast_ofNat,
      abs_of_pos (zpow_pos two_pos e : (0 : ℚ) < 2 ^ e), zpow_add₀ two_ne_zero]
    exact mul_lt_mul_of_pos_right hcast (zpow_pos two_pos e)
  obtain ⟨k, hk⟩ := Int.le.dest (Int.le_of_lt_add_one (by omega :
    Int.log 2 |(n : ℚ) * 2 ^ e| - 52 < e + 1))
  -- the quotient by the unit in the last place is an integer
  have hquotient : (n : ℚ) * 2 ^ e / 2 ^ (Int.log 2 |(n : ℚ) * 2 ^ e| - 52)
      = ((n * 2 ^ k : ℤ) : ℚ) := by
    have hpow : (2 : ℚ) ^ e = 2 ^ (Int.log 2 |(n : ℚ) * 2 ^ e| - 52) * 2 ^ k := by
      rw [← zpow_natCast, ← zpow_add₀ two_ne_zero, hk]
    rw [div_eq_iff (zpow_ne_zero _ two_ne_zero), Int.cast_mul, Int.cast_pow, Int.cast_ofNat]
    linear_combination (n : ℚ) * hpow
  rw [IsFloat, toFloat, if_neg hne]
  dsimp only
  rw [hquotient, roundHalfEven_intCast, ← hquotient,
    div_mul_cancel₀ _ (zpow_ne_zero _ two_ne_zero)]

/-- A rounding has at most fifty-three digits, or is the power of two behind them. -/
theorem isFloat_toFloat (x : ℚ) : IsFloat (toFloat x) := by
  obtain rfl | hx := eq_or_ne x 0
  · rfl
  rw [toFloat, if_neg hx]
  dsimp only
  generalize hl : Int.log 2 |x| - 52 = e
  have hulp : (0 : ℚ) < 2 ^ e := zpow_pos two_pos e
  have hbound : |x / 2 ^ e| ≤ ((2 ^ 53 : ℤ) : ℚ) := by
    have hlt : |x| < 2 ^ (53 + e) := by
      have hsucc := Int.lt_zpow_succ_log_self one_lt_two |x|
      rwa [Nat.cast_ofNat, (by omega : Int.log 2 |x| + 1 = 53 + e)] at hsucc
    rw [abs_div, abs_of_pos hulp, div_le_iff₀ hulp]
    rw [zpow_add₀ two_ne_zero] at hlt
    exact hlt.le
  have hround : |roundHalfEven (x / 2 ^ e)| ≤ 2 ^ 53 := by
    obtain ⟨hlow, hhigh⟩ := abs_le.mp hbound
    exact abs_le.mpr ⟨le_roundHalfEven (by exact_mod_cast hlow), roundHalfEven_le hhigh⟩
  obtain hlt | heq := hround.lt_or_eq
  · exact isFloat_mul_zpow hlt e
  · have hcarry : ∀ n : ℤ, |n| < 2 ^ 53 → IsFloat ((2 * n : ℤ) * 2 ^ e) := by
      intro n hn
      have hpow : ((2 * n : ℤ) : ℚ) * 2 ^ e = n * 2 ^ (e + 1) := by
        rw [zpow_add_one₀ two_ne_zero]
        push_cast
        ring
      rw [hpow]
      exact isFloat_mul_zpow hn (e + 1)
    obtain hpos | hneg := abs_eq (by norm_num) |>.mp heq
    · rw [hpos]
      exact hcarry (2 ^ 52) (by norm_num)
    · rw [hneg]
      exact hcarry (-2 ^ 52) (by norm_num)

theorem isFloat_of_trueDiv {a b : ℤ} {q : ℚ} (h : trueDiv a b = .ok q) : IsFloat q := by
  rw [trueDiv] at h
  dsimp only at h
  split_ifs at h
  rw [← Except.ok.inj h]
  exact isFloat_toFloat _

/-- A float is a multiple of every unit that its magnitude allows. -/
theorem IsFloat.exists_mul_zpow {y : ℚ} (h : IsFloat y) {l : ℤ} (hl : 2 ^ l ≤ |y|) :
    ∃ n : ℤ, y = n * 2 ^ (l - 52) := by
  have hpos : 0 < |y| := lt_of_lt_of_le (zpow_pos two_pos l) hl
  have hne : y ≠ 0 := abs_pos.mp hpos
  have hlog : l ≤ Int.log 2 |y| := by
    rw [← Int.zpow_le_iff_le_log one_lt_two hpos]
    exact_mod_cast hl
  obtain ⟨k, hk⟩ := Int.le.dest hlog
  rw [IsFloat, toFloat, if_neg hne] at h
  dsimp only at h
  refine ⟨roundHalfEven (y / 2 ^ (Int.log 2 |y| - 52)) * 2 ^ k, ?_⟩
  have hpow : (2 : ℚ) ^ (Int.log 2 |y| - 52) = 2 ^ k * 2 ^ (l - 52) := by
    rw [← zpow_natCast, ← zpow_add₀ two_ne_zero, ← hk]
    congr 1
    ring
  calc y = roundHalfEven (y / 2 ^ (Int.log 2 |y| - 52)) * 2 ^ (Int.log 2 |y| - 52) := h.symm
    _ = _ := by
      rw [Int.cast_mul, Int.cast_pow, Int.cast_ofNat, mul_assoc]
      exact congrArg _ hpow

/-- No float is nearer. -/
theorem abs_toFloat_sub_le {x y : ℚ} (hy : IsFloat y) : |toFloat x - x| ≤ |y - x| := by
  obtain rfl | hx := eq_or_ne x 0
  · rw [toFloat, if_pos rfl, sub_self, abs_zero]
    exact abs_nonneg _
  have hmultiple : ∀ n : ℤ, |toFloat x - x| ≤ |n * 2 ^ (Int.log 2 |x| - 52) - x| := by
    intro n
    have hulp : (0 : ℚ) < 2 ^ (Int.log 2 |x| - 52) := zpow_pos two_pos _
    have hscale : ∀ m : ℚ, |m * 2 ^ (Int.log 2 |x| - 52) - x|
        = |m - x / 2 ^ (Int.log 2 |x| - 52)| * 2 ^ (Int.log 2 |x| - 52) := by
      intro m
      rw [← abs_of_pos hulp, ← abs_mul, abs_of_pos hulp, sub_mul, div_mul_cancel₀ _ hulp.ne']
    rw [toFloat, if_neg hx]
    dsimp only
    rw [hscale, hscale]
    exact mul_le_mul_of_nonneg_right (abs_roundHalfEven_sub_le n _) hulp.le
  have hlog : (2 : ℚ) ^ Int.log 2 |x| ≤ |x| := by
    exact_mod_cast Int.zpow_log_le_self one_lt_two (abs_pos.mpr hx)
  obtain hlarge | hsmall := le_or_gt ((2 : ℚ) ^ Int.log 2 |x|) |y|
  · obtain ⟨n, hn⟩ := hy.exists_mul_zpow hlarge
    rw [hn]
    exact hmultiple n
  -- between `y` and `x` there is a power of two
  have hpow : ((2 ^ 52 : ℤ) : ℚ) * 2 ^ (Int.log 2 |x| - 52) = 2 ^ Int.log 2 |x| := by
    have hsum : Int.log 2 |x| = 52 + (Int.log 2 |x| - 52) := by omega
    conv_rhs => rw [hsum, zpow_add₀ two_ne_zero]
    rfl
  have hfar : |x| - 2 ^ Int.log 2 |x| ≤ |y - x| := by
    have htriangle := abs_sub_abs_le_abs_sub x y
    rw [abs_sub_comm] at htriangle
    linarith
  obtain hneg | hpos := hx.lt_or_gt
  · have hpower := hmultiple (-2 ^ 52)
    rw [abs_of_neg hneg] at hfar hlog hpow hpower
    rw [Int.cast_neg, neg_mul, hpow] at hpower
    rw [abs_of_nonneg (by linarith : 0 ≤ -2 ^ Int.log 2 (-x) - x)] at hpower
    linarith
  · have hpower := hmultiple (2 ^ 52)
    rw [abs_of_pos hpos] at hfar hlog hpow hpower
    rw [hpow, abs_of_nonpos (by linarith : 2 ^ Int.log 2 x - x ≤ 0)] at hpower
    linarith

/-- The distance of a float from one, up to two. -/
theorem IsFloat.sub_one {y : ℚ} (h : IsFloat y) (hone : 1 ≤ y) (htwo : y < 2) :
    IsFloat (y - 1) := by
  obtain ⟨n, rfl⟩ := h.exists_mul_zpow (l := 0) (by rwa [zpow_zero, abs_of_nonneg (by linarith)])
  have hpow : (2 : ℚ) ^ (0 - 52 : ℤ) * 2 ^ 52 = 1 := by
    rw [← zpow_natCast, ← zpow_add₀ two_ne_zero]
    rfl
  have hlow : (2 ^ 52 : ℤ) ≤ n := by
    have hle : (2 ^ 52 : ℚ) ≤ n := by nlinarith [zpow_pos (two_pos : (0 : ℚ) < 2) (0 - 52)]
    exact_mod_cast hle
  have hhigh : n < (2 ^ 53 : ℤ) := by
    have hlt : (n : ℚ) < 2 ^ 53 := by nlinarith [zpow_pos (two_pos : (0 : ℚ) < 2) (0 - 52)]
    exact_mod_cast hlt
  have hsub : (n : ℚ) * 2 ^ (0 - 52 : ℤ) - 1 = ((n - 2 ^ 52 : ℤ) : ℚ) * 2 ^ (0 - 52 : ℤ) := by
    push_cast
    linear_combination -hpow
  rw [hsub]
  exact isFloat_mul_zpow (abs_lt.mpr ⟨by omega, by omega⟩) _

end Python
