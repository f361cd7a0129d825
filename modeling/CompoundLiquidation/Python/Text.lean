import CompoundLiquidation.Python.Bytes
import Mathlib.Data.Nat.Digits.Lemmas

/-!
# Hexadecimal numerals and padding

`hex` writes a numeral without leading zeros and `zfill` puts them in front, so together they write
a number with a fixed count of digits. Numerals in lower case of one length are determined by the
number they spell, and that is how two ways of writing the same word are compared here.
-/

namespace Python

/-- The digits of a number in base sixteen, most significant first. -/
def hexNumeral (n : ℕ) : List Char :=
  if n = 0 then ['0'] else ((Nat.digits 16 n).map hexDigit).reverse

/-- `hex(z)`. -/
def hex : ℤ → String
  | .ofNat n => String.ofList ('0' :: 'x' :: hexNumeral n)
  | .negSucc n => String.ofList ('-' :: '0' :: 'x' :: hexNumeral (n + 1))

theorem hex_natCast (n : ℕ) : hex n = String.ofList ('0' :: 'x' :: hexNumeral n) := rfl

/-- The characters of `s.zfill(width)`. A sign stays in front of the zeros. -/
def zfillChars (width : ℕ) : List Char → List Char
  | '-' :: cs => '-' :: (List.replicate (width - (cs.length + 1)) '0' ++ cs)
  | '+' :: cs => '+' :: (List.replicate (width - (cs.length + 1)) '0' ++ cs)
  | cs => List.replicate (width - cs.length) '0' ++ cs

/-- `s.zfill(width)`. -/
def zfill (s : String) (width : ℕ) : String := String.ofList (zfillChars width s.toList)

/-- The number that hexadecimal digits of either case spell. -/
def natOfHex (cs : List Char) : ℕ := cs.foldl (fun n c ↦ 16 * n + (hexVal c).getD 0) 0

/-- Every character is a hexadecimal digit in lower case. -/
def LowerHex (cs : List Char) : Prop := ∀ c ∈ cs, ∃ d < 16, c = hexDigit d

/-! ## Numbers and numerals -/

private theorem foldl_hexVal (cs : List Char) : ∀ n : ℕ,
    cs.foldl (fun n c ↦ 16 * n + (hexVal c).getD 0) n = n * 16 ^ cs.length + natOfHex cs := by
  induction cs with
  | nil => simp [natOfHex]
  | cons c cs ih =>
    intro n
    rw [natOfHex, List.foldl_cons, List.foldl_cons, ih, ih, List.length_cons, pow_succ]
    ring

theorem natOfHex_cons (c : Char) (cs : List Char) :
    natOfHex (c :: cs) = (hexVal c).getD 0 * 16 ^ cs.length + natOfHex cs := by
  rw [natOfHex, List.foldl_cons, foldl_hexVal, Nat.mul_zero, Nat.zero_add]

theorem natOfHex_append (cs ds : List Char) :
    natOfHex (cs ++ ds) = natOfHex cs * 16 ^ ds.length + natOfHex ds := by
  rw [natOfHex, List.foldl_append, foldl_hexVal]
  rfl

theorem natOfHex_replicate_zero (k : ℕ) : natOfHex (List.replicate k '0') = 0 := by
  induction k with
  | zero => rfl
  | succ k ih =>
    have hzero : (hexVal '0').getD 0 = 0 := by decide
    rw [List.replicate_succ, natOfHex_cons, hzero, ih, Nat.zero_mul]

private theorem hexVal_getD_lt (c : Char) : (hexVal c).getD 0 < 16 := by
  have hle : ∀ {a b : Char}, a ≤ b → a.toNat ≤ b.toNat := fun h ↦ h
  rw [hexVal]
  split_ifs with h₁ h₂ h₃
  · have := hle h₁.2
    have : '9'.toNat = 57 := rfl
    simp only [Option.getD_some]
    omega
  · have := hle h₂.2
    have : 'f'.toNat = 102 := rfl
    simp only [Option.getD_some]
    omega
  · have := hle h₃.2
    have : 'F'.toNat = 70 := rfl
    simp only [Option.getD_some]
    omega
  · decide

theorem natOfHex_lt (cs : List Char) : natOfHex cs < 16 ^ cs.length := by
  induction cs with
  | nil => simp [natOfHex]
  | cons c cs ih =>
    rw [natOfHex_cons, List.length_cons, pow_succ]
    have hc : (hexVal c).getD 0 ≤ 15 := Nat.lt_succ_iff.mp (hexVal_getD_lt c)
    calc (hexVal c).getD 0 * 16 ^ cs.length + natOfHex cs
        < (hexVal c).getD 0 * 16 ^ cs.length + 16 ^ cs.length := by omega
      _ ≤ 15 * 16 ^ cs.length + 16 ^ cs.length :=
          Nat.add_le_add_right (Nat.mul_le_mul_right _ hc) _
      _ = 16 ^ cs.length * 16 := by ring

theorem LowerHex.of_cons {c : Char} {cs : List Char} (h : LowerHex (c :: cs)) :
    (∃ d < 16, c = hexDigit d) ∧ LowerHex cs :=
  ⟨h c List.mem_cons_self, fun d hd ↦ h d (List.mem_cons_of_mem c hd)⟩

theorem LowerHex.append {cs ds : List Char} (hc : LowerHex cs) (hd : LowerHex ds) :
    LowerHex (cs ++ ds) := fun c h ↦ (List.mem_append.mp h).elim (hc c) (hd c)

theorem lowerHex_replicate_zero (k : ℕ) : LowerHex (List.replicate k '0') :=
  fun c h ↦ ⟨0, by decide, (List.eq_of_mem_replicate h).trans (by decide)⟩

/-- Numerals of one length that spell the same number are the same. -/
theorem LowerHex.ext : ∀ {cs ds : List Char}, LowerHex cs → LowerHex ds →
    cs.length = ds.length → natOfHex cs = natOfHex ds → cs = ds
  | [], [], _, _, _, _ => rfl
  | c :: cs, d :: ds, hc, hd, hlen, h => by
    obtain ⟨⟨x, hx, rfl⟩, hcs⟩ := hc.of_cons
    obtain ⟨⟨y, hy, rfl⟩, hds⟩ := hd.of_cons
    have hlen' : cs.length = ds.length := Nat.succ_inj.mp hlen
    rw [natOfHex_cons, natOfHex_cons, hexVal_hexDigit hx, hexVal_hexDigit hy, hlen',
      Option.getD_some, Option.getD_some] at h
    have hltc : natOfHex cs < 16 ^ ds.length := hlen' ▸ natOfHex_lt cs
    have hltd : natOfHex ds < 16 ^ ds.length := natOfHex_lt ds
    -- the leading digit is the quotient by the weight of the rest
    have hxy : x = y := by
      have hquot : ∀ z r, r < 16 ^ ds.length → (z * 16 ^ ds.length + r) / 16 ^ ds.length = z := by
        intro z r hr
        rw [Nat.mul_comm, Nat.mul_add_div (Nat.pow_pos (by decide)), Nat.div_eq_of_lt hr,
          Nat.add_zero]
      rw [← hquot x _ hltc, h, hquot y _ hltd]
    subst hxy
    rw [hcs.ext hds hlen' (Nat.add_left_cancel h)]

theorem lowerHex_hexChars (bs : Bytes) : LowerHex (hexChars bs) := by
  intro c hc
  rw [hexChars, List.mem_flatMap] at hc
  obtain ⟨b, -, hc⟩ := hc
  have hb := b.toNat_lt
  simp only [List.mem_cons, List.not_mem_nil, or_false] at hc
  rcases hc with rfl | rfl
  · exact ⟨b.toNat / 16, by omega, rfl⟩
  · exact ⟨b.toNat % 16, Nat.mod_lt _ (by decide), rfl⟩

@[simp] theorem length_hexChars (bs : Bytes) : (hexChars bs).length = 2 * bs.length := by
  induction bs with
  | nil => rfl
  | cons b bs ih =>
    rw [hexChars_cons, List.length_cons, List.length_cons, ih, List.length_cons]
    ring

@[simp] theorem toList_hexOf (bs : Bytes) : (hexOf bs).toList = hexChars bs := String.toList_ofList

theorem hexChars_append (bs cs : Bytes) : hexChars (bs ++ cs) = hexChars bs ++ hexChars cs :=
  List.flatMap_append

theorem natOfHex_hexChars (bs : Bytes) : natOfHex (hexChars bs) = natOfBytes bs := by
  induction bs with
  | nil => rfl
  | cons b bs ih =>
    have hb := b.toNat_lt
    have hpow : (16 : ℕ) ^ (2 * bs.length) = 256 ^ bs.length := pow_mul 16 2 bs.length
    rw [hexChars_cons, natOfHex_cons, natOfHex_cons, hexVal_hexDigit (by omega),
      hexVal_hexDigit (Nat.mod_lt _ (by decide)), ih, natOfBytes_cons, List.length_cons,
      length_hexChars, pow_succ, hpow, Option.getD_some, Option.getD_some, ← Nat.add_assoc]
    congr 1
    calc b.toNat / 16 * (256 ^ bs.length * 16) + b.toNat % 16 * 256 ^ bs.length
        = (16 * (b.toNat / 16) + b.toNat % 16) * 256 ^ bs.length := by ring
      _ = b.toNat * 256 ^ bs.length := by rw [Nat.div_add_mod]

/-- Padding a numeral in lower case. -/
theorem zfillChars_of_lowerHex {cs : List Char} (h : LowerHex cs) (width : ℕ) :
    zfillChars width cs = List.replicate (width - cs.length) '0' ++ cs := by
  have hsign : ∀ c, (∃ d < 16, c = hexDigit d) → c ≠ '-' ∧ c ≠ '+' := by
    rintro c ⟨d, hd, rfl⟩
    revert d
    decide
  unfold zfillChars
  split
  · exact absurd rfl (hsign _ h.of_cons.1).1
  · exact absurd rfl (hsign _ h.of_cons.1).2
  · rfl

/-- A numeral padded to the digits of `k` bytes is the hexadecimal text of its number. -/
theorem zfillChars_eq_hexChars {cs : List Char} {width k : ℕ} (hwidth : width = 2 * k)
    (h : LowerHex cs) (hlen : cs.length ≤ width) :
    zfillChars width cs = hexChars (natToBytes k (natOfHex cs)) := by
  subst hwidth
  have hlt : natOfHex cs < 256 ^ k := by
    calc natOfHex cs < 16 ^ cs.length := natOfHex_lt cs
      _ ≤ 16 ^ (2 * k) := Nat.pow_le_pow_right (by decide) hlen
      _ = 256 ^ k := pow_mul 16 2 k
  rw [zfillChars_of_lowerHex h]
  refine ((lowerHex_replicate_zero _).append h).ext (lowerHex_hexChars _) ?_ ?_
  · rw [List.length_append, List.length_replicate, length_hexChars, length_natToBytes]
    omega
  · rw [natOfHex_append, natOfHex_replicate_zero, Nat.zero_mul, Nat.zero_add, natOfHex_hexChars,
      natOfBytes_natToBytes_of_lt hlt]

/-! ## Numerals of numbers -/

theorem lowerHex_hexNumeral (n : ℕ) : LowerHex (hexNumeral n) := by
  rw [hexNumeral]
  split_ifs with hn
  · exact lowerHex_replicate_zero 1
  · intro c hc
    obtain ⟨d, hd, rfl⟩ := List.mem_map.mp (List.mem_reverse.mp hc)
    exact ⟨d, Nat.digits_lt_base (by decide) hd, rfl⟩

theorem natOfHex_hexNumeral (n : ℕ) : natOfHex (hexNumeral n) = n := by
  have hdigits : ∀ ds : List ℕ, (∀ d ∈ ds, d < 16) →
      natOfHex ((ds.map hexDigit).reverse) = Nat.ofDigits 16 ds := by
    intro ds
    induction ds with
    | nil => exact fun _ ↦ rfl
    | cons d ds ih =>
      intro h
      rw [List.map_cons, List.reverse_cons, natOfHex_append, ih fun e he ↦
        h e (List.mem_cons_of_mem d he), natOfHex_cons, hexVal_hexDigit (h d List.mem_cons_self),
        Nat.ofDigits_cons]
      simp [natOfHex]
      ring
  rw [hexNumeral]
  split_ifs with hn
  · rw [hn]
    decide
  · rw [hdigits _ fun d hd ↦ Nat.digits_lt_base (by decide) hd, Nat.ofDigits_digits]

theorem length_hexNumeral_le {n k : ℕ} (hk : 0 < k) (h : n < 16 ^ k) :
    (hexNumeral n).length ≤ k := by
  rw [hexNumeral]
  split_ifs with hn
  · exact hk
  · rw [List.length_reverse, List.length_map, Nat.digits_length_le_iff (by decide)]
    exact h

/-! ## Letter case -/

/-- Digits are ASCII. -/
theorem toNat_lt_of_hexVal {c : Char} {d : ℕ} (h : hexVal c = some d) : c.toNat < 128 := by
  have hle : ∀ {a b : Char}, a ≤ b → a.toNat ≤ b.toNat := fun h ↦ h
  rw [hexVal] at h
  split_ifs at h with h₁ h₂ h₃
  · exact (hle h₁.2).trans_lt (by decide)
  · exact (hle h₂.2).trans_lt (by decide)
  · exact (hle h₃.2).trans_lt (by decide)

/-- The lower-case form of a digit has the same value. -/
theorem toLower_of_hexVal {c : Char} {d : ℕ} (h : hexVal c = some d) :
    d < 16 ∧ c.toLower = hexDigit d := by
  have hsmall : ∀ n < 128, ∀ d ∈ hexVal (Char.ofNat n),
      d < 16 ∧ (Char.ofNat n).toLower = hexDigit d := by decide +kernel
  have hlower := hsmall c.toNat (toNat_lt_of_hexVal h) d
  rw [Char.ofNat_toNat] at hlower
  exact hlower h

theorem lowerHex_map_toLower {cs : List Char} (h : ∀ c ∈ cs, (hexVal c).isSome) :
    LowerHex (cs.map Char.toLower) := by
  intro c hc
  obtain ⟨e, he, rfl⟩ := List.mem_map.mp hc
  obtain ⟨d, hd⟩ := Option.isSome_iff_exists.mp (h e he)
  exact ⟨d, (toLower_of_hexVal hd).1, (toLower_of_hexVal hd).2⟩

theorem natOfHex_map_toLower {cs : List Char} (h : ∀ c ∈ cs, (hexVal c).isSome) :
    natOfHex (cs.map Char.toLower) = natOfHex cs := by
  induction cs with
  | nil => rfl
  | cons c cs ih =>
    obtain ⟨d, hd⟩ := Option.isSome_iff_exists.mp (h c List.mem_cons_self)
    rw [List.map_cons, natOfHex_cons, natOfHex_cons, (toLower_of_hexVal hd).2,
      hexVal_hexDigit (toLower_of_hexVal hd).1, hd, List.length_map,
      ih fun e he ↦ h e (List.mem_cons_of_mem c he)]

end Python
