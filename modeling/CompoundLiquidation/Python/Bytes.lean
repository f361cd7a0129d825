import Mathlib.Data.Nat.Basic
import Mathlib.Data.List.Basic
import Mathlib.Tactic.Ring

/-!
# Byte strings, their slices and their hexadecimal text

Slicing past the end of a sequence is not an error: it returns what is there. `slice` and `lastN`
keep that, since a decoder built on them accepts truncated input exactly because of it. Conversions
from text are partial and return `none` where the language raises `ValueError`.

Numbers are read from bytes in big-endian order. `natOfBytes` reads however many bytes it is given,
so a short slice is a small number and the empty one is zero.
-/

namespace Python

/-- A `bytes` value. -/
abbrev Bytes := List UInt8

/-! ## Slices -/

section Slice

variable {α : Type*}

/-- `l[a:b]` for `0 ≤ a` and `0 ≤ b`. -/
def slice (l : List α) (a b : ℕ) : List α := (l.drop a).take (b - a)

/-- `l[-n:]` for `0 < n`. -/
def lastN (n : ℕ) (l : List α) : List α := l.drop (l.length - n)

@[simp] theorem length_slice (l : List α) (a b : ℕ) :
    (slice l a b).length = min (b - a) (l.length - a) := by
  rw [slice, List.length_take, List.length_drop]

/-- A slice that ends inside the sequence has its nominal length. -/
theorem length_slice_of_le {l : List α} {a b : ℕ} (h : b ≤ l.length) :
    (slice l a b).length = b - a := by
  rw [length_slice]
  omega

theorem slice_eq_nil_iff {l : List α} {a b : ℕ} : slice l a b = [] ↔ b ≤ a ∨ l.length ≤ a := by
  rw [← List.length_eq_zero_iff, length_slice]
  omega

@[simp] theorem length_lastN (n : ℕ) (l : List α) : (lastN n l).length = min n l.length := by
  rw [lastN, List.length_drop]
  omega

/-- A slice of a concatenation that begins at the seam. -/
theorem slice_append_seam (l m : List α) {a b : ℕ} (ha : a = l.length) :
    slice (l ++ m) a b = m.take (b - a) := by
  rw [slice, ha, List.drop_left]

/-- The middle part of a concatenation. -/
theorem slice_append_middle (l m r : List α) {a b : ℕ} (ha : a = l.length)
    (hb : b = l.length + m.length) : slice (l ++ (m ++ r)) a b = m := by
  rw [slice_append_seam l (m ++ r) ha, hb, ha, Nat.add_sub_cancel_left, List.take_left]

/-- Slicing behind `k` elements is slicing what remains without them. -/
theorem slice_add (l : List α) (k a b : ℕ) : slice l (k + a) (k + b) = slice (l.drop k) a b := by
  rw [slice, slice, List.drop_drop, Nat.add_sub_add_left]

/-- The `i`-th of equally long blocks. -/
theorem slice_flatten {ls : List (List α)} {n i : ℕ} {l : List α} (hlen : ∀ m ∈ ls, m.length = n)
    (h : ls[i]? = some l) (r : List α) : slice (ls.flatten ++ r) (n * i) (n * i + n) = l := by
  obtain ⟨hi, rfl⟩ := List.getElem?_eq_some_iff.mp h
  have hsplit : ls.flatten ++ r
      = (ls.take i).flatten ++ (ls[i] ++ ((ls.drop (i + 1)).flatten ++ r)) := by
    have hls : ls = ls.take i ++ ls[i] :: ls.drop (i + 1) := by
      rw [← List.drop_eq_getElem_cons hi, List.take_append_drop]
    conv_lhs => rw [hls]
    rw [List.flatten_append, List.flatten_cons, List.append_assoc, List.append_assoc]
  have hpre : ((ls.take i).flatten).length = n * i := by
    have hconst : ∀ m ∈ ls.take i, m.length = n := fun m hm ↦ hlen m (List.mem_of_mem_take hm)
    rw [List.length_flatten, List.map_congr_left hconst, List.map_const', List.sum_replicate_nat,
      List.length_take, Nat.min_eq_left hi.le, Nat.mul_comm]
  rw [hsplit]
  exact slice_append_middle _ _ _ hpre.symm (by rw [hpre, hlen _ (List.getElem_mem hi)])

end Slice

/-! ## Big-endian numbers -/

/-- `int.from_bytes(bs, byteorder='big')`. -/
def natOfBytes (bs : Bytes) : ℕ := bs.foldl (fun n b ↦ 256 * n + b.toNat) 0

@[simp] theorem natOfBytes_nil : natOfBytes [] = 0 := rfl

private theorem foldl_byte (bs : Bytes) : ∀ n : ℕ,
    bs.foldl (fun n b ↦ 256 * n + b.toNat) n = n * 256 ^ bs.length + natOfBytes bs := by
  induction bs with
  | nil => simp
  | cons b bs ih =>
    intro n
    rw [natOfBytes, List.foldl_cons, List.foldl_cons, ih, ih, List.length_cons, pow_succ]
    ring

theorem natOfBytes_cons (b : UInt8) (bs : Bytes) :
    natOfBytes (b :: bs) = b.toNat * 256 ^ bs.length + natOfBytes bs := by
  rw [natOfBytes, List.foldl_cons, foldl_byte, Nat.mul_zero, Nat.zero_add]

/-- The low `k` bytes of `n`, most significant first. -/
def natToBytes : ℕ → ℕ → Bytes
  | 0, _ => []
  | k + 1, n => UInt8.ofNat (n / 256 ^ k) :: natToBytes k n

@[simp] theorem length_natToBytes (k n : ℕ) : (natToBytes k n).length = k := by
  induction k with
  | zero => rfl
  | succ k ih => rw [natToBytes, List.length_cons, ih]

theorem natOfBytes_natToBytes (k n : ℕ) : natOfBytes (natToBytes k n) = n % 256 ^ k := by
  induction k with
  | zero => simp [natToBytes, Nat.mod_one]
  | succ k ih =>
    have hsplit : n % (256 ^ k * 256) = n % 256 ^ k + 256 ^ k * (n / 256 ^ k % 256) :=
      Nat.mod_mul
    rw [natToBytes, natOfBytes_cons, ih, length_natToBytes, UInt8.toNat_ofNat', pow_succ (256 : ℕ),
      hsplit, Nat.mul_comm, Nat.add_comm]

theorem natOfBytes_natToBytes_of_lt {k n : ℕ} (h : n < 256 ^ k) :
    natOfBytes (natToBytes k n) = n := by
  rw [natOfBytes_natToBytes, Nat.mod_eq_of_lt h]

/-! ## Hexadecimal text -/

/-- The lower-case hexadecimal digit of value `d`. -/
def hexDigit (d : ℕ) : Char :=
  if d < 10 then Char.ofNat (48 + d) else Char.ofNat (87 + d)

/-- The value of a hexadecimal digit of either case. -/
def hexVal (c : Char) : Option ℕ :=
  if '0' ≤ c ∧ c ≤ '9' then some (c.toNat - 48)
  else if 'a' ≤ c ∧ c ≤ 'f' then some (c.toNat - 87)
  else if 'A' ≤ c ∧ c ≤ 'F' then some (c.toNat - 55)
  else none

/-- The two digits of each byte. -/
def hexChars (bs : Bytes) : List Char :=
  bs.flatMap fun b ↦ [hexDigit (b.toNat / 16), hexDigit (b.toNat % 16)]

/-- `bs.hex()`, without a prefix. -/
def hexOf (bs : Bytes) : String := String.ofList (hexChars bs)

/-- The whitespace that is skipped in and around numeric text. -/
def isSpace (c : Char) : Bool :=
  c = ' ' || ('\t' ≤ c && c ≤ '\r')

/-- The bytes a list of digits spells; whitespace may stand between two bytes. -/
def bytesOfHexChars : List Char → Option Bytes
  | [] => some []
  | [c] => if isSpace c then some [] else none
  | c :: d :: cs =>
    if isSpace c then bytesOfHexChars (d :: cs)
    else match hexVal c, hexVal d with
      | some x, some y => (bytesOfHexChars cs).map (UInt8.ofNat (16 * x + y) :: ·)
      | _, _ => none

/-- `bytes.fromhex(s)`. -/
def bytesFromHex (s : String) : Option Bytes := bytesOfHexChars s.toList

/-- `s[n:]`. -/
def strFrom (s : String) (n : ℕ) : String := String.ofList (s.toList.drop n)

theorem hexVal_hexDigit {d : ℕ} (h : d < 16) : hexVal (hexDigit d) = some d := by
  revert d
  decide

theorem isSpace_hexDigit {d : ℕ} (h : d < 16) : isSpace (hexDigit d) = false := by
  revert d
  decide

theorem toLower_hexDigit {d : ℕ} (h : d < 16) : (hexDigit d).toLower = hexDigit d := by
  revert d
  decide

private theorem high_lt (b : UInt8) : b.toNat / 16 < 16 := by
  have := b.toNat_lt
  omega

private theorem low_lt (b : UInt8) : b.toNat % 16 < 16 := Nat.mod_lt _ (by decide)

theorem hexChars_cons (b : UInt8) (bs : Bytes) :
    hexChars (b :: bs) = hexDigit (b.toNat / 16) :: hexDigit (b.toNat % 16) :: hexChars bs := rfl

/-- Hexadecimal text is written in lower case. -/
theorem toList_toLower (s : String) : s.toLower.toList = s.toList.map Char.toLower :=
  String.toList_map

theorem toLower_of_mem_hexChars {bs : Bytes} {c : Char} (h : c ∈ hexChars bs) : c.toLower = c := by
  rw [hexChars, List.mem_flatMap] at h
  obtain ⟨b, -, hc⟩ := h
  simp only [List.mem_cons, List.not_mem_nil, or_false] at hc
  rcases hc with rfl | rfl
  · exact toLower_hexDigit (high_lt b)
  · exact toLower_hexDigit (low_lt b)

theorem bytesFromHex_hexOf (bs : Bytes) : bytesFromHex (hexOf bs) = some bs := by
  rw [bytesFromHex, hexOf, String.toList_ofList]
  induction bs with
  | nil => rfl
  | cons b bs ih =>
    rw [hexChars_cons, bytesOfHexChars, isSpace_hexDigit (high_lt b), hexVal_hexDigit (high_lt b),
      hexVal_hexDigit (low_lt b), ih]
    simp only [Bool.false_eq_true, if_false, Option.map_some]
    rw [Nat.div_add_mod, UInt8.ofNat_toNat]

/-! ## Integers in base sixteen -/

/-- Digits of base sixteen with single underscores between them. `afterDigit` says that the last
character was a digit: an underscore needs one before it, and so does the end. -/
def hexDigits (afterDigit : Bool) (acc : ℕ) : List Char → Option ℕ
  | [] => if afterDigit then some acc else none
  | c :: cs =>
    match hexVal c with
    | some d => hexDigits true (16 * acc + d) cs
    | none => if c = '_' && afterDigit then hexDigits false acc cs else none

/-- Digits behind an optional `0x`, which one underscore may follow. -/
def unsigned16 : List Char → Option ℕ
  | '0' :: 'x' :: '_' :: cs => hexDigits false 0 cs
  | '0' :: 'X' :: '_' :: cs => hexDigits false 0 cs
  | '0' :: 'x' :: cs => hexDigits false 0 cs
  | '0' :: 'X' :: cs => hexDigits false 0 cs
  | cs => hexDigits false 0 cs

/-- `cs.strip()`. -/
def stripSpace (cs : List Char) : List Char :=
  ((cs.dropWhile isSpace).reverse.dropWhile isSpace).reverse

/-- `int(s, 16)` on ASCII text. -/
def int16 (s : String) : Option ℤ :=
  match stripSpace s.toList with
  | '-' :: cs => (unsigned16 cs).map fun n : ℕ ↦ -(n : ℤ)
  | '+' :: cs => (unsigned16 cs).map Nat.cast
  | cs => (unsigned16 cs).map Nat.cast

private theorem hexDigits_hexChars (bs : Bytes) : ∀ acc : ℕ,
    hexDigits true acc (hexChars bs) = some (acc * 256 ^ bs.length + natOfBytes bs) := by
  induction bs with
  | nil => intro acc; simp [hexChars, hexDigits]
  | cons b bs ih =>
    intro acc
    rw [hexChars_cons, hexDigits, hexVal_hexDigit (high_lt b)]
    simp only
    rw [hexDigits, hexVal_hexDigit (low_lt b)]
    simp only
    rw [ih, natOfBytes_cons, List.length_cons, Option.some_inj, pow_succ]
    have hb : 16 * (b.toNat / 16) + b.toNat % 16 = b.toNat := Nat.div_add_mod _ _
    calc (16 * (16 * acc + b.toNat / 16) + b.toNat % 16) * 256 ^ bs.length + natOfBytes bs
        = (256 * acc + (16 * (b.toNat / 16) + b.toNat % 16)) * 256 ^ bs.length
            + natOfBytes bs := by ring
      _ = acc * (256 ^ bs.length * 256) + (b.toNat * 256 ^ bs.length + natOfBytes bs) := by
          rw [hb]
          ring

/-- Text without white space. -/
theorem stripSpace_of_forall {cs : List Char} (h : ∀ c ∈ cs, isSpace c = false) :
    stripSpace cs = cs := by
  have hdrop : ∀ l : List Char, (∀ c ∈ l, isSpace c = false) → l.dropWhile isSpace = l := by
    intro l hl
    cases l with
    | nil => rfl
    | cons c l => rw [List.dropWhile_cons_of_neg (by simp [hl c List.mem_cons_self])]
  rw [stripSpace, hdrop _ h, hdrop _ fun c hc ↦ h c (List.mem_reverse.mp hc), List.reverse_reverse]

private theorem stripSpace_hexChars (bs : Bytes) : stripSpace (hexChars bs) = hexChars bs := by
  refine stripSpace_of_forall fun c hc ↦ ?_
  rw [hexChars, List.mem_flatMap] at hc
  obtain ⟨b, -, hc⟩ := hc
  simp only [List.mem_cons, List.not_mem_nil, or_false] at hc
  rcases hc with rfl | rfl
  · exact isSpace_hexDigit (high_lt b)
  · exact isSpace_hexDigit (low_lt b)

private theorem hexDigit_ne {d : ℕ} (h : d < 16) {c : Char} (hc : hexVal c = none) :
    hexDigit d ≠ c := by
  rintro rfl
  rw [hexVal_hexDigit h] at hc
  simp at hc

private theorem unsigned16_hexChars (bs : Bytes) :
    unsigned16 (hexChars bs) = hexDigits false 0 (hexChars bs) := by
  cases bs with
  | nil => rfl
  | cons b bs =>
    have hx : hexDigit (b.toNat % 16) ≠ 'x' := hexDigit_ne (low_lt b) (by decide)
    have hX : hexDigit (b.toNat % 16) ≠ 'X' := hexDigit_ne (low_lt b) (by decide)
    rw [hexChars_cons]
    unfold unsigned16
    split <;> simp_all

/-- The hexadecimal text of a byte string reads back as its big-endian number; there is no number
in the empty text. -/
theorem int16_hexOf (bs : Bytes) :
    int16 (hexOf bs) = if bs = [] then none else some (natOfBytes bs : ℤ) := by
  rw [int16, hexOf, String.toList_ofList, stripSpace_hexChars]
  cases bs with
  | nil => rfl
  | cons b bs =>
    have hm : hexDigit (b.toNat / 16) ≠ '-' := hexDigit_ne (high_lt b) (by decide)
    have hp : hexDigit (b.toNat / 16) ≠ '+' := hexDigit_ne (high_lt b) (by decide)
    have hread : unsigned16 (hexChars (b :: bs)) = some (natOfBytes (b :: bs)) := by
      have h := hexDigits_hexChars (b :: bs) 0
      rw [Nat.zero_mul, Nat.zero_add, hexChars_cons, hexDigits,
        hexVal_hexDigit (high_lt b)] at h
      rw [unsigned16_hexChars, hexChars_cons, hexDigits, hexVal_hexDigit (high_lt b)]
      exact h
    rw [if_neg (List.cons_ne_nil b bs)]
    split
    · next heq => simp_all [hexChars_cons]
    · next heq => simp_all [hexChars_cons]
    · rw [hread, Option.map_some]

-- text is decoded through the lemmas above: reducing a decoder on an open term is slow
attribute [irreducible] int16 bytesFromHex

end Python
