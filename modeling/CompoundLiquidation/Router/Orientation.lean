import CompoundLiquidation.Bots.Gen
import CompoundLiquidation.Router.Search

/-!
# Which reserve belongs to which token

A pair on chain orders its tokens by address, and an address is a number. `gen_pool_key` compares
the texts. Digits come before letters there as they should, but all upper-case letters come before
all lower-case ones, and the case of a letter says nothing about its value. So the two orders agree
unless the texts first differ in letters of different case; then the upper-case one comes first,
whatever the numbers are.

A pool stores its reserves as the chain returns them and its pair as `gen_pool_key` sorts it. Where
the orders disagree the two lists are opposite, and each reserve is read as the one of the other
token.
-/

namespace CompoundLiquidation

open Python

/-! ## Orders of texts -/

section FirstDifference

variable {α : Type*} [DecidableEq α]

/-- The elements at the first place where two lists differ. -/
def firstDifference : List α → List α → Option (α × α)
  | c :: cs, d :: ds => if c = d then firstDifference cs ds else some (c, d)
  | _, _ => none

theorem exists_firstDifference {cs : List α} : ∀ {ds : List α}, cs.length = ds.length → cs ≠ ds →
    ∃ c d, firstDifference cs ds = some (c, d) := by
  induction cs with
  | nil =>
    intro ds hlen hne
    exact absurd (List.length_eq_zero_iff.mp hlen.symm).symm hne
  | cons c cs ih =>
    intro ds hlen hne
    rcases ds with _ | ⟨d, ds⟩
    · exact absurd hlen (Nat.succ_ne_zero _)
    rw [firstDifference]
    by_cases hcd : c = d
    · rw [if_pos hcd]
      exact ih (Nat.succ.inj hlen) fun heq ↦ hne (by rw [hcd, heq])
    · rw [if_neg hcd]
      exact ⟨c, d, rfl⟩

/-- What two lists have at their first difference, and what they share in front of it. -/
theorem split_of_firstDifference {cs : List α} : ∀ {ds : List α} {c d : α},
    firstDifference cs ds = some (c, d) →
    c ≠ d ∧ ∃ front back back', cs = front ++ c :: back ∧ ds = front ++ d :: back' := by
  induction cs with
  | nil =>
    intro ds c d h
    cases ds <;> cases h
  | cons x cs ih =>
    intro ds c d h
    rcases ds with _ | ⟨y, ds⟩
    · cases h
    rw [firstDifference] at h
    by_cases hxy : x = y
    · rw [if_pos hxy] at h
      obtain ⟨hne, front, back, back', rfl, rfl⟩ := ih h
      exact ⟨hne, x :: front, back, back', rfl, by rw [hxy, List.cons_append]⟩
    · rw [if_neg hxy] at h
      obtain ⟨rfl, rfl⟩ := Prod.mk.inj (Option.some_inj.mp h)
      exact ⟨hxy, [], cs, ds, rfl, rfl⟩

theorem firstDifference_swap (cs : List α) : ∀ ds : List α,
    firstDifference ds cs = (firstDifference cs ds).map Prod.swap := by
  induction cs with
  | nil => exact fun ds ↦ by cases ds <;> rfl
  | cons c cs ih =>
    intro ds
    rcases ds with _ | ⟨d, ds⟩
    · rfl
    rw [firstDifference, firstDifference]
    by_cases hcd : c = d
    · rw [if_pos hcd, if_pos hcd.symm, ih]
    · rw [if_neg hcd, if_neg (Ne.symm hcd)]
      rfl

end FirstDifference

/-- Two lists of characters are in the order of what they first differ in. -/
theorem lt_iff_of_firstDifference {cs ds : List Char} {c d : Char}
    (h : firstDifference cs ds = some (c, d)) : cs < ds ↔ c < d := by
  obtain ⟨hne, front, back, back', rfl, rfl⟩ := split_of_firstDifference h
  clear h
  induction front with
  | nil =>
    rw [List.nil_append, List.nil_append, List.cons_lt_cons_iff]
    exact or_iff_left fun h ↦ hne h.1
  | cons x front ih =>
    rw [List.cons_append, List.cons_append, List.cons_lt_cons_iff]
    exact ⟨fun h ↦ h.elim (fun hx ↦ absurd hx (Char.lt_irrefl x)) fun hx ↦ ih.mp hx.2,
      fun h ↦ .inr ⟨rfl, ih.mpr h⟩⟩

/-- Numerals of one length are in the order of the digits they first differ in. -/
theorem natOfHex_lt_of_firstDifference {cs ds : List Char} (hlen : cs.length = ds.length)
    {c d : Char} (h : firstDifference cs ds = some (c, d))
    (hlt : (hexVal c).getD 0 < (hexVal d).getD 0) : natOfHex cs < natOfHex ds := by
  obtain ⟨-, front, back, back', rfl, rfl⟩ := split_of_firstDifference h
  have hback : back.length = back'.length := by
    simp only [List.length_append, List.length_cons] at hlen
    omega
  -- what is behind the digit is less than one unit of its place
  have hdigit : natOfHex (c :: back) < natOfHex (d :: back') := by
    rw [natOfHex_cons, natOfHex_cons, hback]
    calc (hexVal c).getD 0 * 16 ^ back'.length + natOfHex back
        < (hexVal c).getD 0 * 16 ^ back'.length + 16 ^ back'.length :=
          Nat.add_lt_add_left (hback ▸ natOfHex_lt back) _
      _ = ((hexVal c).getD 0 + 1) * 16 ^ back'.length := (Nat.succ_mul _ _).symm
      _ ≤ (hexVal d).getD 0 * 16 ^ back'.length := Nat.mul_le_mul_right _ hlt
      _ ≤ (hexVal d).getD 0 * 16 ^ back'.length + natOfHex back' := Nat.le_add_right _ _
  rw [natOfHex_append, natOfHex_append, List.length_cons, List.length_cons, hback]
  exact Nat.add_lt_add_left hdigit _

/-! ## Digits -/

private theorem mem_alphabet {c : Char} (h : (hexVal c).isSome) :
    c ∈ "0123456789ABCDEFabcdef".toList := by
  -- a digit is in the first 128 characters, which are tried one by one
  have hsmall : ∀ n < 128, (hexVal (Char.ofNat n)).isSome →
      Char.ofNat n ∈ "0123456789ABCDEFabcdef".toList := by decide +kernel
  obtain ⟨d, hd⟩ := Option.isSome_iff_exists.mp h
  have hmem := hsmall c.toNat (toNat_lt_of_hexVal hd)
  rw [Char.ofNat_toNat] at hmem
  exact hmem h

/-- Different digits, unless they are letters of different case, have different values and are in
the order of these. -/
theorem hexVal_lt_iff {c d : Char} (hc : (hexVal c).isSome) (hd : (hexVal d).isSome) (hne : c ≠ d)
    (hcase : ¬ (c.isUpper ∧ d.isLower)) (hcase' : ¬ (c.isLower ∧ d.isUpper)) :
    (hexVal c).getD 0 ≠ (hexVal d).getD 0 ∧ (c < d ↔ (hexVal c).getD 0 < (hexVal d).getD 0) := by
  have hall : "0123456789ABCDEFabcdef".toList.Forall fun c ↦
      "0123456789ABCDEFabcdef".toList.Forall fun d ↦
      c ≠ d → ¬ (c.isUpper ∧ d.isLower) → ¬ (c.isLower ∧ d.isUpper) →
      (hexVal c).getD 0 ≠ (hexVal d).getD 0 ∧
        (c < d ↔ (hexVal c).getD 0 < (hexVal d).getD 0) := by decide +kernel
  have hall' := List.forall_iff_forall_mem.mp hall c (mem_alphabet hc)
  exact List.forall_iff_forall_mem.mp hall' d (mem_alphabet hd) hne hcase hcase'

/-- Upper-case letters come first. -/
theorem lt_of_isUpper {c d : Char} (hc : c.isUpper) (hd : d.isLower) : c < d := by
  have hle : c.toNat ≤ 90 := by
    have hrange : 'A'.val ≤ c.val ∧ c.val ≤ 'Z'.val := of_decide_eq_true hc
    exact hrange.2
  have hge : 97 ≤ d.toNat := by
    have hfrom : decide ('a'.val ≤ d.val) = true := (Bool.and_eq_true_iff.mp hd).1
    exact of_decide_eq_true hfrom
  exact show c.toNat < d.toNat by omega

/-! ## Addresses -/

/-- The number of an address. -/
def addressNumber (s : String) : ℕ := natOfHex (s.toList.drop 2)

/-- Where the texts first differ they do not have letters of different case, or the address with the
upper-case letter is the smaller number. -/
def CasesAgree (s t : String) : Prop :=
  ∀ c d, firstDifference s.toList t.toList = some (c, d) →
    (c.isUpper → d.isLower → addressNumber s < addressNumber t) ∧
    (c.isLower → d.isUpper → addressNumber t < addressNumber s)

private theorem toList_isAddress {s : String} (h : IsAddress s) :
    s.toList = '0' :: 'x' :: s.toList.drop 2 := by
  rw [← List.take_append_drop 2 s.toList, h.1]
  rfl

/-- The texts of two addresses are in the order of their numbers exactly if their cases agree. -/
theorem lt_iff_addressNumber_lt {s t : String} (hs : IsAddress s) (ht : IsAddress t)
    (hne : addressNumber s ≠ addressNumber t) :
    (s < t ↔ addressNumber s < addressNumber t) ↔ CasesAgree s t := by
  have hlen : (s.toList.drop 2).length = (t.toList.drop 2).length := by
    rw [List.length_drop, List.length_drop, hs.2.1, ht.2.1]
  have hdigits : s.toList.drop 2 ≠ t.toList.drop 2 := fun heq ↦ hne (congrArg natOfHex heq)
  -- the `0x` is the same, so the first difference is among the digits
  obtain ⟨c, d, hfirst⟩ := exists_firstDifference hlen hdigits
  have hfirst' : firstDifference s.toList t.toList = some (c, d) := by
    rw [toList_isAddress hs, toList_isAddress ht, firstDifference, if_pos rfl, firstDifference,
      if_pos rfl, hfirst]
  have hagree : CasesAgree s t ↔
      (c.isUpper → d.isLower → addressNumber s < addressNumber t) ∧
      (c.isLower → d.isUpper → addressNumber t < addressNumber s) := by
    refine ⟨fun h ↦ h c d hfirst', fun h c' d' heq ↦ ?_⟩
    rw [hfirst', Option.some_inj, Prod.mk.injEq] at heq
    rw [← heq.1, ← heq.2]
    exact h
  rw [String.lt_iff, lt_iff_of_firstDifference hfirst', hagree]
  by_cases hul : c.isUpper ∧ d.isLower
  · have hnot : ¬ c.isLower := fun h ↦ Char.lt_irrefl c (lt_of_isUpper hul.1 h)
    rw [iff_true_left (lt_of_isUpper hul.1 hul.2)]
    exact ⟨fun h ↦ ⟨fun _ _ ↦ h, fun h' ↦ absurd h' hnot⟩, fun h ↦ h.1 hul.1 hul.2⟩
  by_cases hlu : c.isLower ∧ d.isUpper
  · have hnot : ¬ c < d := Char.lt_asymm (lt_of_isUpper hlu.2 hlu.1)
    have hnot' : ¬ c.isUpper := fun h ↦ Char.lt_irrefl c (lt_of_isUpper h hlu.1)
    rw [iff_false_left hnot]
    exact ⟨fun h ↦ ⟨fun h' ↦ absurd h' hnot', fun _ _ ↦ lt_of_le_of_ne (not_lt.mp h) hne.symm⟩,
      fun h ↦ (h.2 hlu.1 hlu.2).asymm⟩
  -- otherwise the digits decide both orders
  refine iff_of_true ?_ ⟨fun h h' ↦ absurd ⟨h, h'⟩ hul, fun h h' ↦ absurd ⟨h, h'⟩ hlu⟩
  obtain ⟨hcd, front, back, back', hsplit, hsplit'⟩ := split_of_firstDifference hfirst
  have hc : (hexVal c).isSome := hs.2.2 c (hsplit ▸ List.mem_append_right _ List.mem_cons_self)
  have hd : (hexVal d).isSome := ht.2.2 d (hsplit' ▸ List.mem_append_right _ List.mem_cons_self)
  obtain ⟨hval, hiff⟩ := hexVal_lt_iff hc hd hcd hul hlu
  rw [hiff]
  refine ⟨natOfHex_lt_of_firstDifference hlen hfirst, fun hlt ↦ ?_⟩
  by_contra hge
  have hswap : firstDifference (t.toList.drop 2) (s.toList.drop 2) = some (d, c) := by
    rw [firstDifference_swap, hfirst]
    rfl
  exact hlt.asymm (natOfHex_lt_of_firstDifference hlen.symm hswap
    (lt_of_le_of_ne (not_lt.mp hge) hval.symm))

/-! ## Pools -/

/-- A pair on chain orders its tokens by their numbers, and `getReserves` returns the reserves in
this order; `reserveOf pairAddr n` is the reserve of the token with the number `n`. -/
def V2Chain.OrdersByNumber (chain : V2Chain) (reserveOf : String → ℕ → ℤ) : Prop :=
  ∀ token0 token1 pairAddr reserves, chain.getPair token0 token1 = .ok pairAddr →
    pairAddr ≠ addressZero → chain.getReserves pairAddr = .ok reserves →
    reserves = ⟨reserveOf pairAddr (min (addressNumber token0) (addressNumber token1)),
      reserveOf pairAddr (max (addressNumber token0) (addressNumber token1))⟩

/-- The call of `add_liq_pool` for two tokens stores the pool. -/
def Stores (chain : V2Chain) (fee : ℤ) (a b : Token) (pool : Pool Reserves) : Prop :=
  ∃ pools pools', (SwapV2.addLiqPool chain fee (a, b)).run pools = (.ok (), pools') ∧
    pools'.get? (genPoolKey a b).1 = some (some pool)

/-- Two tokens are oriented as on chain. -/
structure OrientedRight (a b : Token) : Prop where
  /-- `gen_pool_key` orders them numerically. -/
  key : genPoolKey a b = if addressNumber a.text < addressNumber b.text then (a.text ++ b.text, 0)
    else (b.text ++ a.text, 1)
  /-- Each reserve of a stored pool is the one of the token in its place. -/
  liquidity : ∀ chain reserveOf fee pool, chain.OrdersByNumber reserveOf →
    Stores chain fee a b pool →
    pool.liquidity = ⟨reserveOf pool.poolAddr (addressNumber pool.pair.1),
      reserveOf pool.poolAddr (addressNumber pool.pair.2)⟩
  /-- The index for a quote is the one of the reserve of `token_out`. -/
  index : ∀ chain reserveOf fee pool, chain.OrdersByNumber reserveOf →
    Stores chain fee a b pool →
    ∀ pools : Dict String (Option (Pool Reserves)),
      pools.get? (genPoolKey a b).1 = some (some pool) →
    ∀ tokenIn tokenOut, (tokenIn = a ∧ tokenOut = b) ∨ (tokenIn = b ∧ tokenOut = a) →
    ∀ swapSimulation amountOut amountIn path,
      singleRoutSimulation pools swapSimulation tokenIn tokenOut amountOut = (amountIn, some path) →
      swapSimulation pool amountOut path.isZeroForOne = .ok amountIn ∧
      pool.liquidity.item path.isZeroForOne
        = reserveOf pool.poolAddr (addressNumber tokenOut.text)

section Orientation

variable {chain : V2Chain} {reserveOf : String → ℕ → ℤ} {fee : ℤ} {a b : Token}
  {pool : Pool Reserves}

/-- A stored pool has the pair as `gen_pool_key` sorts it and the reserves in the order of the
numbers. -/
theorem Stores.spec (h : Stores chain fee a b pool) (hchain : chain.OrdersByNumber reserveOf) :
    pool.pair = sortedPair a b ∧ pool.liquidity
      = ⟨reserveOf pool.poolAddr (min (addressNumber a.text) (addressNumber b.text)),
        reserveOf pool.poolAddr (max (addressNumber a.text) (addressNumber b.text))⟩ := by
  obtain ⟨pools, pools', hrun, hget⟩ := h
  rw [SwapV2.addLiqPool, addLiqPool, Proc.run_bind, Proc.run_ofExcept] at hrun
  rcases hquery : SwapV2.queryMaxLiqPool chain fee (sortedPair a b) with e | answer
  · rw [hquery] at hrun
    cases (Prod.mk.inj hrun).1
  simp only [hquery, Proc.run_modify, Prod.mk.injEq, true_and] at hrun
  rw [← hrun, Dict.get?_set_self, Option.some_inj] at hget
  rw [hget] at hquery
  obtain ⟨hpair, hzero, hreserves, hkeeps⟩ := SwapV2.queryMaxLiqPool_eq_some hquery
  refine ⟨hkeeps, ?_⟩
  rw [hchain _ _ _ _ hpair hzero hreserves]
  by_cases hab : a.text < b.text
  · rw [sortedPair_of_lt hab]
  · rw [sortedPair_of_not_lt hab, min_comm, max_comm]

/-- The index of a quote, where the texts are in the order of the numbers. -/
theorem item_tokenOutIndex {tokenIn tokenOut : Token}
    (horder : tokenIn.text < tokenOut.text ↔
      addressNumber tokenIn.text < addressNumber tokenOut.text)
    (hliquidity : pool.liquidity
      = ⟨reserveOf pool.poolAddr
          (min (addressNumber tokenIn.text) (addressNumber tokenOut.text)),
        reserveOf pool.poolAddr
          (max (addressNumber tokenIn.text) (addressNumber tokenOut.text))⟩) :
    pool.liquidity.item (tokenOutIndex tokenIn tokenOut)
      = reserveOf pool.poolAddr (addressNumber tokenOut.text) := by
  rw [tokenOutIndex, genPoolKey, hliquidity]
  by_cases hlt : tokenIn.text < tokenOut.text
  · rw [if_pos hlt, max_eq_right (horder.mp hlt).le]
    rfl
  · rw [if_neg hlt, min_eq_right (not_lt.mp fun h ↦ hlt (horder.mpr h))]
    rfl

/-- A quote goes to the pool with the index of the token that comes out. -/
theorem singleRoutSimulation_quote {pools : Dict String (Option (Pool Reserves))}
    {tokenIn tokenOut : Token} (hget : poolOf pools tokenIn tokenOut = some pool)
    {swapSimulation : Pool Reserves → ℤ → ℕ → Except Error ℤ} {amountOut amountIn : ℤ} {path : Path}
    (hquote : singleRoutSimulation pools swapSimulation tokenIn tokenOut amountOut
      = (amountIn, some path)) :
    path.isZeroForOne = tokenOutIndex tokenIn tokenOut ∧
      swapSimulation pool amountOut path.isZeroForOne = .ok amountIn := by
  rw [poolOf] at hget
  rw [tokenOutIndex]
  simp only [singleRoutSimulation, hget] at hquote
  rcases hswap : swapSimulation pool amountOut (1 - (genPoolKey tokenIn tokenOut).2)
    with e | amount
  · rw [hswap] at hquote
    cases (Prod.mk.inj hquote).2
  · rw [hswap] at hquote
    obtain ⟨rfl, hpath⟩ := Prod.mk.inj hquote
    rw [← Option.some_inj.mp hpath]
    exact ⟨rfl, hswap⟩

/-- **The orientation of pools.** For addresses in any letter case, everything that depends on the
order of two tokens is as on chain if and only if their cases agree. -/
theorem orientedRight_iff (ha : IsAddress a.text) (hb : IsAddress b.text)
    (hne : addressNumber a.text ≠ addressNumber b.text) :
    OrientedRight a b ↔ CasesAgree a.text b.text := by
  rw [← lt_iff_addressNumber_lt ha hb hne]
  constructor
  · intro h
    -- the key alone shows which order was used
    have hkey := congrArg Prod.snd h.key
    rw [genPoolKey] at hkey
    by_cases htext : a.text < b.text <;>
      by_cases hnumber : addressNumber a.text < addressNumber b.text
    · exact iff_of_true htext hnumber
    · rw [if_pos htext, if_neg hnumber] at hkey
      exact absurd hkey Nat.zero_ne_one
    · rw [if_neg htext, if_pos hnumber] at hkey
      exact absurd hkey Nat.one_ne_zero
    · exact iff_of_false htext hnumber
  · intro horder
    have hflip : b.text < a.text ↔ addressNumber b.text < addressNumber a.text := by
      constructor
      · intro hlt
        exact lt_of_le_of_ne (not_lt.mp fun h ↦ String.lt_asymm hlt (horder.mpr h)) hne.symm
      · intro hlt
        by_contra hnot
        have hle : b.text ≤ a.text := String.not_lt.mp fun h ↦ hlt.asymm (horder.mp h)
        exact hne (congrArg addressNumber (String.le_antisymm (String.not_lt.mp hnot) hle))
    refine ⟨?_, fun chain reserveOf fee pool hchain hstores ↦ ?_,
      fun chain reserveOf fee pool hchain hstores pools hget tokenIn tokenOut hends swapSimulation
        amountOut amountIn path hquote ↦ ?_⟩
    · rw [genPoolKey]
      exact if_congr horder rfl rfl
    · obtain ⟨hpair, hliquidity⟩ := hstores.spec hchain
      rw [hpair, hliquidity]
      by_cases hab : a.text < b.text
      · rw [sortedPair_of_lt hab, min_eq_left (horder.mp hab).le, max_eq_right (horder.mp hab).le]
      · have hle := not_lt.mp fun h ↦ hab (horder.mpr h)
        rw [sortedPair_of_not_lt hab, min_eq_right hle, max_eq_left hle]
    · obtain ⟨-, hliquidity⟩ := hstores.spec hchain
      rcases hends with ⟨rfl, rfl⟩ | ⟨rfl, rfl⟩
      · obtain ⟨hindex, hswap⟩ :=
          singleRoutSimulation_quote (Option.join_eq_some_iff.mpr hget) hquote
        exact ⟨hswap, hindex ▸ item_tokenOutIndex horder hliquidity⟩
      · rw [genPoolKey_fst_comm] at hget
        obtain ⟨hindex, hswap⟩ :=
          singleRoutSimulation_quote (Option.join_eq_some_iff.mpr hget) hquote
        rw [min_comm, max_comm] at hliquidity
        exact ⟨hswap, hindex ▸ item_tokenOutIndex hflip hliquidity⟩

/-- Where the cases do not agree each reserve stands in the place of the other token. -/
theorem Stores.liquidity_of_not_casesAgree (h : Stores chain fee a b pool)
    (hchain : chain.OrdersByNumber reserveOf) (ha : IsAddress a.text) (hb : IsAddress b.text)
    (hne : addressNumber a.text ≠ addressNumber b.text) (hcases : ¬ CasesAgree a.text b.text) :
    pool.liquidity = ⟨reserveOf pool.poolAddr (addressNumber pool.pair.2),
      reserveOf pool.poolAddr (addressNumber pool.pair.1)⟩ := by
  rw [← lt_iff_addressNumber_lt ha hb hne] at hcases
  obtain ⟨hpair, hliquidity⟩ := h.spec hchain
  rw [hpair, hliquidity]
  by_cases hab : a.text < b.text
  · have hle := not_lt.mp fun hlt ↦ hcases (iff_of_true hab hlt)
    rw [sortedPair_of_lt hab, min_eq_right hle, max_eq_left hle]
  · have hlt := not_le.mp fun hle ↦ hcases (iff_of_false hab hle.not_gt)
    rw [sortedPair_of_not_lt hab, min_eq_left hlt.le, max_eq_right hlt.le]

end Orientation

/-! ### BUSD and USDT, WBNB and LINK -/

theorem orientedRight_iff_busd : OrientedRight busd usdt := by
  refine (orientedRight_iff (by decide +kernel) (by decide +kernel) (by decide +kernel)).mpr ?_
  intro c d hfirst
  have hdigits : firstDifference busd.text.toList usdt.text.toList = some ('e', '5') := by
    decide +kernel
  rw [hdigits, Option.some_inj, Prod.mk.injEq] at hfirst
  rw [← hfirst.1, ← hfirst.2]
  decide

/-- The upper-case letter of LINK comes in front of the smaller number of WBNB. -/
theorem not_orientedRight_link : ¬ OrientedRight wbnb link := by
  intro h
  have hkey := congrArg Prod.snd h.key
  have htext : (genPoolKey wbnb link).2 = 1 := by decide +kernel
  have hnumber : addressNumber wbnb.text < addressNumber link.text := by decide +kernel
  rw [htext, if_pos hnumber] at hkey
  exact Nat.one_ne_zero hkey

end CompoundLiquidation
