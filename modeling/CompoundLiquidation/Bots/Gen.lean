import CompoundLiquidation.Abi.Decode
import CompoundLiquidation.Python.Text
import CompoundLiquidation.Router.Routs

/-!
# The calldata of a liquidation

`BSCVenusPancakeV2.gen` writes the arguments of the contract's `swap` by hand, one padded field
after the other. Each field comes from a text or a number and is a word of thirty-two bytes in
hexadecimal, so the text as a whole is compared with the canonical encoding word by word.

The paths go from the token received to the token paid and are written in reverse order. The one
offset is the constant `0x80`: the head of four words stands before the array, and the steps are
static.
-/

namespace CompoundLiquidation

open Python Abi

/-! ## The program -/

/-- The fields of one path. -/
def BSCVenusPancakeV2.step (path : Path) : String :=
  zfill (strFrom path.poolAddr.toLower 2) 64 ++
  zfill (strFrom (hex path.fee) 2) 64 ++
  zfill (toString path.isZeroForOne) 64 ++
  zfill (strFrom path.token0.toLower 2) 64 ++
  zfill (strFrom path.token1.toLower 2) 64 ++
  zfill (strFrom (hex path.amountOut) 2) 64

/-- `BSCVenusPancakeV2.gen`. -/
def BSCVenusPancakeV2.gen (borrower debtCtoken colCtoken : String) (paths : List Path) : String :=
  let intput := "0x5cf671a6"
  let intput := intput ++ zfill (strFrom borrower.toLower 2) 64
  let intput := intput ++ zfill (strFrom debtCtoken.toLower 2) 64
  let intput := intput ++ zfill (strFrom colCtoken.toLower 2) 64
  let intput := intput ++ zfill (strFrom "0x80" 2) 64
  let intput := intput ++ zfill (strFrom (hex paths.length) 2) 64
  paths.reverse.foldl (fun intput path ↦ intput ++ BSCVenusPancakeV2.step path) intput

/-! ## The arguments of `swap` -/

/-- Twenty bytes in hexadecimal behind `0x`. -/
def IsAddress (s : String) : Prop :=
  s.toList.take 2 = ['0', 'x'] ∧ s.toList.length = 42 ∧ ∀ c ∈ s.toList.drop 2, (hexVal c).isSome

instance : DecidablePred IsAddress := fun s ↦
  haveI := List.decidableBAll (fun c ↦ (hexVal c).isSome = true) (s.toList.drop 2)
  inferInstanceAs (Decidable (_ ∧ _ ∧ _))

/-- The fields of a path are in the range of the contract's `Step`. -/
structure Path.Valid (path : Path) : Prop where
  poolAddr : IsAddress path.poolAddr
  fee_nonneg : 0 ≤ path.fee
  fee_lt : path.fee < 2 ^ 24
  isZeroForOne : path.isZeroForOne < 2
  token0 : IsAddress path.token0
  token1 : IsAddress path.token1
  amountOut_nonneg : 0 ≤ path.amountOut
  amountOut_lt : path.amountOut < 2 ^ 256

/-- The number an address stands for. -/
def addressWord (s : String) : BitVec 256 := BitVec.ofNat 256 (natOfHex (s.toList.drop 2))

/-- `Step`. -/
def stepVal (path : Path) : Val := .tuple (List.map Val.word [
  addressWord path.poolAddr,
  BitVec.ofInt 256 path.fee,
  BitVec.ofNat 256 path.isZeroForOne,
  addressWord path.token0,
  addressWord path.token1,
  BitVec.ofInt 256 path.amountOut])

/-- The arguments of `swap`. -/
def swapArgs (borrower repayCToken seizeCToken : String) (steps : List Path) : Val := .tuple [
  .word (addressWord borrower),
  .word (addressWord repayCToken),
  .word (addressWord seizeCToken),
  .array (steps.map stepVal)]

/-- `(address,uint24,bool,address,address,uint256)`. -/
def stepTy : Ty := .tuple [.uint 160, .uint 24, .uint 1, .uint 160, .uint 160, .uint 256]

/-- `(address,address,address,(address,uint24,bool,address,address,uint256)[])`. -/
def swapTy : Ty := .tuple [.uint 160, .uint 160, .uint 160, .array stepTy]

/-- The text of an address, in lower case. -/
def addressText (w : BitVec 256) : String := "0x" ++ hexOf (natToBytes 20 w.toNat)

/-- The path of a decoded step. -/
def readStep : Val → Option Path
  | .tuple [.word pool, .word fee, .word isZeroForOne, .word token0, .word token1,
      .word amountOut] => some {
    poolAddr := addressText pool
    fee := fee.toNat
    isZeroForOne := isZeroForOne.toNat
    token0 := addressText token0
    token1 := addressText token1
    amountOut := amountOut.toNat }
  | _ => none

/-- The decoded arguments. -/
def readArgs : Val → Option (String × String × String × List Path)
  | .tuple [.word borrower, .word repayCToken, .word seizeCToken, .array steps] =>
    (steps.mapM readStep).map fun paths ↦
      (addressText borrower, addressText repayCToken, addressText seizeCToken, paths)
  | _ => none

/-- The arguments in the calldata of `swap`, decoded behind the selector. -/
def decodeSwap (data : String) : Option (String × String × String × List Path) :=
  if data.toList.take 10 = "0x5cf671a6".toList then
    ((bytesFromHex (strFrom data 10)).bind swapTy.decode).bind readArgs
  else none

/-- A path with its addresses in lower case. -/
def Path.toLower (path : Path) : Path := { path with
  poolAddr := path.poolAddr.toLower
  token0 := path.token0.toLower
  token1 := path.token1.toLower }

/-! ## Fields -/

/-- The characters of a padded address are those of its word. -/
private theorem toList_addressField {s : String} (h : IsAddress s) :
    (zfill (strFrom s.toLower 2) 64).toList = hexChars (wordOf (addressWord s).toNat) := by
  obtain ⟨-, hlen, hhex⟩ := h
  have hlower : s.toLower.toList.drop 2 = (s.toList.drop 2).map Char.toLower := by
    rw [toList_toLower, List.map_drop]
  have hval : (addressWord s).toNat = natOfHex (s.toList.drop 2) := by
    rw [addressWord, BitVec.toNat_ofNat]
    refine Nat.mod_eq_of_lt ((natOfHex_lt _).trans_le ?_)
    rw [List.length_drop, hlen]
    decide
  rw [zfill, String.toList_ofList, strFrom, String.toList_ofList, hlower, hval, wordOf,
    ← natOfHex_map_toLower hhex]
  refine zfillChars_eq_hexChars rfl (lowerHex_map_toLower hhex) ?_
  rw [List.length_map, List.length_drop, hlen]
  decide

/-- The characters of a padded number are those of its word. -/
private theorem toList_hexField {n : ℕ} (h : n < 2 ^ 256) :
    (zfill (strFrom (hex n) 2) 64).toList = hexChars (wordOf n) := by
  have hdrop : (hex n).toList.drop 2 = hexNumeral n := by
    rw [hex_natCast, String.toList_ofList]
    rfl
  have hlen : (hexNumeral n).length ≤ 64 := length_hexNumeral_le (by decide) (by simpa using h)
  rw [zfill, String.toList_ofList, strFrom, String.toList_ofList, hdrop]
  conv_rhs => rw [wordOf, ← natOfHex_hexNumeral n]
  exact zfillChars_eq_hexChars rfl (lowerHex_hexNumeral n) hlen

private theorem toList_flagField {n : ℕ} (h : n < 2) :
    (zfill (toString n) 64).toList = hexChars (wordOf n) := by
  have hn : n = 0 ∨ n = 1 := by omega
  rcases hn with rfl | rfl
  · decide +kernel
  · decide +kernel

/-- The constant offset is the length of the head. -/
private theorem toList_offsetField :
    (zfill (strFrom "0x80" 2) 64).toList = hexChars (wordOf 128) := by
  decide +kernel

private theorem toList_foldl_append {α : Type*} (f : α → String) (l : List α) : ∀ s : String,
    (l.foldl (fun s a ↦ s ++ f a) s).toList = s.toList ++ l.flatMap fun a ↦ (f a).toList := by
  induction l with
  | nil => simp
  | cons a l ih =>
    intro s
    rw [List.foldl_cons, ih, String.toList_append, List.append_assoc, List.flatMap_cons]

private theorem toNat_ofNat_word {n : ℕ} (h : n < 2 ^ 256) : (BitVec.ofNat 256 n).toNat = n := by
  rw [BitVec.toNat_ofNat, Nat.mod_eq_of_lt h]

private theorem toNat_ofInt_word {z : ℤ} (hz : 0 ≤ z) (h : z < 2 ^ 256) :
    (BitVec.ofInt 256 z).toNat = z.toNat := by
  obtain ⟨n, rfl⟩ := Int.eq_ofNat_of_zero_le hz
  have hn : n < 2 ^ 256 := by omega
  rw [BitVec.ofInt_natCast, toNat_ofNat_word hn, Int.toNat_natCast]

theorem Path.Valid.fee_lt_word {path : Path} (h : path.Valid) : path.fee < 2 ^ 256 :=
  h.fee_lt.trans (by decide)

theorem Path.Valid.isZeroForOne_lt_word {path : Path} (h : path.Valid) :
    path.isZeroForOne < 2 ^ 256 := h.isZeroForOne.trans (by decide)

/-- The words of a step. -/
theorem encode_stepVal {path : Path} (h : path.Valid) : (stepVal path).encode
    = wordOf (addressWord path.poolAddr).toNat ++ wordOf path.fee.toNat ++
      wordOf path.isZeroForOne ++ wordOf (addressWord path.token0).toNat ++
      wordOf (addressWord path.token1).toNat ++ wordOf path.amountOut.toNat := by
  rw [stepVal, encode_tuple_words]
  simp only [List.map_cons, List.map_nil, List.flatten_cons, List.flatten_nil, List.append_nil,
    List.append_assoc, toNat_ofInt_word h.fee_nonneg h.fee_lt_word,
    toNat_ofInt_word h.amountOut_nonneg h.amountOut_lt,
    toNat_ofNat_word h.isZeroForOne_lt_word]

theorem BSCVenusPancakeV2.toList_step {path : Path} (h : path.Valid) :
    (BSCVenusPancakeV2.step path).toList = hexChars (stepVal path).encode := by
  have hfee : (zfill (strFrom (hex path.fee) 2) 64).toList = hexChars (wordOf path.fee.toNat) := by
    rw [← toList_hexField ((Int.toNat_lt h.fee_nonneg).mpr h.fee_lt_word),
      Int.toNat_of_nonneg h.fee_nonneg]
  have hamountOut : (zfill (strFrom (hex path.amountOut) 2) 64).toList
      = hexChars (wordOf path.amountOut.toNat) := by
    rw [← toList_hexField ((Int.toNat_lt h.amountOut_nonneg).mpr h.amountOut_lt),
      Int.toNat_of_nonneg h.amountOut_nonneg]
  rw [BSCVenusPancakeV2.step, encode_stepVal h]
  simp only [String.toList_append, hexChars_append, toList_addressField h.poolAddr, hfee,
    toList_flagField h.isZeroForOne, toList_addressField h.token0, toList_addressField h.token1,
    hamountOut]

/-! ## The whole text -/

theorem isDynamic_stepVal (path : Path) : (stepVal path).isDynamic = false := rfl

/-- The encoding of the arguments, word by word. -/
theorem encode_swapArgs (borrower repayCToken seizeCToken : String) (steps : List Path) :
    (swapArgs borrower repayCToken seizeCToken steps).encode
      = wordOf (addressWord borrower).toNat ++ wordOf (addressWord repayCToken).toNat ++
        wordOf (addressWord seizeCToken).toNat ++ wordOf 128 ++ wordOf steps.length ++
        steps.flatMap fun path ↦ (stepVal path).encode := by
  have harray : (Val.array (steps.map stepVal)).encode
      = wordOf steps.length ++ steps.flatMap fun path ↦ (stepVal path).encode := by
    have hstatic : ∀ v ∈ steps.map stepVal, v.isDynamic = false := by
      intro v hv
      obtain ⟨path, -, rfl⟩ := List.mem_map.mp hv
      exact isDynamic_stepVal path
    rw [encode_array_static hstatic, List.length_map, List.flatMap_map]
  rw [swapArgs, Val.encode, parts_eq_map]
  simp only [List.map_cons, List.map_nil, harray]
  simp [assemble, heads, headsLength, headSize, tails, Val.isDynamic, Val.encode]

theorem BSCVenusPancakeV2.toList_gen {borrower debtCtoken colCtoken : String} {paths : List Path}
    (hborrower : IsAddress borrower) (hdebt : IsAddress debtCtoken) (hcol : IsAddress colCtoken)
    (hpaths : ∀ path ∈ paths, path.Valid) (hlen : paths.length < 2 ^ 256) :
    (BSCVenusPancakeV2.gen borrower debtCtoken colCtoken paths).toList
      = "0x5cf671a6".toList ++
        hexChars (swapArgs borrower debtCtoken colCtoken paths.reverse).encode := by
  have hsteps : (paths.reverse.flatMap fun path ↦ (BSCVenusPancakeV2.step path).toList)
      = hexChars (paths.reverse.flatMap fun path ↦ (stepVal path).encode) := by
    rw [hexChars, List.flatMap_assoc]
    refine List.flatMap_congr fun path hpath ↦ ?_
    exact BSCVenusPancakeV2.toList_step (hpaths path (List.mem_reverse.mp hpath))
  rw [BSCVenusPancakeV2.gen, toList_foldl_append, hsteps, encode_swapArgs, List.length_reverse]
  simp only [String.toList_append, hexChars_append, toList_addressField hborrower,
    toList_addressField hdebt, toList_addressField hcol, toList_offsetField, toList_hexField hlen,
    List.append_assoc]

/-! ## Decoding -/

private theorem toNat_addressWord_lt {s : String} (h : IsAddress s) :
    (addressWord s).toNat < 2 ^ 160 := by
  have hlt : natOfHex (s.toList.drop 2) < 16 ^ 40 := by
    have := natOfHex_lt (s.toList.drop 2)
    rwa [List.length_drop, h.2.1] at this
  exact (Nat.mod_le _ _).trans_lt (hlt.trans_eq (by decide))

/-- A decoded address is the address in lower case. -/
theorem addressText_addressWord {s : String} (h : IsAddress s) :
    addressText (addressWord s) = s.toLower := by
  have hsplit : s.toList = '0' :: 'x' :: s.toList.drop 2 := by
    conv_lhs => rw [← List.take_append_drop 2 s.toList, h.1]
    rfl
  have hlen : (s.toList.drop 2).length = 40 := by rw [List.length_drop, h.2.1]
  have hval : (addressWord s).toNat = natOfHex ((s.toList.drop 2).map Char.toLower) := by
    rw [natOfHex_map_toLower h.2.2, addressWord, toNat_ofNat_word]
    refine (natOfHex_lt _).trans_le ?_
    rw [hlen]
    decide
  have hdigits : hexChars (natToBytes 20 (addressWord s).toNat)
      = (s.toList.drop 2).map Char.toLower := by
    rw [hval, ← zfillChars_eq_hexChars rfl (lowerHex_map_toLower h.2.2) (by rw [List.length_map,
      hlen]), zfillChars_of_lowerHex (lowerHex_map_toLower h.2.2), List.length_map, hlen]
    rfl
  apply String.toList_injective
  rw [addressText, String.toList_append, toList_hexOf, hdigits, toList_toLower]
  conv_rhs => rw [hsplit]
  rfl

theorem hasTy_stepVal {path : Path} (h : path.Valid) : (stepVal path).HasTy stepTy := by
  have hfee : (BitVec.ofInt 256 path.fee).toNat < 2 ^ 24 := by
    rw [toNat_ofInt_word h.fee_nonneg h.fee_lt_word, Int.toNat_lt h.fee_nonneg]
    exact h.fee_lt
  have hflag : (BitVec.ofNat 256 path.isZeroForOne).toNat < 2 ^ 1 := by
    rw [toNat_ofNat_word h.isZeroForOne_lt_word]
    exact h.isZeroForOne
  rw [stepVal, stepTy, Val.HasTy]
  refine ⟨⟨toNat_addressWord_lt h.poolAddr, hfee, hflag, toNat_addressWord_lt h.token0,
    toNat_addressWord_lt h.token1, BitVec.isLt _, trivial⟩, offsetsFit_of_static ?_⟩
  rw [parts_words]
  intro p hp
  obtain ⟨w, -, rfl⟩ := List.mem_map.mp hp
  rfl

/-- The arguments are well typed. -/
theorem hasTy_swapArgs {borrower repayCToken seizeCToken : String} {steps : List Path}
    (hborrower : IsAddress borrower) (hrepay : IsAddress repayCToken)
    (hseize : IsAddress seizeCToken) (hsteps : ∀ path ∈ steps, path.Valid)
    (hlen : steps.length < 2 ^ 256) :
    (swapArgs borrower repayCToken seizeCToken steps).HasTy swapTy := by
  have hstatic : OffsetsFit (Val.parts (steps.map stepVal)) := by
    refine offsetsFit_of_static ?_
    rw [parts_eq_map, List.map_map]
    intro p hp
    obtain ⟨path, -, rfl⟩ := List.mem_map.mp hp
    exact isDynamic_stepVal path
  have harray : (Val.array (steps.map stepVal)).HasTy (.array stepTy) := by
    rw [Val.HasTy, List.length_map, Val.allHaveTy_iff]
    refine ⟨hlen, fun v hv ↦ ?_, hstatic⟩
    obtain ⟨path, hpath, rfl⟩ := List.mem_map.mp hv
    exact hasTy_stepVal (hsteps path hpath)
  rw [swapArgs, swapTy, Val.HasTy]
  refine ⟨⟨toNat_addressWord_lt hborrower, toNat_addressWord_lt hrepay,
    toNat_addressWord_lt hseize, harray, trivial⟩, ?_⟩
  -- the array is the one dynamic component, behind three words
  intro pre enc post hps
  rw [parts_eq_map] at hps
  rcases pre with _ | ⟨p, _ | ⟨q, _ | ⟨r, _ | ⟨t, pre⟩⟩⟩⟩ <;>
    simp [Val.isDynamic, Val.encode] at hps
  obtain ⟨rfl, rfl, rfl, rfl, rfl⟩ := hps
  simp [offsetIn, parts_eq_map, headsLength, headSize, tails, Val.isDynamic, Val.encode]

theorem readStep_stepVal {path : Path} (h : path.Valid) :
    readStep (stepVal path) = some path.toLower := by
  have hread : readStep (stepVal path) = some {
      poolAddr := addressText (addressWord path.poolAddr)
      fee := (BitVec.ofInt 256 path.fee).toNat
      isZeroForOne := (BitVec.ofNat 256 path.isZeroForOne).toNat
      token0 := addressText (addressWord path.token0)
      token1 := addressText (addressWord path.token1)
      amountOut := (BitVec.ofInt 256 path.amountOut).toNat } := rfl
  rw [hread, addressText_addressWord h.poolAddr, addressText_addressWord h.token0,
    addressText_addressWord h.token1, toNat_ofInt_word h.fee_nonneg h.fee_lt_word,
    toNat_ofInt_word h.amountOut_nonneg h.amountOut_lt, toNat_ofNat_word h.isZeroForOne_lt_word,
    Int.toNat_of_nonneg h.fee_nonneg, Int.toNat_of_nonneg h.amountOut_nonneg]
  rfl

private theorem mapM_readStep {steps : List Path} (h : ∀ path ∈ steps, path.Valid) :
    (steps.map stepVal).mapM readStep = some (steps.map Path.toLower) := by
  induction steps with
  | nil => rfl
  | cons path steps ih =>
    rw [List.map_cons, List.mapM_cons, readStep_stepVal (h path List.mem_cons_self),
      ih fun p hp ↦ h p (List.mem_cons_of_mem path hp)]
    rfl

theorem readArgs_swapArgs {borrower repayCToken seizeCToken : String} {steps : List Path}
    (hborrower : IsAddress borrower) (hrepay : IsAddress repayCToken)
    (hseize : IsAddress seizeCToken) (hsteps : ∀ path ∈ steps, path.Valid) :
    readArgs (swapArgs borrower repayCToken seizeCToken steps)
      = some (borrower.toLower, repayCToken.toLower, seizeCToken.toLower,
          steps.map Path.toLower) := by
  rw [swapArgs, readArgs, mapM_readStep hsteps, Option.map_some, addressText_addressWord hborrower,
    addressText_addressWord hrepay, addressText_addressWord hseize]

private theorem length_encode_stepVal {path : Path} (h : path.Valid) :
    (stepVal path).encode.length = 32 * 6 := by
  rw [encode_stepVal h]
  simp only [List.length_append, length_wordOf]

theorem length_encode_swapArgs (borrower repayCToken seizeCToken : String) {steps : List Path}
    (hsteps : ∀ path ∈ steps, path.Valid) :
    (swapArgs borrower repayCToken seizeCToken steps).encode.length
      = 32 * (5 + 6 * steps.length) := by
  have hlen : (steps.flatMap fun path ↦ (stepVal path).encode).length
      = 32 * (6 * steps.length) := by
    induction steps with
    | nil => rfl
    | cons path steps ih =>
      rw [List.flatMap_cons, List.length_append, ih fun p hp ↦ hsteps p (List.mem_cons_of_mem _ hp),
        length_encode_stepVal (hsteps path List.mem_cons_self), List.length_cons]
      ring
  rw [encode_swapArgs]
  simp only [List.length_append, length_wordOf, hlen]
  ring

/-- **The calldata encodes what was planned.** `gen` writes the selector and the canonical encoding
of its arguments with the paths in reverse order. Decoding gives the arguments back in lower case,
and the text has ten characters and sixty-four for each word. -/
theorem gen_encodes {borrower debtCtoken colCtoken : String} {paths : List Path}
    (hborrower : IsAddress borrower) (hdebt : IsAddress debtCtoken) (hcol : IsAddress colCtoken)
    (hpaths : ∀ path ∈ paths, path.Valid) (hlen : paths.length < 2 ^ 256) :
    BSCVenusPancakeV2.gen borrower debtCtoken colCtoken paths
        = "0x5cf671a6" ++ hexOf (swapArgs borrower debtCtoken colCtoken paths.reverse).encode ∧
      decodeSwap (BSCVenusPancakeV2.gen borrower debtCtoken colCtoken paths)
        = some (borrower.toLower, debtCtoken.toLower, colCtoken.toLower,
            paths.reverse.map Path.toLower) ∧
      (BSCVenusPancakeV2.gen borrower debtCtoken colCtoken paths).length
        = 10 + 64 * (5 + 6 * paths.length) := by
  have hchars := BSCVenusPancakeV2.toList_gen hborrower hdebt hcol hpaths hlen
  have hsteps : ∀ path ∈ paths.reverse, path.Valid := fun path hpath ↦
    hpaths path (List.mem_reverse.mp hpath)
  have hselector : "0x5cf671a6".toList.length = 10 := by decide
  refine ⟨?_, ?_, ?_⟩
  · apply String.toList_injective
    rw [hchars, String.toList_append, toList_hexOf]
  · have htext : strFrom (BSCVenusPancakeV2.gen borrower debtCtoken colCtoken paths) 10
        = hexOf (swapArgs borrower debtCtoken colCtoken paths.reverse).encode := by
      rw [strFrom, hchars, ← hselector, List.drop_left, hexOf]
    have hty : (swapArgs borrower debtCtoken colCtoken paths.reverse).HasTy swapTy :=
      hasTy_swapArgs hborrower hdebt hcol hsteps (by rwa [List.length_reverse])
    have hdecode := Ty.decode_encode hty []
    rw [List.append_nil] at hdecode
    rw [decodeSwap, if_pos (by rw [hchars, ← hselector, List.take_left]), htext,
      bytesFromHex_hexOf, Option.bind_some, hdecode, Option.bind_some,
      readArgs_swapArgs hborrower hdebt hcol hsteps]
  · rw [← String.length_toList, hchars, List.length_append, hselector, length_hexChars,
      length_encode_swapArgs _ _ _ hsteps, List.length_reverse]
    ring

/-- The two hops of the test of the encoder. -/
def testPaths : List Path := [
  { poolAddr := "0xDA9dfA130Df4dE4673b89022EE50ff26f6EA73Cf"
    fee := 25
    isZeroForOne := 0
    token0 := "0x8315177aB297bA92A06054cE80a67Ed4DBd7ed3a"
    token1 := "0x47ac0Fb4F2D84898e4D9E7b4DaB3C24507a6D503"
    amountOut := 1000 },
  { poolAddr := "0x2B6eD29A95753C3Ad948348e3e7b1A251080Ffb9"
    fee := 25
    isZeroForOne := 1
    token0 := "0x8103683202aa8DA10536036EDef04CDd865C225E"
    token1 := "0x0a4c79cE84202b03e95B7a692E5D728d83C44c76"
    amountOut := 20000 }]

private theorem valid_testPaths : ∀ path ∈ testPaths, path.Valid := by
  intro path hpath
  rw [testPaths, List.mem_cons, List.mem_singleton] at hpath
  rcases hpath with rfl | rfl
  · exact ⟨by decide +kernel, by decide, by decide, by decide, by decide +kernel,
      by decide +kernel, by decide, by decide⟩
  · exact ⟨by decide +kernel, by decide, by decide, by decide, by decide +kernel,
      by decide +kernel, by decide, by decide⟩

theorem gen_encodes_testPaths :
    decodeSwap (BSCVenusPancakeV2.gen "0x00000000219ab540356cBB839Cbe05303d7705Fa"
        "0xC02aaA39b223FE8D0A0e5C4F27eAD9083C756Cc2" "0xBE0eB53F46cd790Cd13851d5EFf43D12404d33E8"
        testPaths)
      = some ("0x00000000219ab540356cBB839Cbe05303d7705Fa".toLower,
          "0xC02aaA39b223FE8D0A0e5C4F27eAD9083C756Cc2".toLower,
          "0xBE0eB53F46cd790Cd13851d5EFf43D12404d33E8".toLower,
          testPaths.reverse.map Path.toLower) ∧
    (BSCVenusPancakeV2.gen "0x00000000219ab540356cBB839Cbe05303d7705Fa"
        "0xC02aaA39b223FE8D0A0e5C4F27eAD9083C756Cc2" "0xBE0eB53F46cd790Cd13851d5EFf43D12404d33E8"
        testPaths).length = 1098 :=
  (gen_encodes (by decide +kernel) (by decide +kernel) (by decide +kernel) valid_testPaths
    (by decide)).2

end CompoundLiquidation
