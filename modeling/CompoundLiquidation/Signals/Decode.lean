import CompoundLiquidation.Abi.Encode
import CompoundLiquidation.Signals.Transmit

/-!
# Decoding canonical `transmit` calls

Offsets `0x00`, `0xa0` and `0x100` of the filter are those of the canonical encoding: the first
head entry of the arguments is the offset `0x80` of the report, whose length word ends at `0xa0`;
the report opens with two words and the offset of its only array. So on canonical calldata the
fixed positions are the right ones, for every number of observations.

The observations are signed and the filter reads them unsigned. It returns the right price when the
median is not negative and a number near `2^256` when it is.
-/

namespace CompoundLiquidation

open Python Abi

/-- A report: the canonical encoding of `TRANSMIT_ARG_TYPES2`. -/
def transmitReport (ctx observers : BitVec 256) (observations : List (BitVec 192)) : Bytes :=
  (Val.tuple [.word ctx, .word observers,
    .array ((observations.map fun o ↦ o.signExtend 256).map .word)]).encode

/-- The arguments of a call: the canonical encoding of `TRANSMIT_ARG_TYPES1`. -/
def transmitArgs (report : Bytes) (rs ss : List (BitVec 256)) (rawVs : BitVec 256) : Bytes :=
  (Val.tuple [.bytes report, .array (rs.map .word), .array (ss.map .word), .word rawVs]).encode

/-- The epoch a report context carries in its last five bytes. -/
def epochOfCtx (ctx : BitVec 256) : ℤ := natOfBytes (lastN 5 (wordOf ctx.toNat))

/-! ## The layout of canonical calldata -/

private theorem transmitArgs_layout (report : Bytes) (rs ss : List (BitVec 256))
    (rawVs : BitVec 256) :
    slice (transmitArgs report rs ss rawVs) 0 32 = wordOf 128 ∧
      ∃ rest, (transmitArgs report rs ss rawVs).drop 160 = report ++ rest := by
  set ps : List Part := Val.parts [.bytes report, .array (rs.map .word), .array (ss.map .word),
    .word rawVs] with hps
  have hcons : ps = [] ++ (true, wordOf report.length ++ padRight report) :: Val.parts
      [.array (rs.map .word), .array (ss.map .word), .word rawVs] := rfl
  have hoff : offsetIn ps [] = 128 := by
    rw [offsetIn, hps]
    simp [headsLength, headSize, Val.parts, Val.isDynamic, Val.encode, tails]
  have hargs : transmitArgs report rs ss rawVs = assemble ps := rfl
  obtain ⟨rest, hhead⟩ := drop_headsLength_assemble hcons
  have htail := drop_offsetIn_assemble hcons
  rw [hoff] at hhead htail
  constructor
  · have hzero : assemble ps = wordOf 128 ++ rest := hhead
    rw [hargs, hzero]
    exact slice_append_middle [] (wordOf 128) rest rfl rfl
  · have hsplit : (assemble ps).drop 160 = ((assemble ps).drop 128).drop 32 := by
      rw [List.drop_drop]
    rw [hargs, hsplit, htail, List.append_assoc, List.drop_left' (length_wordOf _), padRight,
      List.append_assoc]
    exact ⟨_, rfl⟩

private theorem transmitReport_layout (ctx observers : BitVec 256)
    (observations : List (BitVec 192)) :
    transmitReport ctx observers observations = wordOf ctx.toNat ++ (wordOf observers.toNat ++
      (wordOf 96 ++ (wordOf observations.length ++
        (observations.map fun o ↦ wordOf (o.signExtend 256).toNat).flatten))) := by
  have hparts : Val.parts [.word ctx, .word observers,
      .array ((observations.map fun o ↦ o.signExtend 256).map .word)]
      = [(false, wordOf ctx.toNat), (false, wordOf observers.toNat),
        (true, wordOf observations.length ++
          (observations.map fun o ↦ wordOf (o.signExtend 256).toNat).flatten)] := by
    have harray : (Val.array ((observations.map fun o ↦ o.signExtend 256).map .word)).encode
        = wordOf observations.length ++
          (observations.map fun o ↦ wordOf (o.signExtend 256).toNat).flatten := by
      rw [encode_array_words, List.length_map, List.map_map]
      rfl
    rw [Val.parts, Val.parts, Val.parts, Val.parts, harray]
    rfl
  rw [transmitReport, Val.encode, hparts]
  simp [assemble, heads, tails, headsLength, headSize]

/-! ## What the filter reads -/

section Reads

variable {data report rest : Bytes}

private theorem reportOffset_eq (hword : slice data 0 32 = wordOf 128) :
    reportOffset data = 160 := by
  rw [reportOffset, hword, natOfBytes_wordOf (by decide)]

/-- Behind its offset the filter reads the report. -/
private theorem slice_report (hdrop : data.drop 160 = report ++ rest) (a b : ℕ) :
    slice data (160 + a) (160 + b) = slice (report ++ rest) a b := by
  rw [slice_add, hdrop]

variable {ctx observers : BitVec 256} {observations : List (BitVec 192)}

private theorem rawReportCtx_eq (hword : slice data 0 32 = wordOf 128)
    (hdrop : data.drop 160 = transmitReport ctx observers observations ++ rest) :
    rawReportCtx data = wordOf ctx.toNat := by
  rw [rawReportCtx, reportOffset_eq hword, ← Nat.add_zero 160, Nat.add_assoc, slice_report hdrop,
    transmitReport_layout, List.append_assoc]
  exact slice_append_middle [] (wordOf ctx.toNat) _ rfl (by simp)

private theorem arrayLength_eq (hword : slice data 0 32 = wordOf 128)
    (hdrop : data.drop 160 = transmitReport ctx observers observations ++ rest)
    (hlen : observations.length < 256 ^ 32) : arrayLength data = observations.length := by
  have hread : slice data (160 + 32 * 3) (160 + 32 * 4) = wordOf observations.length := by
    rw [slice_report hdrop, transmitReport_layout]
    have hassoc : ∀ x y z w v : Bytes, (x ++ (y ++ (z ++ (w ++ v)))) ++ rest
        = (x ++ (y ++ z)) ++ (w ++ (v ++ rest)) := by simp
    rw [hassoc]
    refine slice_append_middle _ _ _ ?_ ?_
    · simp
    · simp
  rw [arrayLength, reportOffset_eq hword, hread, natOfBytes_wordOf hlen]

private theorem medianWord_eq (hword : slice data 0 32 = wordOf 128)
    (hdrop : data.drop 160 = transmitReport ctx observers observations ++ rest)
    (hlen : observations.length < 256 ^ 32) {o : BitVec 192}
    (ho : observations[observations.length / 2]? = some o) :
    medianWord data = wordOf (o.signExtend 256).toNat := by
  have hblock : (observations.map fun o ↦ wordOf (o.signExtend 256).toNat)[observations.length / 2]?
      = some (wordOf (o.signExtend 256).toNat) := by
    rw [List.getElem?_map, ho, Option.map_some]
  have hlens : ∀ m ∈ observations.map fun o ↦ wordOf (o.signExtend 256).toNat, m.length = 32 := by
    intro m hm
    obtain ⟨o', -, rfl⟩ := List.mem_map.mp hm
    exact length_wordOf _
  have hassoc : ∀ x y z w v : Bytes, (x ++ (y ++ (z ++ (w ++ v)))) ++ rest
      = (x ++ (y ++ (z ++ w))) ++ (v ++ rest) := by simp
  rw [medianWord, medianOffset, arrayLength_eq hword hdrop hlen, reportOffset_eq hword,
    Nat.add_assoc 160, Nat.add_assoc 160, slice_report hdrop, transmitReport_layout, hassoc,
    Nat.add_assoc, slice_add, List.drop_left' (by simp)]
  exact slice_flatten hlens hblock rest

end Reads

/-! ## The price -/

/-- The unsigned reading of a sign-extended observation is the observation when it is not
negative. -/
theorem toNat_signExtend_eq_toInt_iff (o : BitVec 192) :
    ((o.signExtend 256).toNat : ℤ) = o.toInt ↔ 0 ≤ o.toInt := by
  have hsame : (o.signExtend 256).toInt = o.toInt := BitVec.toInt_signExtend_of_le (by decide)
  constructor
  · exact fun h ↦ h ▸ Int.natCast_nonneg _
  · intro h
    rw [← hsame] at h ⊢
    rw [BitVec.toInt_eq_toNat_cond] at h ⊢
    split at h
    · rename_i hlt
      rw [if_pos hlt]
    · have := (o.signExtend 256).isLt
      omega

/-- What the filter does with canonical calldata that passes its checks. -/
theorem run_transmit {ninety : ℤ → ℚ} {s : Signals} {tx : TxAttributes}
    {gasPrice signal : ℤ} {ctx observers rawVs : BitVec 256} {observations : List (BitVec 192)}
    {rs ss : List (BitVec 256)} {o : BitVec 192}
    (hin : bytesFromPrefixed tx.input = .ok (transmitFuncSig ++
      transmitArgs (transmitReport ctx observers observations) rs ss rawVs))
    (hsignal : signalGasprice tx = .ok signal) (hgas : ninety gasPrice ≤ signal)
    (hstale : s.localEpoch tx.toAddr ≤ epochOfCtx ctx) (hlen : observations.length < 256 ^ 32)
    (ho : observations[observations.length / 2]? = some o) :
    (txFilterAndParsing ninety tx gasPrice).run s
      = (.ok (tx.toAddr, ((o.signExtend 256).toNat : ℤ)),
        s.setEpoch tx.toAddr (epochOfCtx ctx)) := by
  obtain ⟨hword, rest, hdrop⟩ :=
    transmitArgs_layout (transmitReport ctx observers observations) rs ss rawVs
  have hne : transmitArgs (transmitReport ctx observers observations) rs ss rawVs ≠ [] := by
    intro hnil
    rw [hnil, slice, List.drop_nil, List.take_nil] at hword
    exact absurd (congrArg List.length hword) (by simp)
  have hctx := rawReportCtx_eq hword hdrop
  have hepoch : signalEpoch (transmitArgs (transmitReport ctx observers observations) rs ss rawVs)
      = .ok (epochOfCtx ctx) := by
    have hctx_ne : wordOf ctx.toNat ≠ [] := fun hnil ↦
      absurd (congrArg List.length hnil) (by simp)
    rw [signalEpoch_eq, hctx, if_neg hctx_ne, epochOfCtx]
  have hpos : observations.length ≠ 0 := by
    intro hzero
    rw [List.length_eq_zero_iff] at hzero
    simp [hzero] at ho
  have hprice : medianPrice (transmitArgs (transmitReport ctx observers observations) rs ss rawVs)
      = .ok ((o.signExtend 256).toNat : ℤ) := by
    rw [medianPrice_eq, arrayLength_eq hword hdrop hlen, if_neg hpos,
      medianWord_eq hword hdrop hlen ho, natOfBytes_wordOf (o.signExtend 256).isLt]
  rw [run_txFilterAndParsing, reportOf, callDataArgs_of_transmit hin hne hsignal hgas, ok_bind,
    hepoch, ok_bind]
  simp only [if_neg (not_lt.mpr hstale), hprice]
  rfl

/-- **Agreement with the ABI decoding.** On canonical calldata that passes the gas and staleness
checks, the filter returns the signed median observation and stores the epoch of the context, if
and only if that observation is not negative. -/
theorem median_of_transmit_iff (ninety : ℤ → ℚ) (s : Signals) (tx : TxAttributes)
    (gasPrice signal : ℤ) (ctx observers rawVs : BitVec 256) (observations : List (BitVec 192))
    (rs ss : List (BitVec 256)) (o : BitVec 192)
    (hin : bytesFromPrefixed tx.input = .ok (transmitFuncSig ++
      transmitArgs (transmitReport ctx observers observations) rs ss rawVs))
    (hsignal : signalGasprice tx = .ok signal) (hgas : ninety gasPrice ≤ signal)
    (hstale : s.localEpoch tx.toAddr ≤ epochOfCtx ctx) (hlen : observations.length < 256 ^ 32)
    (ho : observations[observations.length / 2]? = some o) :
    (((txFilterAndParsing ninety tx gasPrice).run s).1 = .ok (tx.toAddr, o.toInt) ∧
      ((txFilterAndParsing ninety tx gasPrice).run s).2.signalsEpoch.get? tx.toAddr
        = some (epochOfCtx ctx)) ↔ 0 ≤ o.toInt := by
  rw [run_transmit hin hsignal hgas hstale hlen ho, ← toNat_signExtend_eq_toInt_iff]
  simp [Signals.setEpoch]

/-- A pending transaction with canonical calldata of these observations and signatures. -/
def transmitWith (observations : List (BitVec 192)) (rs ss : List (BitVec 256)) : TxAttributes where
  toAddr := "0x137924d7c36816e0dcaf016eb617cc2c92c05782"
  input := hexBytesHex (transmitFuncSig ++ transmitArgs (transmitReport 5 0 observations) rs ss 0)
  gasPrice := some "0x12a05f200"
  maxFeePerGas := none

theorem input_transmitWith (observations : List (BitVec 192)) (rs ss : List (BitVec 256)) :
    bytesFromPrefixed (transmitWith observations rs ss).input
      = .ok (transmitFuncSig ++ transmitArgs (transmitReport 5 0 observations) rs ss 0) :=
  bytesFromPrefixed_hexBytesHex _

theorem signalGasprice_transmitWith (observations : List (BitVec 192)) (rs ss : List (BitVec 256)) :
    signalGasprice (transmitWith observations rs ss) = .ok 5000000000 := by
  have hparse : intOfAttribute (some "0x12a05f200") = .ok 5000000000 := by decide +kernel
  exact hparse

private theorem localEpoch_le_epochOfCtx (a : String) (ctx : BitVec 256) :
    (Signals.init ∅).localEpoch a ≤ epochOfCtx ctx := Int.natCast_nonneg _

theorem exactNinety_le : exactNinety 5000000000 ≤ (5000000000 : ℤ) := by decide +kernel

theorem median_of_transmit_seven :
    let tx := transmitWith [-2, 7, 9] [1, 2, 3] [4, 5, 6]
    ((txFilterAndParsing exactNinety tx 5000000000).run (Signals.init ∅)).1
        = .ok (tx.toAddr, (7 : BitVec 192).toInt) ∧
      ((txFilterAndParsing exactNinety tx 5000000000).run
        (Signals.init ∅)).2.signalsEpoch.get? tx.toAddr = some (epochOfCtx 5) :=
  (median_of_transmit_iff exactNinety (Signals.init ∅) _ 5000000000 5000000000 5 0 0 [-2, 7, 9]
    [1, 2, 3] [4, 5, 6] 7 (input_transmitWith _ _ _) (signalGasprice_transmitWith _ _ _)
    exactNinety_le (localEpoch_le_epochOfCtx _ 5) (by decide) rfl).mpr (by decide)

/-- A pending transaction with one observation. -/
def transmitOf (o : BitVec 192) : TxAttributes := transmitWith [o] [] []

theorem run_transmitOf {s : Signals} (o : BitVec 192)
    (hstale : s.localEpoch (transmitOf o).toAddr ≤ epochOfCtx 5) :
    (txFilterAndParsing exactNinety (transmitOf o) 5000000000).run s
      = (.ok ((transmitOf o).toAddr, ((o.signExtend 256).toNat : ℤ)),
        s.setEpoch (transmitOf o).toAddr (epochOfCtx 5)) := by
  have hlength : [o].length < 256 ^ 32 := by
    rw [List.length_singleton]
    decide
  have hmedian : [o][[o].length / 2]? = some o := by
    rw [List.length_singleton, Nat.div_eq_of_lt (by decide), List.getElem?_cons_zero]
  exact run_transmit (input_transmitWith [o] [] []) (signalGasprice_transmitWith _ _ _)
    exactNinety_le hstale hlength hmedian

/-- A median of `-1` is returned as `2 ^ 256 - 1`. -/
theorem price_of_negative_median :
    ((txFilterAndParsing exactNinety (transmitOf (-1)) 5000000000).run (Signals.init ∅)).1
        = .ok ((transmitOf (-1)).toAddr, 2 ^ 256 - 1) ∧
      ((txFilterAndParsing exactNinety (transmitOf (-1)) 5000000000).run (Signals.init ∅)).1
        ≠ .ok ((transmitOf (-1)).toAddr, (-1 : BitVec 192).toInt) := by
  rw [run_transmitOf (-1) (localEpoch_le_epochOfCtx _ 5)]
  constructor
  · decide
  · decide

end CompoundLiquidation
