import CompoundLiquidation.Signals.Transmit

/-!
# How much of an accepted report is in the message

The filter has no bounds check of its own. What it does guarantee about the layout comes from the
two places where an empty slice is an error: an empty context has no epoch, and an empty length
word is the number zero, for which there is no median. An accepted report therefore begins inside
the message and has its context whole, and that is all. Its length word may be cut off, its
observations may lie anywhere behind the end, and each missing word counts as zero.
-/

namespace CompoundLiquidation

open Python

/-- The context, the length word and all observations lie inside the arguments. -/
def InBounds (data : Bytes) : Prop :=
  reportOffset data + 32 * (4 + arrayLength data) ≤ data.length

instance (data : Bytes) : Decidable (InBounds data) := Nat.decLe _ _

private theorem lt_length_of_natOfBytes_slice {data : Bytes} {a b : ℕ}
    (h : natOfBytes (slice data a b) ≠ 0) : a < data.length := by
  have hne : slice data a b ≠ [] := by
    intro hnil
    rw [hnil, natOfBytes_nil] at h
    exact h rfl
  rw [Ne, slice_eq_nil_iff, not_or] at hne
  exact Nat.not_le.mp hne.2

/-- A report with an observation reaches past its third word. -/
theorem reportOffset_lt_of_arrayLength {data : Bytes} (h : arrayLength data ≠ 0) :
    reportOffset data + 96 < data.length := lt_length_of_natOfBytes_slice h

/-- In bounds, the median observation is a full word. -/
theorem length_medianWord {data : Bytes} (hlen : arrayLength data ≠ 0) (h : InBounds data) :
    (medianWord data).length = 32 := by
  have hend : medianOffset data + 32 ≤ data.length := by
    have hhalf : arrayLength data / 2 + 1 ≤ arrayLength data :=
      Nat.div_lt_self (Nat.pos_of_ne_zero hlen) (by decide)
    rw [InBounds] at h
    rw [medianOffset]
    omega
  rw [medianWord, length_slice_of_le hend, Nat.add_sub_cancel_left]

section Accepted

variable {ninety : ℤ → ℚ}

/-- The report behind a returned price. -/
private theorem report_of_accepted {tx : TxAttributes} {gasPrice : ℤ} {s s' : Signals}
    {r : String × ℤ} (h : (txFilterAndParsing ninety tx gasPrice).run s = (.ok r, s')) :
    ∃ data, callDataArgs ninety tx gasPrice = .ok data ∧ rawReportCtx data ≠ [] ∧
      arrayLength data ≠ 0 ∧ r = (tx.toAddr, (natOfBytes (medianWord data) : ℤ)) := by
  rw [run_txFilterAndParsing] at h
  rcases hargs : callDataArgs ninety tx gasPrice with e | data
  · simp [reportOf, hargs] at h
  rcases hepoch : signalEpoch data with e | epoch
  · simp [reportOf, hargs, hepoch] at h
  have hctx : rawReportCtx data ≠ [] := by
    intro hnil
    simp [signalEpoch_eq, hnil] at hepoch
  simp only [reportOf, hargs, hepoch, ok_bind] at h
  by_cases hstale : s.localEpoch tx.toAddr > epoch
  · simp [hstale] at h
  rw [if_neg hstale, medianPrice_eq] at h
  by_cases hlen : arrayLength data = 0
  · simp [hlen, Except.map] at h
  rw [if_neg hlen, Prod.mk.injEq, Except.map, Except.ok.injEq] at h
  exact ⟨data, rfl, hctx, hlen, h.1.symm⟩

/-- **What acceptance says about the layout.** Of an accepted report the context is whole, the
length word begins inside the message and is not zero, the loop makes as many rounds as it says,
and the price is the number spelled by the bytes present of the median word. Where the report is
in bounds the median word is whole and the rounds are at most a word of the message each. -/
theorem layout_of_accepted (tx : TxAttributes) (gasPrice : ℤ) (s s' : Signals) (r : String × ℤ)
    (h : (txFilterAndParsing ninety tx gasPrice).run s = (.ok r, s')) :
    ∃ data, callDataArgs ninety tx gasPrice = .ok data ∧
      reportOffset data + 96 < data.length ∧
      (rawReportCtx data).length = 32 ∧
      1 ≤ arrayLength data ∧ (arrayArgs data).length = arrayLength data ∧
      r = (tx.toAddr, (natOfBytes (medianWord data) : ℤ)) ∧
      (InBounds data → (medianWord data).length = 32 ∧
        arrayLength data ≤ (data.length + 4) / 32) := by
  obtain ⟨data, hargs, -, hlen, hr⟩ := report_of_accepted h
  have hoff := reportOffset_lt_of_arrayLength hlen
  refine ⟨data, hargs, hoff, ?_, Nat.pos_of_ne_zero hlen, length_readWords _ _ _, hr, ?_⟩
  · rw [rawReportCtx, length_slice_of_le (by omega), Nat.add_sub_cancel_left]
  · intro hin
    refine ⟨length_medianWord hlen hin, ?_⟩
    rw [InBounds] at hin
    omega

/-- The arguments of a report cut off behind a length word that promises one observation. -/
private def truncatedArgs : Bytes :=
  natToBytes 32 0 ++ (natToBytes 32 5 ++ (natToBytes 32 0 ++ (natToBytes 32 0 ++ natToBytes 32 1)))

/-- The truncated report as a pending transaction. -/
def truncatedReport : TxAttributes where
  toAddr := "0x137924d7c36816e0dcaf016eb617cc2c92c05782"
  input := hexBytesHex (transmitFuncSig ++ truncatedArgs)
  gasPrice := some "0x12a05f200"
  maxFeePerGas := none

private theorem callDataArgs_truncatedReport :
    callDataArgs exactNinety truncatedReport 5000000000 = .ok truncatedArgs := by
  have hsignal : signalGasprice truncatedReport = .ok 5000000000 := by decide +kernel
  exact callDataArgs_of_transmit (bytesFromPrefixed_hexBytesHex _) (by decide) hsignal
    (by decide +kernel)

private theorem run_truncatedReport :
    (txFilterAndParsing exactNinety truncatedReport 5000000000).run (Signals.init ∅)
      = (.ok (truncatedReport.toAddr, 0), (Signals.init ∅).setEpoch truncatedReport.toAddr 5) := by
  have hepoch : signalEpoch truncatedArgs = .ok 5 := by
    rw [signalEpoch_eq]
    decide +kernel
  have hprice : medianPrice truncatedArgs = .ok 0 := by
    rw [medianPrice_eq]
    decide +kernel
  rw [run_txFilterAndParsing, reportOf, callDataArgs_truncatedReport, ok_bind, hepoch, ok_bind]
  simp only [hprice]
  rfl

theorem layout_of_accepted_truncatedReport :
    ∃ data, callDataArgs exactNinety truncatedReport 5000000000 = .ok data ∧
      reportOffset data + 96 < data.length ∧
      (rawReportCtx data).length = 32 ∧
      1 ≤ arrayLength data ∧ (arrayArgs data).length = arrayLength data ∧
      (truncatedReport.toAddr, (0 : ℤ))
        = (truncatedReport.toAddr, (natOfBytes (medianWord data) : ℤ)) ∧
      (InBounds data → (medianWord data).length = 32 ∧
        arrayLength data ≤ (data.length + 4) / 32) :=
  layout_of_accepted truncatedReport 5000000000 (Signals.init ∅) _ _ run_truncatedReport

/-- Acceptance does not mean in bounds: the truncated report is taken for a price of zero. -/
theorem not_inBounds_of_accepted :
    ¬ ∀ (tx : TxAttributes) (gasPrice : ℤ) (s s' : Signals) (r : String × ℤ) (data : Bytes),
      (txFilterAndParsing exactNinety tx gasPrice).run s = (.ok r, s') →
      callDataArgs exactNinety tx gasPrice = .ok data → InBounds data := by
  intro h
  have hin := h _ _ _ _ _ _ run_truncatedReport callDataArgs_truncatedReport
  revert hin
  decide +kernel

end Accepted

end CompoundLiquidation
