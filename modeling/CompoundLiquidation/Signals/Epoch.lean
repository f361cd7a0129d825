import CompoundLiquidation.Signals.Transmit

/-!
# Which reports the stored epochs remember

The stale check compares a report with the last epoch stored for its aggregator, so the stored
epochs should be those of accepted reports. A run of messages is followed here together with the
list of the epochs it accepted, and the two are compared at every point.

They part in exactly one way. The epoch is stored before the observations are counted, and a report
with no observation raises behind that point: it is rejected and remembered. Any sender can make
such a report, and with a large epoch it silences the aggregator.
-/

namespace CompoundLiquidation

open Python

/-- A pending transaction and the local gas price at its arrival. -/
abbrev Message := TxAttributes × ℤ

/-- A run of the filter: the object, and the aggregator and epoch of every report that was
accepted, oldest first. -/
structure SignalRun where
  signals : Signals
  accepted : List (String × ℤ)

/-- The largest epoch accepted for an aggregator, `0` when there is none. -/
def largestEpoch (accepted : List (String × ℤ)) (a : String) : ℤ :=
  ((accepted.filter fun p ↦ p.1 = a).map Prod.snd).foldl max 0

theorem largestEpoch_concat (accepted : List (String × ℤ)) (a b : String) (epoch : ℤ) :
    largestEpoch (accepted ++ [(b, epoch)]) a
      = if a = b then max (largestEpoch accepted a) epoch else largestEpoch accepted a := by
  rw [largestEpoch, List.filter_append, List.map_append, List.foldl_append]
  by_cases h : a = b
  · simp [largestEpoch, h]
  · simp [largestEpoch, h, Ne.symm h]

private theorem foldl_max_lt {l : List ℤ} {bound : ℤ} (h : ∀ e ∈ l, e < bound) :
    ∀ init, init ≤ bound → l.foldl max init ≤ bound := by
  induction l with
  | nil => exact fun _ h0 ↦ h0
  | cons e l ih =>
    intro init h0
    rw [List.foldl_cons]
    exact ih (fun e' he' ↦ h e' (List.mem_cons_of_mem e he')) _
      (max_le h0 (h e List.mem_cons_self).le)

/-- An epoch above all accepted ones is at least the largest of them. -/
theorem largestEpoch_le {accepted : List (String × ℤ)} {a : String} {epoch : ℤ} (h0 : 0 ≤ epoch)
    (h : ∀ e, (a, e) ∈ accepted → e < epoch) : largestEpoch accepted a ≤ epoch := by
  refine foldl_max_lt (fun e he ↦ ?_) 0 h0
  rw [List.mem_map] at he
  obtain ⟨⟨b, e'⟩, hmem, rfl⟩ := he
  rw [List.mem_filter, decide_eq_true_eq] at hmem
  exact h e' (hmem.2 ▸ hmem.1)

section Run

variable (ninety : ℤ → ℚ)

/-- One message. A call that returns adds the epoch of its report to the accepted ones. -/
def hear (r : SignalRun) (m : Message) : SignalRun where
  signals := ((txFilterAndParsing ninety m.1 m.2).run r.signals).2
  accepted :=
    match ((txFilterAndParsing ninety m.1 m.2).run r.signals).1, reportOf ninety m.1 m.2 with
    | .ok _, .ok (_, epoch) => r.accepted ++ [(m.1.toAddr, epoch)]
    | _, _ => r.accepted

/-- The run of a freshly built object over a list of messages. -/
def hearAll (sourceTokenMap : Dict String (List AggregatorInfos)) (msgs : List Message) :
    SignalRun :=
  runFrom (hear ninety) ⟨Signals.init sourceTokenMap, []⟩ msgs

/-- A message that the filter rejects and whose epoch it keeps: the report passes every check in
front of the assignment, it has no observation, and its epoch is not the stored one. -/
def LeavesTrace (s : Signals) (m : Message) : Prop :=
  ∃ data epoch, reportOf ninety m.1 m.2 = .ok (data, epoch) ∧ s.localEpoch m.1.toAddr ≤ epoch ∧
    arrayLength data = 0 ∧ s.signalsEpoch.get? m.1.toAddr ≠ some epoch

/-- The four ways a message can go. -/
private theorem hear_cases (r : SignalRun) (m : Message) :
    (∃ e, reportOf ninety m.1 m.2 = .error e ∧
      (txFilterAndParsing ninety m.1 m.2).run r.signals = (.error e, r.signals)) ∨
    ∃ data epoch, reportOf ninety m.1 m.2 = .ok (data, epoch) ∧ 0 ≤ epoch ∧
      ((epoch < r.signals.localEpoch m.1.toAddr ∧
        (txFilterAndParsing ninety m.1 m.2).run r.signals
          = (.error (staleReport (r.signals.localEpoch m.1.toAddr) epoch), r.signals)) ∨
      (r.signals.localEpoch m.1.toAddr ≤ epoch ∧ arrayLength data = 0 ∧
        (txFilterAndParsing ninety m.1 m.2).run r.signals
          = (.error .indexError, r.signals.setEpoch m.1.toAddr epoch)) ∨
      (r.signals.localEpoch m.1.toAddr ≤ epoch ∧ arrayLength data ≠ 0 ∧ ∃ price,
        (txFilterAndParsing ninety m.1 m.2).run r.signals
          = (.ok (m.1.toAddr, price), r.signals.setEpoch m.1.toAddr epoch))) := by
  have hrun := run_txFilterAndParsing ninety m.1 m.2 r.signals
  cases hrep : reportOf ninety m.1 m.2 with
  | error e =>
    rw [hrep] at hrun
    exact Or.inl ⟨e, rfl, hrun⟩
  | ok report =>
    obtain ⟨data, epoch⟩ := report
    simp only [hrep, medianPrice_eq] at hrun
    have h0 : 0 ≤ epoch := reportOf_nonneg hrep
    refine Or.inr ⟨data, epoch, rfl, h0, ?_⟩
    by_cases hstale : r.signals.localEpoch m.1.toAddr > epoch
    · rw [if_pos hstale] at hrun
      exact Or.inl ⟨hstale, hrun⟩
    rw [if_neg hstale] at hrun
    have hle : r.signals.localEpoch m.1.toAddr ≤ epoch := Int.not_lt.mp hstale
    by_cases hlen : arrayLength data = 0
    · rw [if_pos hlen] at hrun
      exact Or.inr (Or.inl ⟨hle, hlen, hrun⟩)
    · rw [if_neg hlen] at hrun
      exact Or.inr (Or.inr ⟨hle, hlen, _, hrun⟩)

/-! ## The property and when it holds -/

variable (sourceTokenMap : Dict String (List AggregatorInfos))

/-- What a run should show after the messages `past`. -/
structure NoTrace (past : List Message) : Prop where
  /-- Every stored epoch is the largest accepted one. -/
  epochs : ∀ a, (hearAll ninety sourceTokenMap past).signals.localEpoch a
    = largestEpoch (hearAll ninety sourceTokenMap past).accepted a
  /-- If the last call raised, it left the epochs as they were. -/
  raised : ∀ before m e, past = before ++ [m] →
    ((txFilterAndParsing ninety m.1 m.2).run (hearAll ninety sourceTokenMap before).signals).1
      = .error e →
    (hearAll ninety sourceTokenMap past).signals.signalsEpoch
      = (hearAll ninety sourceTokenMap before).signals.signalsEpoch
  /-- A report newer than everything accepted is not refused as stale. -/
  fresh : ∀ (m : Message) data epoch, reportOf ninety m.1 m.2 = .ok (data, epoch) →
    (∀ e, (m.1.toAddr, e) ∈ (hearAll ninety sourceTokenMap past).accepted → e < epoch) →
    ∀ l s, ((txFilterAndParsing ninety m.1 m.2).run
      (hearAll ninety sourceTokenMap past).signals).1 ≠ .error (staleReport l s)

variable {ninety} {sourceTokenMap}

/-- As long as the stored epochs are those of accepted reports, newer reports are heard. -/
private theorem fresh_of_epochs {r : SignalRun}
    (hepochs : ∀ a, r.signals.localEpoch a = largestEpoch r.accepted a) {m : Message} {data : Bytes}
    {epoch : ℤ} (hrep : reportOf ninety m.1 m.2 = .ok (data, epoch))
    (hnew : ∀ e, (m.1.toAddr, e) ∈ r.accepted → e < epoch) (l s : ℤ) :
    ((txFilterAndParsing ninety m.1 m.2).run r.signals).1 ≠ .error (staleReport l s) := by
  have hle : r.signals.localEpoch m.1.toAddr ≤ epoch :=
    hepochs m.1.toAddr ▸ largestEpoch_le (reportOf_nonneg hrep) hnew
  rw [run_txFilterAndParsing, hrep]
  simp only [if_neg (Int.not_lt.mpr hle), medianPrice_eq]
  by_cases hlen : arrayLength data = 0
  · rw [if_pos hlen]
    exact nofun
  · rw [if_neg hlen]
    exact nofun

private theorem localEpoch_setEpoch (s : Signals) (a b : String) (epoch : ℤ) :
    (s.setEpoch b epoch).localEpoch a = if a = b then epoch else s.localEpoch a :=
  Dict.getD_set s.signalsEpoch b a epoch 0

private theorem set_epoch_of_get? {s : Signals} {a : String} {epoch : ℤ}
    (h : s.signalsEpoch.get? a = some epoch) : s.setEpoch a epoch = s := by
  rw [Signals.setEpoch, Dict.set_of_get?_eq_some h]

/-- One message keeps the property exactly when it leaves no trace. -/
private theorem noTrace_concat_iff {past : List Message} {m : Message}
    (h : NoTrace ninety sourceTokenMap past) :
    NoTrace ninety sourceTokenMap (past ++ [m])
      ↔ ¬ LeavesTrace ninety (hearAll ninety sourceTokenMap past).signals m := by
  have hconcat : hearAll ninety sourceTokenMap (past ++ [m])
      = hear ninety (hearAll ninety sourceTokenMap past) m := runFrom_concat _ _ _ _
  have hlast : ∀ before m', past ++ [m] = before ++ [m'] → before = past ∧ m' = m := by
    intro before m' heq
    obtain ⟨h1, h2⟩ := List.append_inj' heq rfl
    exact ⟨h1.symm, (List.cons.inj h2).1.symm⟩
  -- with the first two parts at hand the third follows
  have hmk : (∀ a, (hear ninety (hearAll ninety sourceTokenMap past) m).signals.localEpoch a
        = largestEpoch (hear ninety (hearAll ninety sourceTokenMap past) m).accepted a) →
      (∀ e, ((txFilterAndParsing ninety m.1 m.2).run
          (hearAll ninety sourceTokenMap past).signals).1 = .error e →
        (hear ninety (hearAll ninety sourceTokenMap past) m).signals.signalsEpoch
          = (hearAll ninety sourceTokenMap past).signals.signalsEpoch) →
      NoTrace ninety sourceTokenMap (past ++ [m]) := by
    intro hepochs hraised
    rw [← hconcat] at hepochs hraised
    refine ⟨hepochs, ?_, fun m' data epoch hrep hnew ↦ fresh_of_epochs hepochs hrep hnew⟩
    intro before m' e heq herr
    obtain ⟨rfl, rfl⟩ := hlast before m' heq
    exact hraised e herr
  generalize hr : hearAll ninety sourceTokenMap past = r at hmk hconcat ⊢
  have hepochs := hr ▸ h.epochs
  constructor
  · rintro hnt ⟨data, epoch, hrep, hle, hlen, hne⟩
    have hrun : (txFilterAndParsing ninety m.1 m.2).run r.signals
        = (.error .indexError, r.signals.setEpoch m.1.toAddr epoch) := by
      rw [run_txFilterAndParsing, hrep]
      simp only [if_neg (Int.not_lt.mpr hle), medianPrice_eq, if_pos hlen]
      rfl
    have hkept := hnt.raised past m .indexError rfl (by rw [hr, hrun])
    rw [hconcat, hr, hear, hrun] at hkept
    exact hne (hkept ▸ Dict.get?_set_self _ _ _)
  · intro hno
    rcases hear_cases ninety r m with ⟨e, hrep, hrun⟩ | ⟨data, epoch, hrep, h0, hcase⟩
    · refine hmk (fun a ↦ ?_) fun e' _ ↦ ?_
      · simpa only [hear, hrun] using hepochs a
      · simp only [hear, hrun]
    rcases hcase with ⟨hlt, hrun⟩ | ⟨hle, hlen, hrun⟩ | ⟨hle, hlen, price, hrun⟩
    · refine hmk (fun a ↦ ?_) fun e' _ ↦ ?_
      · simpa only [hear, hrun] using hepochs a
      · simp only [hear, hrun]
    · have hsame : r.signals.setEpoch m.1.toAddr epoch = r.signals :=
        set_epoch_of_get? (not_not.mp fun hne ↦ hno ⟨data, epoch, hrep, hle, hlen, hne⟩)
      refine hmk (fun a ↦ ?_) fun e' _ ↦ ?_
      · simpa only [hear, hrun, hsame] using hepochs a
      · simp only [hear, hrun, hsame]
    · refine hmk (fun a ↦ ?_) fun e' herr ↦ ?_
      · simp only [hear, hrun, hrep, localEpoch_setEpoch, largestEpoch_concat]
        by_cases ha : a = m.1.toAddr
        · rw [if_pos ha, if_pos ha, ← hepochs a, ha, max_eq_right hle]
        · rw [if_neg ha, if_neg ha, hepochs a]
      · rw [hrun] at herr
        simp at herr

private theorem noTrace_nil : NoTrace ninety sourceTokenMap [] where
  epochs _ := rfl
  raised before m e heq := by simp at heq
  fresh _ _ _ hrep hnew := fresh_of_epochs (fun _ ↦ rfl) hrep hnew

variable (ninety) (sourceTokenMap)

/-- **Rejected signals and the stored epochs.** At every point of a run the stored epochs are the
largest accepted ones, raising calls have left them alone and newer reports are heard, if and only
if no message of the run was an empty report with a new epoch. -/
theorem noTrace_iff (msgs : List Message) :
    (∀ past, past <+: msgs → NoTrace ninety sourceTokenMap past) ↔
      ∀ past m, past ++ [m] <+: msgs →
        ¬ LeavesTrace ninety (hearAll ninety sourceTokenMap past).signals m :=
  forall_prefix_iff msgs noTrace_nil fun _ _ _ h ↦ noTrace_concat_iff h

/-- A `transmit` call whose report ends behind its context: epoch 5 and no observation. -/
def emptyReport : TxAttributes where
  toAddr := "0x137924d7c36816e0dcaf016eb617cc2c92c05782"
  input := hexBytesHex (transmitFuncSig ++ (natToBytes 32 0 ++ natToBytes 32 5))
  gasPrice := some "0x12a05f200"
  maxFeePerGas := none

private theorem reportOf_emptyReport :
    reportOf exactNinety emptyReport 5000000000 = .ok (natToBytes 32 0 ++ natToBytes 32 5, 5) := by
  have hsignal : signalGasprice emptyReport = .ok 5000000000 := by decide +kernel
  have hin : bytesFromPrefixed emptyReport.input
      = .ok (transmitFuncSig ++ (natToBytes 32 0 ++ natToBytes 32 5)) :=
    bytesFromPrefixed_hexBytesHex _
  rw [reportOf, callDataArgs_of_transmit hin (by decide) hsignal (by decide +kernel), ok_bind,
    signalEpoch_eq]
  decide +kernel

/-- One empty report is rejected and its epoch stored. -/
theorem not_noTrace_emptyReport :
    ¬ ∀ past, past <+: [(emptyReport, 5000000000)] → NoTrace exactNinety ∅ past := by
  intro h
  refine (noTrace_concat_iff noTrace_nil).mp (h _ (List.prefix_refl _)) ?_
  exact ⟨_, 5, reportOf_emptyReport, by decide, by decide, by decide⟩

end Run

end CompoundLiquidation
