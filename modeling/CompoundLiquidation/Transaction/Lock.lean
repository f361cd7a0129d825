import CompoundLiquidation.Python.Run
import CompoundLiquidation.Transaction.Send

/-!
# What the sending lock stops

All three senders open with `if self.lock and len(results) == 0`. The conjunction lets a locked
sender go on with every list that is not empty, and what it returns for is a call that has little
to send anyway. The senders have only this in common, so they are treated as instances of one
description, a `SenderClass`, whose laws say what a call hands over at the two ends: with results
always something, locked and without results nothing.
-/

namespace CompoundLiquidation

open Python

/-- Hand several things over. -/
def Sender.submitAll (handed : List Submission) (s : Sender) : Sender :=
  { s with submitted := s.submitted ++ handed }

@[simp] theorem Sender.submitAll_lock (handed : List Submission) (s : Sender) :
    (s.submitAll handed).lock = s.lock := rfl

@[simp] theorem Sender.submitAll_counter (handed : List Submission) (s : Sender) :
    (s.submitAll handed).counter = s.counter := rfl

@[simp] theorem Sender.submitAll_submitted (handed : List Submission) (s : Sender) :
    (s.submitAll handed).submitted = s.submitted ++ handed := rfl

theorem Sender.submitAll_nil (s : Sender) : s.submitAll [] = s := by
  rw [submitAll, List.append_nil]

theorem Sender.submitAll_append (s : Sender) (l m : List Submission) :
    (s.submitAll l).submitAll m = s.submitAll (l ++ m) := by
  rw [submitAll, submitAll, submitAll, List.append_assoc]

/-- A class of senders: where an object keeps the fields of the base class, and its methods with
their arguments. -/
structure SenderClass (S C U : Type) where
  base : S → Sender
  setBase : Sender → S → S
  results : C → List SendResult
  sendTransactions : C → Proc S Error Unit
  update : U → Proc S Error Unit

/-- What happens to a sender. -/
inductive SenderEvent (C U : Type) where
  | receipts (receipts : List Receipt)
  | send (args : C)
  | update (args : U)

namespace SenderClass

variable {S C U : Type}

/-- One call. An exception leaves the state it has reached. -/
def step (K : SenderClass S C U) (s : S) : SenderEvent C U → S
  | .receipts receipts => ((Proc.zoom K.base K.setBase (processReceipts receipts)).run s).2
  | .send args => ((K.sendTransactions args).run s).2
  | .update args => ((K.update args).run s).2

/-- The fields of the base class after a run. -/
def after (K : SenderClass S C U) (s : S) (events : List (SenderEvent C U)) : Sender :=
  K.base (runFrom K.step s events)

/-- From the moment the lock is set nothing is handed to a submission step. -/
def SilentOnceLocked (K : SenderClass S C U) (s : S) (events : List (SenderEvent C U)) : Prop :=
  ∀ past later e, past ++ later ++ [e] <+: events → (K.after s past).lock →
    (K.after s (past ++ later ++ [e])).submitted = (K.after s (past ++ later)).submitted

/-- All calls that reach a locked sender have an empty result list. -/
def EmptyWhenLocked (K : SenderClass S C U) (s : S) (events : List (SenderEvent C U)) : Prop :=
  ∀ past args, past ++ [.send args] <+: events → (K.after s past).lock → K.results args = []

/-- What the three classes have in common. A call leaves the lock and the counter alone and hands
some submissions over; with results there is at least one, locked and without results none. -/
structure Lawful (K : SenderClass S C U) : Prop where
  base_setBase : ∀ b s, K.base (K.setBase b s) = b
  send : ∀ args s, ∃ handed, K.base ((K.sendTransactions args).run s).2 = (K.base s).submitAll
      handed
    ∧ (K.results args ≠ [] → handed ≠ []) ∧ ((K.base s).lock → K.results args = [] → handed = [])
  update : ∀ args s, K.base ((K.update args).run s).2 = K.base s

end SenderClass

/-! ## Receipts -/

/-- Count one more failure. -/
private def countFailure (s : Sender) : Sender := { s with counter := s.counter + 1 }

/-- Lock at five failures. -/
private def checkCounter (s : Sender) : Sender :=
  if s.counter ≥ 5 then { s with lock := true } else s

/-- A receipt is counted and the counter checked, unless its status cannot be read. -/
private theorem state_processReceipt (receipt : Receipt) (s : Sender) :
    ((processReceipt receipt).run s).2 = match receipt.status.bind int16 with
      | none => s
      | some value => checkCounter (if value = 0 then countFailure s else s) := by
  rw [processReceipt]
  rcases hstatus : receipt.status with _ | status
  · rfl
  · rcases hvalue : int16 status with _ | value
    · rw [Option.bind_some, hvalue, Proc.run_bind, Proc.run_ofOption_some]
      simp only [hvalue, Proc.run_bind, Proc.run_ofOption_none]
    · rw [Option.bind_some, hvalue, Proc.run_bind, Proc.run_ofOption_some]
      simp only [hvalue, Proc.run_bind, Proc.run_ofOption_some]
      by_cases hzero : value = 0
      · simp only [if_pos hzero, Proc.run_bind, Proc.run_modify, Proc.run_read, checkCounter,
          countFailure]
        split_ifs
        · rfl
        · rfl
      · simp only [if_neg hzero, Proc.run_bind, Proc.run_read, checkCounter]
        split_ifs
        · rfl
        · rfl

/-- Reading receipts hands nothing over, never unlocks, and keeps the lock and the counter in
step. -/
structure ReceiptsRead (s t : Sender) : Prop where
  submitted : t.submitted = s.submitted
  lock : s.lock → t.lock
  counter : (s.lock ↔ 5 ≤ s.counter) → (t.lock ↔ 5 ≤ t.counter)

private theorem ReceiptsRead.refl (s : Sender) : ReceiptsRead s s := ⟨rfl, fun h ↦ h, fun h ↦ h⟩

private theorem ReceiptsRead.trans (s t u : Sender) (h : ReceiptsRead s t) (h' : ReceiptsRead t u) :
    ReceiptsRead s u :=
  ⟨h'.submitted.trans h.submitted, h'.lock ∘ h.lock, h'.counter ∘ h.counter⟩

private theorem receiptsRead_checkCounter {s t : Sender} (hsub : t.submitted = s.submitted)
    (hlock : t.lock = s.lock) (hcounter : s.counter ≤ t.counter) :
    ReceiptsRead s (checkCounter t) := by
  rw [checkCounter]
  by_cases hfive : t.counter ≥ 5
  · rw [if_pos hfive]
    exact ⟨hsub, fun _ ↦ rfl, fun _ ↦ iff_of_true rfl hfive⟩
  · rw [if_neg hfive]
    refine ⟨hsub, fun h ↦ hlock.trans h, fun h ↦ iff_of_false ?_ hfive⟩
    rw [hlock, h]
    omega

theorem keeps_processReceipts (receipts : List Receipt) :
    Proc.Keeps ReceiptsRead (processReceipts receipts) := by
  refine Proc.keeps_forEach ReceiptsRead.refl ReceiptsRead.trans receipts fun receipt _ s ↦ ?_
  rw [state_processReceipt]
  rcases receipt.status.bind int16 with _ | value
  · exact ReceiptsRead.refl s
  · by_cases hzero : value = 0
    · simp only [if_pos hzero]
      exact receiptsRead_checkCounter rfl rfl (Int.le_add_one le_rfl)
    · simp only [if_neg hzero]
      exact receiptsRead_checkCounter rfl rfl le_rfl

/-! ## Runs of any class -/

namespace SenderClass

variable {S C U : Type} {K : SenderClass S C U}

theorem after_concat (K : SenderClass S C U) (s : S) (past : List (SenderEvent C U))
    (e : SenderEvent C U) :
    K.after s (past ++ [e]) = K.base (K.step (runFrom K.step s past) e) := by
  rw [after, runFrom_concat]

/-- What one event does to the fields of the base class. -/
private theorem base_step (hK : K.Lawful) (s : S) (e : SenderEvent C U) :
    ReceiptsRead (K.base s) (K.base (K.step s e)) ∨
      ∃ args handed, e = .send args ∧ K.base (K.step s e) = (K.base s).submitAll handed ∧
        (K.results args ≠ [] → handed ≠ []) ∧
        ((K.base s).lock → K.results args = [] → handed = []) := by
  rcases e with receipts | args | args
  · refine Or.inl ?_
    rw [step, Proc.run_zoom, hK.base_setBase]
    exact keeps_processReceipts receipts (K.base s)
  · obtain ⟨handed, hbase, hsome, hnone⟩ := hK.send args s
    exact Or.inr ⟨args, handed, rfl, hbase, hsome, hnone⟩
  · refine Or.inl ?_
    rw [step, hK.update]
    exact ReceiptsRead.refl _

/-- The lock is never taken back. -/
theorem lock_after_append (hK : K.Lawful) (s : S) (past later : List (SenderEvent C U))
    (h : (K.after s past).lock) : (K.after s (past ++ later)).lock := by
  induction later using List.reverseRecOn with
  | nil => rwa [List.append_nil]
  | append_singleton later e ih =>
    rw [← List.append_assoc, after_concat]
    rcases base_step hK (runFrom K.step s (past ++ later)) e with hread | ⟨_, _, _, hbase, -⟩
    · exact hread.lock ih
    · rw [hbase, Sender.submitAll_lock]
      exact ih

/-- A new sender is locked exactly when five receipts have reported a failure. -/
theorem lock_after_iff (hK : K.Lawful) {s : S} (hs : K.base s = Sender.init)
    (events : List (SenderEvent C U)) :
    (K.after s events).lock ↔ 5 ≤ (K.after s events).counter := by
  induction events using List.reverseRecOn with
  | nil =>
    rw [after, runFrom_nil, hs]
    decide
  | append_singleton events e ih =>
    rw [after_concat]
    rcases base_step hK (runFrom K.step s events) e with hread | ⟨_, _, _, hbase, -⟩
    · exact hread.counter ih
    · rw [hbase, Sender.submitAll_lock, Sender.submitAll_counter]
      exact ih

/-- A locked sender is silent exactly as long as it is called without results. -/
theorem silentOnceLocked_iff (hK : K.Lawful) (s : S) (events : List (SenderEvent C U)) :
    K.SilentOnceLocked s events ↔ K.EmptyWhenLocked s events := by
  constructor
  · intro hsilent past args hpre hlock
    by_contra hresults
    obtain ⟨handed, hbase, hsome, -⟩ := hK.send args (runFrom K.step s past)
    have hsame := hsilent past [] (.send args) (by rwa [List.append_nil]) hlock
    rw [List.append_nil, after_concat, step, hbase, Sender.submitAll_submitted, after] at hsame
    exact hsome hresults (List.append_right_eq_self.mp hsame)
  · intro hempty past later e hpre hlock
    rw [after_concat]
    rcases base_step hK (runFrom K.step s (past ++ later)) e with
      hread | ⟨args, handed, rfl, hbase, -, hnone⟩
    · exact hread.submitted
    · have hlater : (K.after s (past ++ later)).lock := lock_after_append hK s past later hlock
      rw [hbase, hnone hlater (hempty (past ++ later) args hpre hlater), Sender.submitAll_nil]
      rfl

end SenderClass

/-! ## The three classes -/

/-- `WsSender` has no `update`. -/
def wsSender : SenderClass Sender (List SendResult) Empty where
  base s := s
  setBase b _ := b
  results results := results
  sendTransactions := WsSender.sendTransactions
  update := Empty.elim

def bnB48Sender : SenderClass BnB48Sender SendArgs (ℤ × ℤ × ℤ) where
  base := BnB48Sender.toSender
  setBase b s := { s with toSender := b }
  results := SendArgs.results
  sendTransactions := BnB48Sender.sendTransactions
  update args := BnB48Sender.update args.1 args.2.1 args.2.2

/-- The `update` of `FlashSender` is `pass`. -/
def flashSender : SenderClass Sender SendArgs Unit where
  base s := s
  setBase b _ := b
  results := SendArgs.results
  sendTransactions := FlashSender.sendTransactions
  update _ := pure ()

/-- A loop that hands over one submission for each result. -/
private theorem state_forEach_submit (f : SendResult → Submission) (results : List SendResult) :
    ∀ s : Sender, ((Proc.forEach results fun res ↦
      (Proc.modify (Sender.submit (f res)) : Proc Sender Error Unit)).run s).2
        = s.submitAll (results.map f) := by
  induction results with
  | nil => exact fun s ↦ s.submitAll_nil.symm
  | cons res results ih =>
    intro s
    rw [Proc.forEach_cons, Proc.run_bind, Proc.run_modify]
    refine (ih (s.submit (f res))).trans ?_
    rw [Sender.submit, ← Sender.submitAll, Sender.submitAll_append, List.map_cons,
      List.singleton_append]

/-- Behind the guard such a loop does what the law for `send` asks. -/
private theorem send_of_loop (f : SendResult → Submission) (results : List SendResult)
    (s : Sender) : ∃ handed, (((do
      let s ← Proc.read
      if s.lock ∧ results.length = 0 then return
      Proc.forEach results fun res ↦ Proc.modify (Sender.submit (f res)) :
        Proc Sender Error Unit)).run s).2 = s.submitAll handed ∧
      (results ≠ [] → handed ≠ []) ∧ (s.lock → results = [] → handed = []) := by
  refine ⟨results.map f, ?_, ?_, ?_⟩
  · rw [Proc.run_bind, Proc.run_read]
    by_cases hguard : s.lock ∧ results.length = 0
    · simp only [if_pos hguard, Proc.run_pure]
      rw [List.length_eq_zero_iff.mp hguard.2, List.map_nil, Sender.submitAll_nil]
    · simp only [if_neg hguard]
      exact state_forEach_submit f results s
  · exact fun h hnil ↦ h (List.map_eq_nil_iff.mp hnil)
  · exact fun _ h ↦ h ▸ List.map_nil

theorem lawful_wsSender : wsSender.Lawful where
  base_setBase _ _ := rfl
  send results s := send_of_loop (fun res ↦ .sendTxTask res.signedTxRaw) results s
  update args := args.elim

theorem lawful_flashSender : flashSender.Lawful where
  base_setBase _ _ := rfl
  send args s := send_of_loop
    (fun res ↦ .simulate (flashBundle args.signalRecv res) (toString args.expire)) args.results s
  update _ _ := rfl

/-! ### BnB48Sender -/

/-- A step that hands something over and leaves the lock and the counter alone. -/
private def HandsOver (s t : BnB48Sender) : Prop :=
  ∃ handed, t.toSender = s.toSender.submitAll handed

/-- A step that hands over at least one thing. -/
private def HandsSome (s t : BnB48Sender) : Prop :=
  ∃ handed, t.toSender = s.toSender.submitAll handed ∧ handed ≠ []

private theorem handsOver_of_eq {s t : BnB48Sender} (h : t.toSender = s.toSender) :
    HandsOver s t := ⟨[], by rw [h, Sender.submitAll_nil]⟩

private theorem HandsOver.trans (s t u : BnB48Sender) (h : HandsOver s t) (h' : HandsOver t u) :
    HandsOver s u := by
  obtain ⟨l, hl⟩ := h
  obtain ⟨m, hm⟩ := h'
  exact ⟨l ++ m, by rw [hm, hl, Sender.submitAll_append]⟩

private theorem HandsSome.handsOver (s t : BnB48Sender) (h : HandsSome s t) : HandsOver s t := by
  obtain ⟨l, hl, -⟩ := h
  exact ⟨l, hl⟩

private theorem HandsSome.trans (s t u : BnB48Sender) (h : HandsSome s t) (h' : HandsOver t u) :
    HandsSome s u := by
  obtain ⟨l, hl, hne⟩ := h
  obtain ⟨m, hm⟩ := h'
  exact ⟨l ++ m, by rw [hm, hl, Sender.submitAll_append], List.append_ne_nil_of_left_ne_nil hne m⟩

private theorem HandsOver.refl (s : BnB48Sender) : HandsOver s s := handsOver_of_eq rfl

private theorem keeps_nextNonce :
    Proc.Keeps HandsOver (Proc.modify BnB48Sender.nextNonce : Proc BnB48Sender Error Unit) :=
  Proc.keeps_modify fun _ ↦ handsOver_of_eq rfl

/-- Whatever becomes of it, calling `x` is handing the transactions over. -/
private theorem keeps_x (profits : ℚ) (txs : List BundleTx) (expire : ℤ) :
    Proc.Keeps HandsSome (BnB48Sender.x profits txs expire) := by
  have hsubmit : Proc.Keeps HandsSome (Proc.modify (BnB48Sender.onSender
      (Sender.submit (.x profits txs expire))) : Proc BnB48Sender Error Unit) :=
    Proc.keeps_modify fun _ ↦ ⟨[.x profits txs expire], rfl, List.cons_ne_nil _ _⟩
  refine Proc.keeps_then HandsSome.trans (fun _ _ h ↦ h) hsubmit fun _ ↦ ?_
  refine Proc.keeps_bind HandsOver.trans (Proc.keeps_read HandsOver.refl) fun s ↦ ?_
  refine Proc.keeps_ite (fun _ ↦ ?_) fun _ ↦ ?_
  · exact fun t ↦ HandsOver.refl t
  · refine Proc.keeps_ite (fun _ ↦ Proc.keeps_pure HandsOver.refl ()) fun _ ↦ ?_
    exact Proc.keeps_bind HandsOver.trans keeps_nextNonce fun _ ↦
      Proc.keeps_raise HandsOver.refl _

/-- One round of the second loop. -/
private theorem keeps_round (expire : ℤ) (res : ℚ × Bytes) :
    Proc.Keeps HandsSome (do
      BnB48Sender.x res.1 [.bytes res.2] expire
      Proc.modify BnB48Sender.nextNonce) :=
  Proc.keeps_then HandsSome.trans (fun _ _ h ↦ h) (keeps_x _ _ _) fun _ ↦ keeps_nextNonce

private theorem foldl_dedupResult_ne_nil (results : List SendResult) :
    ∀ {acc : Dict String ℤ × List (ℚ × Bytes)}, acc.2 ≠ [] →
      (results.foldl dedupResult acc).2 ≠ [] := by
  induction results with
  | nil => exact fun hacc ↦ hacc
  | cons res results ih =>
    intro acc hacc
    refine ih ?_
    rw [dedupResult]
    rcases acc.1.get? res.index with _ | seen
    · exact List.append_ne_nil_of_left_ne_nil hacc _
    · exact hacc

private theorem dedupResults_ne_nil {results : List SendResult} (h : results ≠ []) :
    dedupResults results ≠ [] := by
  obtain ⟨res, results, rfl⟩ := List.exists_cons_of_ne_nil h
  refine foldl_dedupResult_ne_nil results ?_
  have hunseen : (∅ : Dict String ℤ).get? res.index = none := Dict.get?_empty _
  rw [dedupResult]
  simp only [hunseen]
  exact List.cons_ne_nil _ _

private theorem best_ne_nil {results : List SendResult} (h : results ≠ []) :
    (sortedTxsLiq results).take 2 ≠ [] := by
  have hsorted : sortedTxsLiq results ≠ [] := by
    intro hnil
    refine dedupResults_ne_nil h ?_
    have hperm := List.perm_insertionSort (fun a b ↦ txGe a b) (dedupResults results)
    rw [← sortedTxsLiq, hnil] at hperm
    exact hperm.nil_eq.symm
  obtain ⟨res, tail, hcons⟩ := List.exists_cons_of_ne_nil hsorted
  rw [hcons, List.take_succ_cons]
  exact List.cons_ne_nil _ _

/-- Past the guard a call hands something over as soon as it has a result. -/
private theorem keeps_sendTransactions (args : SendArgs) (s : BnB48Sender)
    (hguard : ¬ (s.lock ∧ args.results.length = 0)) :
    HandsOver s ((BnB48Sender.sendTransactions args).run s).2 ∧
      (args.results ≠ [] → HandsSome s ((BnB48Sender.sendTransactions args).run s).2) := by
  have htail : Proc.Keeps HandsOver (Proc.modify BnB48Sender.nextNonce :
      Proc BnB48Sender Error Unit) := keeps_nextNonce
  have hloop : ∀ best : List (ℚ × Bytes), Proc.Keeps HandsOver (do
      Proc.forEach best fun res ↦ do
        BnB48Sender.x res.1 [.bytes res.2] (args.expire + 60)
        Proc.modify BnB48Sender.nextNonce
      Proc.modify BnB48Sender.nextNonce) := by
    intro best
    refine Proc.keeps_bind HandsOver.trans ?_ fun _ ↦ htail
    refine Proc.keeps_forEach HandsOver.refl HandsOver.trans best fun res _ t ↦ ?_
    exact HandsSome.handsOver _ _ (keeps_round _ res t)
  rw [BnB48Sender.sendTransactions, Proc.run_bind, Proc.run_read]
  simp only [if_neg hguard]
  rcases args.signalRecv with _ | signalRecv
  · refine ⟨hloop _ s, fun hresults ↦ ?_⟩
    -- without a signal it is the first round of the loop that hands something over
    obtain ⟨res, tail, hbest⟩ := List.exists_cons_of_ne_nil (best_ne_nil hresults)
    simp only [hbest, Proc.forEach_cons]
    refine Proc.keeps_then HandsSome.trans (fun _ _ h ↦ h) (Proc.keeps_then HandsSome.trans
      (fun _ _ h ↦ h) (keeps_round _ res) fun _ ↦ ?_) (fun _ ↦ htail) s
    refine Proc.keeps_forEach HandsOver.refl HandsOver.trans tail fun res _ t ↦ ?_
    exact HandsSome.handsOver _ _ (keeps_round _ res t)
  · have hsome := Proc.keeps_then HandsSome.trans (fun _ _ h ↦ h)
      (keeps_x (bundleProfits ((sortedTxsLiq args.results).take 2))
        (.text signalRecv.rawTx :: ((sortedTxsLiq args.results).take 2).map
          fun res ↦ .text (hexBytesHex res.2)) (args.expire + 6))
      (fun _ ↦ hloop ((sortedTxsLiq args.results).take 2)) s
    exact ⟨HandsSome.handsOver _ _ hsome, fun _ ↦ hsome⟩

theorem lawful_bnB48Sender : bnB48Sender.Lawful where
  base_setBase _ _ := rfl
  send args s := by
    by_cases hguard : s.lock ∧ args.results.length = 0
    · refine ⟨[], ?_, fun h ↦ absurd (List.length_eq_zero_iff.mp hguard.2) h, fun _ _ ↦ rfl⟩
      rw [Sender.submitAll_nil]
      simp only [bnB48Sender, BnB48Sender.sendTransactions, Proc.run_bind, Proc.run_read,
        if_pos hguard, Proc.run_pure]
    · obtain ⟨⟨handed, hbase⟩, hsome⟩ := keeps_sendTransactions args s hguard
      by_cases hresults : args.results = []
      · refine ⟨handed, hbase, fun h ↦ absurd hresults h, fun hlock _ ↦ ?_⟩
        exact absurd ⟨hlock, List.length_eq_zero_iff.mpr hresults⟩ hguard
      · obtain ⟨handed', hbase', hne⟩ := hsome hresults
        exact ⟨handed', hbase', fun _ ↦ hne, fun _ h ↦ absurd h hresults⟩
  update _ _ := rfl

/-- **The circuit breaker.** For each of the senders and every run: from the moment the lock is
set nothing is handed to a submission step, if and only if every call that reaches the locked
sender has an empty result list. -/
theorem circuitBreaker_iff (ws flash : Sender) (bnB48 : BnB48Sender)
    (wsEvents : List (SenderEvent (List SendResult) Empty))
    (bnB48Events : List (SenderEvent SendArgs (ℤ × ℤ × ℤ)))
    (flashEvents : List (SenderEvent SendArgs Unit)) :
    (wsSender.SilentOnceLocked ws wsEvents ↔ wsSender.EmptyWhenLocked ws wsEvents) ∧
    (bnB48Sender.SilentOnceLocked bnB48 bnB48Events ↔
      bnB48Sender.EmptyWhenLocked bnB48 bnB48Events) ∧
    (flashSender.SilentOnceLocked flash flashEvents ↔
      flashSender.EmptyWhenLocked flash flashEvents) :=
  ⟨SenderClass.silentOnceLocked_iff lawful_wsSender ws wsEvents,
    SenderClass.silentOnceLocked_iff lawful_bnB48Sender bnB48 bnB48Events,
    SenderClass.silentOnceLocked_iff lawful_flashSender flash flashEvents⟩

/-- Five failed receipts. -/
def failedReceipts : List Receipt := List.replicate 5 ⟨some "0x0"⟩

/-- A liquidation with a profit. -/
def someLiquidation : SendResult := ⟨"a", [1, 2, 3], 10⟩

/-- After five failed receipts the senders still hand over a liquidation. -/
theorem sends_once_locked :
    ¬ wsSender.SilentOnceLocked Sender.init
        [.receipts failedReceipts, .send [someLiquidation]] ∧
    ¬ bnB48Sender.SilentOnceLocked (BnB48Sender.init 0 (10 ^ 18) 3 (300 * 10 ^ 18))
        [.receipts failedReceipts, .send ⟨[someLiquidation], 100, none⟩] ∧
    ¬ flashSender.SilentOnceLocked Sender.init
        [.receipts failedReceipts, .send ⟨[someLiquidation], 100, none⟩] := by
  refine ⟨fun h ↦ ?_, fun h ↦ ?_, fun h ↦ ?_⟩
  · have hempty := (SenderClass.silentOnceLocked_iff lawful_wsSender _ _).mp h
      [.receipts failedReceipts] [someLiquidation] (List.prefix_refl _) (by decide +kernel)
    exact List.cons_ne_nil _ _ hempty
  · have hempty := (SenderClass.silentOnceLocked_iff lawful_bnB48Sender _ _).mp h
      [.receipts failedReceipts] ⟨[someLiquidation], 100, none⟩ (List.prefix_refl _)
      (by decide +kernel)
    exact List.cons_ne_nil _ _ hempty
  · have hempty := (SenderClass.silentOnceLocked_iff lawful_flashSender _ _).mp h
      [.receipts failedReceipts] ⟨[someLiquidation], 100, none⟩ (List.prefix_refl _)
      (by decide +kernel)
    exact List.cons_ne_nil _ _ hempty

end CompoundLiquidation
