import CompoundLiquidation.Liquidation.Gate

/-!
# Nonces in bundles

The transactions of a signal are signed as their users are found, each with the next nonce of the
account. `BnB48Sender.send_transactions` sorts them by profit and keeps the two best. A bundle can
only be executed if the nonces in it go up one by one from that of the account.

They do as long as the order of profits is the order in which the users were found. And the sender
also passes on the second transaction alone, with the nonce behind the right one, unless a call of
`x` before that has raised. Past its gas price check, `x` always raises.
-/

namespace CompoundLiquidation

open Python

/-! ## Nonces of signed transactions -/

/-- What is behind the head of a list in RLP. -/
def rlpItems : Bytes → Option Bytes
  | [] => none
  | head :: rest =>
    if head < 0xc0 then none
    else if head ≤ 0xf7 then some rest
    else some (rest.drop (head.toNat - 0xf7))

/-- The number in front of the items, and the items behind it. -/
def rlpNumber : Bytes → Option (ℕ × Bytes)
  | [] => none
  | head :: rest =>
    if head < 0x80 then some (head.toNat, rest)
    else if head ≤ 0xb7 then
      some (natOfBytes (rest.take (head.toNat - 0x80)), rest.drop (head.toNat - 0x80))
    else none

/-- The nonce of a signed transaction. It comes first, but for a transaction of type 2, where the
chain comes first. -/
def nonceOf (signedTxRaw : Bytes) : Option ℤ := do
  if signedTxRaw.head? = some 0x02 then
    let items ← rlpItems signedTxRaw.tail
    let (_, items) ← rlpNumber items
    let (nonce, _) ← rlpNumber items
    return nonce
  else
    let items ← rlpItems signedTxRaw
    let (nonce, _) ← rlpNumber items
    return nonce

example : nonceOf testSignedTx = some 7 := by decide

example : nonceOf testSignedTx' = some 8 := by decide

/-- What an account signs carries the nonce it was given. -/
def CarriesNonce (signTransaction : String → TxParams → Except Error Bytes) : Prop :=
  ∀ key tx signedTxRaw, signTransaction key tx = .ok signedTxRaw →
    nonceOf signedTxRaw = some tx.nonce

/-! ## The tasks of a list of users -/

/-- `liquidation_start` for one user after the other. -/
def startAll (env : LiqEnv) : List LiqCall → Proc Liquidator Error (List SendResult)
  | [] => return []
  | call :: calls => do
    let tasks ← call.start env
    let rest ← startAll env calls
    return tasks ++ rest

/-- The nonces of the tasks go up one by one from `n`. -/
def Numbered (n : ℤ) : List SendResult → Prop
  | [] => True
  | task :: tasks => nonceOf task.signedTxRaw = some n ∧ Numbered (n + 1) tasks

section Tasks

variable {env : LiqEnv}

/-- The turn of one user is a call of `liquidation_start` or nothing. -/
theorem signalBody_ok {L : Type} {env : SignalEnv L} {res : SimResult} {s s' : SignalState}
    {tasks : List SendResult} (h : (signalBody env res).run s = (.ok tasks, s')) :
    (tasks = [] ∧ s'.toLiquidator = s.toLiquidator) ∨
      ∃ call : LiqCall,
        (call.start env.toLiqEnv).run s.toLiquidator = (.ok tasks, s'.toLiquidator) := by
  obtain ⟨call, s₁, hcall, hstart⟩ := Proc.run_bind_ok h
  obtain ⟨-, rfl⟩ := Prod.mk.inj hcall
  rcases call with _ | call
  · obtain ⟨htasks, rfl⟩ := Prod.mk.inj hstart
    exact .inl ⟨(Except.ok.inj htasks).symm, rfl⟩
  · obtain ⟨htasks, rfl⟩ := Prod.mk.inj hstart
    exact .inr ⟨call, Prod.ext htasks rfl⟩

/-- The tasks of `signal_simulate_health_factor` are those of the users it starts. -/
theorem startAll_of_signalSimulateHealthFactor {L : Type} {env : SignalEnv L}
    (results : List SimResult) {s s' : SignalState} {tasks : List SendResult}
    (h : (signalSimulateHealthFactor env results).run s = (.ok tasks, s')) :
    ∃ calls, (startAll env.toLiqEnv calls).run s.toLiquidator = (.ok tasks, s'.toLiquidator) := by
  induction results generalizing s tasks with
  | nil =>
    obtain ⟨htasks, rfl⟩ := Prod.mk.inj h
    exact ⟨[], Prod.ext htasks rfl⟩
  | cons res results ih =>
    obtain ⟨first, s₁, hbody, hothers⟩ := Proc.run_bind_ok h
    obtain ⟨rest, s₂, hrest, hreturn⟩ := Proc.run_bind_ok hothers
    obtain ⟨htasks, rfl⟩ := Prod.mk.inj hreturn
    obtain ⟨calls, hcalls⟩ := ih hrest
    rw [← htasks]
    -- a user who is skipped leaves the accounts as they are
    rcases signalBody_ok hbody with ⟨rfl, hsame⟩ | ⟨call, hstart⟩
    · exact ⟨calls, hsame ▸ hcalls⟩
    · refine ⟨call :: calls, ?_⟩
      rw [startAll, Proc.run_bind_of_ok hstart, Proc.run_bind_of_ok hcalls]
      rfl

theorem accounts_isUserLiquidated (user debt : String) (debtToCover : ℤ) (s : Liquidator) :
    ((isUserLiquidated user debt debtToCover).run s).2.accounts = s.accounts := by
  rw [run_isUserLiquidated]
  rcases s.record? user debt with _ | ⟨prevDebtToCover, prevIndex⟩
  · rfl
  · simp only []
    rcases sameDebt debtToCover prevDebtToCover with e | _ | _
    · rfl
    · rfl
    · rfl

/-- A call with one account signs one transaction or none. -/
theorem LiqCall.start_singleton (hsign : CarriesNonce env.signTransaction) {call : LiqCall}
    {acc : AccCompound} {s s' : Liquidator} {tasks : List SendResult}
    (haccounts : s.accounts = [acc]) (h : (call.start env).run s = (.ok tasks, s')) :
    (tasks = [] ∧ s'.accounts = [acc]) ∨
      ∃ task, tasks = [task] ∧ nonceOf task.signedTxRaw = some acc.nonce ∧
        ∃ next, s'.accounts = [next] ∧ next.nonce = acc.nonce + 1 := by
  have hsame := accounts_isUserLiquidated call.usr call.liqPair.debtCtoken
    call.liqPair.repayAmount s
  rw [call.run_start] at h
  rcases hliquidated : (isUserLiquidated call.usr call.liqPair.debtCtoken
    call.liqPair.repayAmount).run s with ⟨e | _ | _, s₁⟩
  · rw [hliquidated] at h
    cases h
  · simp only [hliquidated] at h hsame
    rcases htransaction : call.transaction env with e | _ | ⟨tx, profit⟩
    · rw [htransaction] at h
      cases h
    -- the profit is below the limit, and nothing is signed
    · rw [htransaction] at h
      obtain ⟨htasks, rfl⟩ := Prod.mk.inj h
      exact .inl ⟨(Except.ok.inj htasks).symm, hsame.trans haccounts⟩
    · simp only [htransaction, hsame, haccounts, signSendingTxToTasks] at h
      rcases hsigned : env.signTransaction acc.key { tx with nonce := acc.nonce } with e | raw
      · simp only [hsigned] at h
        cases h
      · simp only [hsigned] at h
        obtain ⟨htasks, rfl⟩ := Prod.mk.inj h
        exact .inr ⟨_, (Except.ok.inj htasks).symm, hsign _ _ _ hsigned, _, rfl, rfl⟩
  -- the debt has been liquidated before
  · simp only [hliquidated] at h hsame
    obtain ⟨htasks, rfl⟩ := Prod.mk.inj h
    exact .inl ⟨(Except.ok.inj htasks).symm, hsame.trans haccounts⟩

/-- The nonces are used one after the other. -/
theorem numbered_startAll (hsign : CarriesNonce env.signTransaction) (calls : List LiqCall) :
    ∀ {acc : AccCompound} {s s' : Liquidator} {tasks : List SendResult}, s.accounts = [acc] →
      (startAll env calls).run s = (.ok tasks, s') → Numbered acc.nonce tasks := by
  induction calls with
  | nil =>
    intro acc s s' tasks _ h
    rw [← Except.ok.inj (Prod.mk.inj h).1]
    trivial
  | cons call calls ih =>
    intro acc s s' tasks haccounts h
    obtain ⟨first, s₁, hstart, hothers⟩ := Proc.run_bind_ok h
    obtain ⟨rest, s₂, hrest, hreturn⟩ := Proc.run_bind_ok hothers
    rw [← Except.ok.inj (Prod.mk.inj hreturn).1]
    rcases call.start_singleton hsign haccounts hstart with
      ⟨rfl, hsame⟩ | ⟨task, rfl, hnonce, next, hnext, hincreased⟩
    · exact ih hsame hrest
    · exact ⟨hnonce, hincreased ▸ ih hnext hrest⟩

/-- On BSC there are no tasks. -/
theorem startAll_of_bsc (hchecks : ChecksReceiver env.signTransaction) (hnet : env.net = .bsc)
    (calls : List LiqCall) : ∀ {s s' : Liquidator} {tasks : List SendResult},
      (startAll env calls).run s = (.ok tasks, s') → tasks = [] := by
  induction calls with
  | nil =>
    intro s s' tasks h
    exact (Except.ok.inj (Prod.mk.inj h).1).symm
  | cons call calls ih =>
    intro s s' tasks h
    obtain ⟨first, s₁, hstart, hothers⟩ := Proc.run_bind_ok h
    obtain ⟨rest, s₂, hrest, hreturn⟩ := Proc.run_bind_ok hothers
    have hfirst : first = [] := by
      by_contra hsome
      exact call.not_returnsTasks_of_bsc hchecks hnet s ⟨first, congrArg Prod.fst hstart, hsome⟩
    rw [← Except.ok.inj (Prod.mk.inj hreturn).1, hfirst, ih hrest]
    rfl

end Tasks

/-! ## What is passed to `x` -/

/-- The nonce of a transaction in a bundle. -/
def BundleTx.nonce? : BundleTx → Option ℤ
  | .text hex => (bytesFromPrefixed hex).toOption.bind nonceOf
  | .bytes raw => nonceOf raw

/-- The liquidation transactions of a bundle, behind the text of the signal if there is one. -/
def liquidationTxs : List BundleTx → List BundleTx
  | .text _ :: txs => txs
  | txs => txs

/-- The nonces go up one by one from `n`. -/
def Consecutive (n : ℤ) : List BundleTx → Prop
  | [] => True
  | tx :: txs => tx.nonce? = some n ∧ Consecutive (n + 1) txs

/-- Everything passed to `x` can be executed at nonce `n`. -/
def AllExecutable (n : ℤ) (passed : List Submission) : Prop :=
  ∀ profits txs expire, .x profits txs expire ∈ passed → Consecutive n (liquidationTxs txs)

namespace BnB48Sender

/-- The calls of submission steps a call of `send_transactions` makes. -/
def passed (s : BnB48Sender) (args : SendArgs) : List Submission :=
  ((sendTransactions args).run s).2.submitted.drop s.submitted.length

/-- The bid for these profits is below the gas price, and `x` returns. -/
def Underbids (s : BnB48Sender) (profits : ℚ) : Prop :=
  s.bnbPrice ≠ 0 ∧ s.mevGasPrice profits < s.bnbGasPrice

instance (s : BnB48Sender) (profits : ℚ) : Decidable (s.Underbids profits) :=
  inferInstanceAs (Decidable (_ ∧ _))

/-- The calls of the loop over the best transactions. -/
def singles (s : BnB48Sender) (expire : ℤ) : List (ℚ × Bytes) → List Submission
  | [] => []
  | res :: best =>
    .x res.1 [.bytes res.2] expire :: if s.Underbids res.1 then singles s expire best else []

end BnB48Sender

section Passed

variable {s : BnB48Sender}

/-- `x` returns when it is underbidden. -/
theorem run_x_of_underbids {profits : ℚ} (h : s.Underbids profits) (txs : List BundleTx)
    (expire : ℤ) : (BnB48Sender.x profits txs expire).run s
      = (.ok (), s.onSender (Sender.submit (.x profits txs expire))) := by
  have hprice : (s.onSender (Sender.submit (.x profits txs expire))).bnbPrice ≠ 0 := h.1
  have hlow : (s.onSender (Sender.submit (.x profits txs expire))).mevGasPrice profits
      < (s.onSender (Sender.submit (.x profits txs expire))).bnbGasPrice := h.2
  rw [BnB48Sender.x, Proc.run_bind, Proc.run_modify]
  simp only [Proc.run_bind, Proc.run_read, if_neg hprice, if_pos hlow]
  rfl

/-- Without results the signal is sent alone. -/
theorem run_sendTransactions_of_nil (hfree : s.lock = false)
    (hunder : s.Underbids 0) (expire : ℤ) (signalRecv : SignalRecv) :
    (BnB48Sender.sendTransactions ⟨[], expire, some signalRecv⟩).run s = (.ok (),
      (s.onSender (Sender.submit (.x 0 [.text signalRecv.rawTx] (expire + 6)))).nextNonce) := by
  have hopen : ¬ (s.lock ∧ ([] : List SendResult).length = 0) := by
    rw [hfree]
    exact fun h ↦ absurd h.1 Bool.false_ne_true
  have hbundle : BnB48Sender.sendBundle signalRecv expire []
      = BnB48Sender.x 0 [.text signalRecv.rawTx] (expire + 6) := rfl
  have hbest : (sortedTxsLiq []).take 2 = [] := rfl
  rw [BnB48Sender.sendTransactions, Proc.run_bind_of_ok (Proc.run_read _)]
  dsimp only
  rw [if_neg hopen, hbest, hbundle, Proc.run_bind_of_ok (run_x_of_underbids hunder _ _)]
  rfl

/-- And raises otherwise. -/
theorem run_x_of_not_underbids {profits : ℚ} (h : ¬ s.Underbids profits) (txs : List BundleTx)
    (expire : ℤ) : ∃ e s', (BnB48Sender.x profits txs expire).run s = (.error e, s') ∧
      s'.submitted = s.submitted ++ [.x profits txs expire] := by
  rw [BnB48Sender.x, Proc.run_bind, Proc.run_modify]
  simp only [Proc.run_bind, Proc.run_read]
  by_cases hprice : (s.onSender (Sender.submit (.x profits txs expire))).bnbPrice = 0
  · rw [if_pos hprice]
    exact ⟨_, _, rfl, rfl⟩
  · have hlow : ¬ (s.onSender (Sender.submit (.x profits txs expire))).mevGasPrice profits
        < (s.onSender (Sender.submit (.x profits txs expire))).bnbGasPrice :=
      fun hlow ↦ h ⟨hprice, hlow⟩
    rw [if_neg hprice]
    simp only [if_neg hlow]
    exact ⟨_, _, rfl, rfl⟩

/-- Of two results with different indices the larger one comes first. -/
theorem sortedTxsLiq_two {first second : SendResult} (hindex : second.index ≠ first.index)
    (hless : ¬ txGe (first.profit, first.signedTxRaw) (second.profit, second.signedTxRaw)) :
    sortedTxsLiq [first, second]
      = [(second.profit, second.signedTxRaw), (first.profit, first.signedTxRaw)] := by
  have hkept : dedupResults [first, second]
      = [(first.profit, first.signedTxRaw), (second.profit, second.signedTxRaw)] := by
    have hfresh : ((∅ : Dict String ℤ).set first.index 1).get? second.index = none := by
      rw [Dict.get?_set, if_neg hindex]
      rfl
    have hfirst : dedupResult (∅, []) first
        = ((∅ : Dict String ℤ).set first.index 1, [(first.profit, first.signedTxRaw)]) := rfl
    rw [dedupResults, List.foldl_cons, List.foldl_cons, List.foldl_nil, hfirst, dedupResult, hfresh]
    rfl
  rw [sortedTxsLiq, hkept, List.insertionSort_cons, List.insertionSort_cons, List.insertionSort_nil,
    List.orderedInsert_nil, List.orderedInsert_cons, if_neg hless]
  rfl
/-- Without a signal the best transaction is passed on first, and no other when its bid raises. -/
theorem run_sendTransactions_of_bid {results : List SendResult} {best : ℚ × Bytes}
    {rest : List (ℚ × Bytes)} (hsorted : sortedTxsLiq results = best :: rest)
    (hbid : ¬ s.Underbids best.1) (expire : ℤ) : ∃ e s',
    (BnB48Sender.sendTransactions ⟨results, expire, none⟩).run s = (.error e, s') ∧
      s'.submitted = s.submitted ++ [.x best.1 [.bytes best.2] (expire + 60)] := by
  have hopen : ¬ (s.lock ∧ results.length = 0) := by
    rintro ⟨-, hlength⟩
    rw [List.length_eq_zero_iff.mp hlength] at hsorted
    cases hsorted
  obtain ⟨e, s', hx, hsubmitted⟩ := run_x_of_not_underbids hbid [.bytes best.2] (expire + 60)
  have hloop : (Proc.forEach (best :: rest.take 1) fun res ↦ do
      BnB48Sender.x res.1 [.bytes res.2] (expire + 60)
      Proc.modify BnB48Sender.nextNonce).run s = (.error e, s') :=
    Proc.run_bind_of_error (Proc.run_bind_of_error hx)
  refine ⟨e, s', ?_, hsubmitted⟩
  rw [BnB48Sender.sendTransactions, Proc.run_bind_of_ok (Proc.run_read _)]
  dsimp only
  rw [if_neg hopen, hsorted]
  exact Proc.run_bind_of_error hloop

/-- What the loop passes on depends on the bids only. -/
theorem singles_congr {t : BnB48Sender} (h : ∀ profits, t.Underbids profits ↔ s.Underbids profits)
    (expire : ℤ) (best : List (ℚ × Bytes)) : t.singles expire best = s.singles expire best := by
  induction best with
  | nil => rfl
  | cons res best ih =>
    rw [BnB48Sender.singles, BnB48Sender.singles, ih, if_congr (h res.1) rfl rfl]

/-- The loop over the best transactions, with the step behind it. -/
theorem submitted_singles (expire : ℤ) (best : List (ℚ × Bytes)) : ∀ s : BnB48Sender,
    ((do
      Proc.forEach best fun res ↦ do
        BnB48Sender.x res.1 [.bytes res.2] expire
        Proc.modify BnB48Sender.nextNonce
      Proc.modify BnB48Sender.nextNonce : Proc BnB48Sender Error Unit).run s).2.submitted
      = s.submitted ++ s.singles expire best := by
  induction best with
  | nil => exact fun s ↦ (List.append_nil s.submitted).symm
  | cons res best ih =>
    intro s
    rw [BnB48Sender.singles]
    by_cases hunder : s.Underbids res.1
    -- `x` returns, and the loop goes on with the nonce raised, which no bid depends on
    · have hx := run_x_of_underbids hunder [.bytes res.2] expire
      have hrest := ih (s.onSender (Sender.submit (.x res.1 [.bytes res.2] expire))).nextNonce
      have hsame := fun f ↦ @singles_congr s (s.onSender f).nextNonce (fun _ ↦ Iff.rfl) expire best
      rw [Proc.forEach_cons, if_pos hunder]
      rw [Proc.run_bind] at hrest ⊢
      rw [Proc.run_bind, Proc.run_bind_of_ok hx, Proc.run_modify]
      rw [hrest, hsame]
      exact List.append_assoc s.submitted [_] _
    -- `x` raises, and the loop is over
    · obtain ⟨e, s', hx, hsubmitted⟩ := run_x_of_not_underbids hunder [.bytes res.2] expire
      rw [if_neg hunder, Proc.forEach_cons, Proc.run_bind_of_error
        (Proc.run_bind_of_error (Proc.run_bind_of_error hx)), hsubmitted]

/-- What a call passes on. -/
theorem passed_eq {args : SendArgs} (hguard : ¬ (s.lock ∧ args.results.length = 0)) :
    s.passed args = match args.signalRecv with
      | none => s.singles (args.expire + 60) ((sortedTxsLiq args.results).take 2)
      | some signalRecv =>
        .x (bundleProfits ((sortedTxsLiq args.results).take 2)) (.text signalRecv.rawTx ::
            ((sortedTxsLiq args.results).take 2).map fun res ↦ .text (hexBytesHex res.2))
          (args.expire + 6) ::
          if s.Underbids (bundleProfits ((sortedTxsLiq args.results).take 2)) then
            s.singles (args.expire + 60) ((sortedTxsLiq args.results).take 2)
          else [] := by
  rw [BnB48Sender.passed, BnB48Sender.sendTransactions, Proc.run_bind, Proc.run_read]
  simp only [if_neg hguard]
  -- behind a signal the bundle of both is passed on before the loop
  rcases args.signalRecv with _ | signalRecv
  · exact (congrArg (List.drop _) (submitted_singles _ _ s)).trans List.drop_left
  · simp only [BnB48Sender.sendBundle]
    by_cases hunder : s.Underbids (bundleProfits ((sortedTxsLiq args.results).take 2))
    · have hsame := fun f ↦ @singles_congr s (s.onSender f) (fun _ ↦ Iff.rfl) (args.expire + 60)
        ((sortedTxsLiq args.results).take 2)
      rw [Proc.run_bind_of_ok (run_x_of_underbids hunder _ _), if_pos hunder, submitted_singles,
        hsame]
      exact (congrArg (List.drop _) (List.append_assoc s.submitted [_] _)).trans List.drop_left
    · obtain ⟨e, s', hx, hsubmitted⟩ := run_x_of_not_underbids hunder (.text signalRecv.rawTx ::
        ((sortedTxsLiq args.results).take 2).map fun res ↦ .text (hexBytesHex res.2))
        (args.expire + 6)
      rw [Proc.run_bind_of_error hx, if_neg hunder, hsubmitted, List.drop_left]

end Passed

/-! ## The tasks that are kept -/

/-- The tasks that are kept: the first one of each index. -/
def keptResults (seen : Dict String ℤ) : List SendResult → List SendResult
  | [] => []
  | res :: results =>
    match seen.get? res.index with
    | some _ => keptResults seen results
    | none => res :: keptResults (seen.set res.index 1) results

/-- `[profit, signed_tx_raw]`. -/
def profitAndTx (res : SendResult) : ℚ × Bytes := (res.profit, res.signedTxRaw)

section Kept

theorem dedupResults_eq (results : List SendResult) :
    dedupResults results = (keptResults ∅ results).map profitAndTx := by
  have hfoldl : ∀ (results : List SendResult) (acc : Dict String ℤ × List (ℚ × Bytes)),
      (results.foldl dedupResult acc).2 = acc.2 ++ (keptResults acc.1 results).map profitAndTx := by
    intro results
    induction results with
    | nil => exact fun acc ↦ (List.append_nil acc.2).symm
    | cons res results ih =>
      intro acc
      rw [List.foldl_cons, ih, dedupResult, keptResults]
      rcases acc.1.get? res.index with _ | seen
      · exact List.append_assoc acc.2 [_] _
      · rfl
  exact hfoldl results (∅, [])

theorem sublist_keptResults (results : List SendResult) :
    ∀ seen, (keptResults seen results).Sublist results := by
  induction results with
  | nil => exact fun _ ↦ List.Sublist.refl []
  | cons res results ih =>
    intro seen
    rw [keptResults]
    rcases seen.get? res.index with _ | _
    · exact (ih _).cons_cons res
    · exact (ih _).cons res

/-- The first task is kept. -/
theorem keptResults_cons (task : SendResult) (tasks : List SendResult) :
    keptResults ∅ (task :: tasks) = task :: keptResults (Dict.set ∅ task.index 1) tasks := by
  rw [keptResults, Dict.get?_empty]

/-- The second one is if it has an index of its own. -/
theorem keptResults_cons_cons (task second : SendResult) (tasks : List SendResult) :
    keptResults (Dict.set ∅ task.index 1) (second :: tasks)
      = if second.index = task.index then keptResults (Dict.set ∅ task.index 1) tasks
        else second :: keptResults ((Dict.set ∅ task.index 1).set second.index 1) tasks := by
  rw [keptResults, Dict.get?_set]
  by_cases hindex : second.index = task.index
  · rw [if_pos hindex, if_pos hindex]
  · rw [if_neg hindex, if_neg hindex, Dict.get?_empty]

theorem Numbered.le_of_mem {tasks : List SendResult} {n : ℤ} (h : Numbered n tasks)
    {task : SendResult} (ht : task ∈ tasks) : ∃ m, n ≤ m ∧ nonceOf task.signedTxRaw = some m := by
  induction tasks generalizing n with
  | nil => exact absurd ht List.not_mem_nil
  | cons first tasks ih =>
    rcases List.mem_cons.mp ht with rfl | ht
    · exact ⟨n, le_rfl, h.1⟩
    · obtain ⟨m, hm, hnonce⟩ := ih h.2 ht
      exact ⟨m, (Int.lt_add_one_iff.mpr le_rfl).le.trans hm, hnonce⟩

/-- Nonces below those of the tasks are not among them. -/
theorem Numbered.ne_of_mem_kept {tasks : List SendResult} {n m : ℤ} (h : Numbered n tasks)
    (hm : m < n) {seen : Dict String ℤ} {entry : ℚ × Bytes}
    (hentry : entry ∈ (keptResults seen tasks).map profitAndTx) : nonceOf entry.2 ≠ some m := by
  obtain ⟨task, ht, rfl⟩ := List.mem_map.mp hentry
  obtain ⟨k, hk, hnonce⟩ := h.le_of_mem ((sublist_keptResults tasks seen).subset ht)
  rw [profitAndTx, hnonce, Ne, Option.some_inj]
  exact (hm.trans_le hk).ne'

end Kept

/-! ## The order of the best -/

section Order

theorem txGe_iff {a b : ℚ × Bytes} : txGe a b ↔ b.1 < a.1 ∨ b.1 = a.1 ∧ b.2 ≤ a.2 := by
  rw [txGe, Bool.or_eq_true, Bool.and_eq_true, decide_eq_true_eq, decide_eq_true_eq,
    decide_eq_true_eq]

theorem txGe_refl (a : ℚ × Bytes) : txGe a a := txGe_iff.mpr (.inr ⟨rfl, List.le_refl a.2⟩)

theorem txGe_antisymm {a b : ℚ × Bytes} (h : txGe a b) (h' : txGe b a) : a = b := by
  rcases txGe_iff.mp h with hlt | ⟨heq, hle⟩
  · rcases txGe_iff.mp h' with hlt' | ⟨heq', -⟩
    · exact absurd hlt hlt'.asymm
    · exact absurd heq' hlt.ne'
  · rcases txGe_iff.mp h' with hlt' | ⟨-, hle'⟩
    · exact absurd heq hlt'.ne'
    · exact Prod.ext heq.symm (List.le_antisymm hle' hle)

instance : Std.Total fun a b ↦ txGe a b = true := ⟨fun a b ↦ by
  rw [txGe_iff, txGe_iff]
  rcases lt_trichotomy b.1 a.1 with hlt | heq | hlt
  · exact .inl (.inl hlt)
  · exact (List.le_total b.2 a.2).imp (fun h ↦ .inr ⟨heq, h⟩) fun h ↦ .inr ⟨heq.symm, h⟩
  · exact .inr (.inl hlt)⟩

instance : IsTrans (ℚ × Bytes) fun a b ↦ txGe a b = true := ⟨fun a b c hab hbc ↦ by
  rw [txGe_iff] at hab hbc ⊢
  rcases hab with hab | ⟨hab, hab'⟩
  · exact .inl (hbc.elim (fun h ↦ h.trans hab) fun h ↦ h.1 ▸ hab)
  · rcases hbc with hbc | ⟨hbc, hbc'⟩
    · exact .inl (hab ▸ hbc)
    · exact .inr ⟨hbc.trans hab, List.le_trans hbc' hab'⟩⟩

variable {results : List SendResult} {first second best : ℚ × Bytes}
  {rest others : List (ℚ × Bytes)}

/-- The best one is the first one if nothing is better than that. -/
theorem eq_first_iff (hbest : best ∈ first :: others)
    (hge : ∀ other ∈ first :: others, txGe best other) :
    best = first ↔ ∀ other ∈ others, txGe first other := by
  constructor
  · rintro rfl other hother
    exact hge other (List.mem_cons_of_mem _ hother)
  · intro hall
    refine txGe_antisymm (hge first List.mem_cons_self) ?_
    rcases List.mem_cons.mp hbest with rfl | hmem
    · exact txGe_refl best
    · exact hall best hmem

/-- What comes first in the sorted list. -/
theorem best_of_sortedTxsLiq (h : sortedTxsLiq results = best :: rest) :
    best ∈ dedupResults results ∧ (∀ other ∈ dedupResults results, txGe best other) := by
  have hperm := List.perm_insertionSort (fun a b ↦ txGe a b) (dedupResults results)
  have hsorted := List.pairwise_insertionSort (fun a b ↦ txGe a b) (dedupResults results)
  rw [← sortedTxsLiq, h] at hperm hsorted
  refine ⟨hperm.mem_iff.mp List.mem_cons_self, fun other hother ↦ ?_⟩
  rcases List.mem_cons.mp (hperm.mem_iff.mpr hother) with rfl | hmem
  · exact txGe_refl other
  · exact (List.pairwise_cons.mp hsorted).1 other hmem

/-- What comes second, behind the first task. -/
theorem second_of_sortedTxsLiq (hkept : dedupResults results = first :: others)
    (h : sortedTxsLiq results = first :: second :: rest) :
    second ∈ others ∧ ∀ other ∈ others, txGe second other := by
  have hperm := List.perm_insertionSort (fun a b ↦ txGe a b) (dedupResults results)
  have hsorted := List.pairwise_insertionSort (fun a b ↦ txGe a b) (dedupResults results)
  rw [← sortedTxsLiq, h] at hperm hsorted
  have hperm' : (second :: rest).Perm others := (List.perm_cons first).mp (hkept ▸ hperm)
  have hsorted' := (List.pairwise_cons.mp (List.pairwise_cons.mp hsorted).2).1
  refine ⟨hperm'.mem_iff.mp List.mem_cons_self, fun other hother ↦ ?_⟩
  rcases List.mem_cons.mp (hperm'.mem_iff.mpr hother) with rfl | hmem
  · exact txGe_refl other
  · exact hsorted' other hmem

end Order

/-! ## Bundles in order -/

/-- The second task has an index of its own. -/
def SecondFresh : List SendResult → Prop
  | task :: second :: _ => second.index ≠ task.index
  | _ => True

/-- The tasks that are kept come in the order of the best, as far as they are passed on together,
and the second one is not passed on alone, as some bid before that is high enough for `x` to
raise. -/
def SentInOrder (s : BnB48Sender) (signalRecv : Option SignalRecv) (tasks : List SendResult) :
    Prop :=
  match dedupResults tasks with
  | first :: second :: others =>
    (∀ other ∈ second :: others, txGe first other) ∧
      match signalRecv with
      | none => ¬ s.Underbids first.1
      | some _ => (SecondFresh tasks ∧ ∀ other ∈ others, txGe second other) ∧
        ¬ (s.Underbids (bundleProfits [first, second]) ∧ s.Underbids first.1)
  | _ => True

section Iff

variable {s : BnB48Sender} {n : ℤ}

theorem allExecutable_nil : AllExecutable n [] := fun _ _ _ h ↦ absurd h List.not_mem_nil

theorem allExecutable_cons {profits : ℚ} {txs : List BundleTx} {expire : ℤ} {l : List Submission} :
    AllExecutable n (.x profits txs expire :: l) ↔
      Consecutive n (liquidationTxs txs) ∧ AllExecutable n l := by
  constructor
  · intro h
    exact ⟨h profits txs expire List.mem_cons_self,
      fun p t e hmem ↦ h p t e (List.mem_cons_of_mem _ hmem)⟩
  · rintro ⟨hx, hl⟩ p t e hmem
    rcases List.mem_cons.mp hmem with heq | hmem
    · obtain ⟨rfl, rfl, rfl⟩ := Submission.x.inj heq
      exact hx
    · exact hl p t e hmem

theorem allExecutable_if {c : Prop} [Decidable c] {l : List Submission} :
    AllExecutable n (if c then l else []) ↔ (c → AllExecutable n l) := by
  by_cases hc : c
  · rw [if_pos hc]
    exact ⟨fun h _ ↦ h, fun h ↦ h hc⟩
  · rw [if_neg hc]
    exact iff_of_true allExecutable_nil fun h ↦ absurd h hc

theorem allExecutable_singles_cons {expire : ℤ} {res : ℚ × Bytes} {best : List (ℚ × Bytes)} :
    AllExecutable n (s.singles expire (res :: best)) ↔ nonceOf res.2 = some n ∧
      (s.Underbids res.1 → AllExecutable n (s.singles expire best)) := by
  rw [BnB48Sender.singles, allExecutable_cons, allExecutable_if]
  exact and_congr_left fun _ ↦ and_iff_left trivial

theorem nonce?_text (raw : Bytes) : (BundleTx.text (hexBytesHex raw)).nonce? = nonceOf raw := by
  rw [BundleTx.nonce?, bytesFromPrefixed_hexBytesHex]
  rfl

/-- The nonces of the tasks that are kept. -/
theorem nonces_dedupResults {tasks : List SendResult} (h : Numbered n tasks) {first : ℚ × Bytes}
    {others : List (ℚ × Bytes)} (hkept : dedupResults tasks = first :: others) :
    nonceOf first.2 = some n ∧ (∀ other ∈ others, nonceOf other.2 ≠ some n) ∧
      ∀ second others', others = second :: others' →
        (nonceOf second.2 = some (n + 1) ↔ SecondFresh tasks) ∧
        ∀ other ∈ others', nonceOf other.2 ≠ some (n + 1) := by
  rcases tasks with _ | ⟨task, tasks⟩
  · cases hkept
  rw [dedupResults_eq, keptResults_cons, List.map_cons, List.cons.injEq] at hkept
  obtain ⟨rfl, rfl⟩ := hkept
  have hlt : n < n + 1 := Int.lt_add_one_iff.mpr le_rfl
  refine ⟨h.1, fun other hother ↦ h.2.ne_of_mem_kept hlt hother, fun second others' hothers ↦ ?_⟩
  rcases tasks with _ | ⟨task', tasks⟩
  · cases hothers
  have hlt' : n + 1 < n + 1 + 1 := Int.lt_add_one_iff.mpr le_rfl
  rw [keptResults_cons_cons] at hothers
  by_cases hindex : task'.index = task.index
  -- the second task is dropped, and with it the nonce behind the first
  · rw [if_pos hindex] at hothers
    have hne := fun other hother ↦ @Numbered.ne_of_mem_kept tasks _ _ h.2.2 hlt'
      (Dict.set ∅ task.index 1) other (hothers ▸ hother)
    exact ⟨iff_of_false (hne second List.mem_cons_self) fun hfresh ↦ hfresh hindex,
      fun other hother ↦ hne other (List.mem_cons_of_mem _ hother)⟩
  · rw [if_neg hindex, List.map_cons, List.cons.injEq] at hothers
    obtain ⟨rfl, rfl⟩ := hothers
    exact ⟨iff_of_true h.2.1 hindex, fun other hother ↦ h.2.2.ne_of_mem_kept hlt' hother⟩

/-- The nonces of the two best. The best one has the first nonce if it is the first task, and the
next one the nonce behind that if it is the second task. -/
theorem nonces_best {tasks : List SendResult} (h : Numbered n tasks) {first second : ℚ × Bytes}
    {others : List (ℚ × Bytes)} (hkept : dedupResults tasks = first :: second :: others) :
    ∃ best best', (sortedTxsLiq tasks).take 2 = [best, best'] ∧
      (nonceOf best.2 = some n ↔ ∀ other ∈ second :: others, txGe first other) ∧
      (nonceOf best.2 = some n → best = first ∧ nonceOf best'.2 ≠ some n ∧
        (nonceOf best'.2 = some (n + 1) ↔
          SecondFresh tasks ∧ ∀ other ∈ others, txGe second other) ∧
        (nonceOf best'.2 = some (n + 1) → best' = second)) := by
  obtain ⟨hfirst, hothers, hsecond⟩ := nonces_dedupResults h hkept
  obtain ⟨hfresh, hothers'⟩ := hsecond second others rfl
  obtain ⟨best, best', rest, hsorted⟩ : ∃ best best' rest,
      sortedTxsLiq tasks = best :: best' :: rest := by
    have hlength := (List.perm_insertionSort (fun a b ↦ txGe a b) (dedupResults tasks)).length_eq
    rw [← sortedTxsLiq, hkept] at hlength
    rcases hsort : sortedTxsLiq tasks with _ | ⟨best, _ | ⟨best', rest⟩⟩
    · rw [hsort] at hlength
      cases hlength
    · rw [hsort] at hlength
      cases hlength
    · exact ⟨best, best', rest, rfl⟩
  obtain ⟨hmem, hge⟩ := best_of_sortedTxsLiq hsorted
  rw [hkept] at hmem hge
  -- the nonce is that of the first task only
  have hbest : nonceOf best.2 = some n ↔ best = first := by
    refine ⟨fun hnonce ↦ ?_, fun heq ↦ heq ▸ hfirst⟩
    exact (List.mem_cons.mp hmem).resolve_right fun hmem ↦ hothers best hmem hnonce
  refine ⟨best, best', by rw [hsorted]; rfl, hbest.trans (eq_first_iff hmem hge), fun hnonce ↦ ?_⟩
  obtain ⟨hmem', hge'⟩ := second_of_sortedTxsLiq hkept (hbest.mp hnonce ▸ hsorted)
  have hbest' : nonceOf best'.2 = some (n + 1) → best' = second := fun hnonce' ↦
    (List.mem_cons.mp hmem').resolve_right fun hmem' ↦ hothers' best' hmem' hnonce'
  refine ⟨hbest.mp hnonce, hothers best' hmem', ?_, hbest'⟩
  rw [← eq_first_iff hmem' hge']
  constructor
  · intro hnonce'
    exact ⟨hfresh.mp (hbest' hnonce' ▸ hnonce'), hbest' hnonce'⟩
  · rintro ⟨hown, rfl⟩
    exact hfresh.mpr hown

/-- The bundle of the two best. -/
theorem consecutive_two (rawTx : String) (best best' : ℚ × Bytes) :
    Consecutive n (liquidationTxs (.text rawTx :: [best, best'].map fun res ↦
      .text (hexBytesHex res.2))) ↔ nonceOf best.2 = some n ∧ nonceOf best'.2 = some (n + 1) := by
  rw [← nonce?_text best.2, ← nonce?_text best'.2]
  exact and_congr_right fun _ ↦ and_iff_left trivial

/-- **Bundles of numbered tasks.** Everything that is passed to `x` can be executed if and only if
the tasks are sent in order. -/
theorem allExecutable_passed_iff {args : SendArgs} (h : Numbered n args.results) :
    AllExecutable n (s.passed args) ↔ SentInOrder s args.signalRecv args.results := by
  by_cases hguard : s.lock ∧ args.results.length = 0
  · have hnil := List.length_eq_zero_iff.mp hguard.2
    have hpassed : s.passed args = [] := by
      rw [BnB48Sender.passed, BnB48Sender.sendTransactions, Proc.run_bind, Proc.run_read]
      simp only [if_pos hguard, Proc.run_pure, List.drop_length]
    rw [hpassed, hnil]
    exact iff_of_true allExecutable_nil trivial
  rw [passed_eq hguard, SentInOrder]
  rcases hkept : dedupResults args.results with _ | ⟨first, _ | ⟨second, others⟩⟩
  · -- nothing is kept
    have hsorted : sortedTxsLiq args.results = [] := by
      rw [sortedTxsLiq, hkept, List.insertionSort_nil]
    rw [hsorted]
    refine iff_of_true ?_ trivial
    rcases args.signalRecv with _ | signalRecv
    · exact allExecutable_nil
    · exact allExecutable_cons.mpr ⟨trivial, allExecutable_if.mpr fun _ ↦ allExecutable_nil⟩
  · -- a single task is kept, and has the right nonce
    have hsorted : sortedTxsLiq args.results = [first] := by
      rw [sortedTxsLiq, hkept]
      rfl
    have hfirst := (nonces_dedupResults h hkept).1
    have hsingle : AllExecutable n (s.singles (args.expire + 60) [first]) :=
      allExecutable_singles_cons.mpr ⟨hfirst, fun _ ↦ allExecutable_nil⟩
    rw [hsorted]
    refine iff_of_true ?_ trivial
    rcases args.signalRecv with _ | signalRecv
    · exact hsingle
    · exact allExecutable_cons.mpr ⟨⟨(nonce?_text first.2).trans hfirst, trivial⟩,
        allExecutable_if.mpr fun _ ↦ hsingle⟩
  · obtain ⟨best, best', htake, hbest, hrest⟩ := nonces_best h hkept
    -- passed on alone, the second one has the wrong nonce
    have hsingles : AllExecutable n (s.singles (args.expire + 60) [best, best']) ↔
        nonceOf best.2 = some n ∧ ¬ s.Underbids first.1 := by
      rw [allExecutable_singles_cons, allExecutable_singles_cons]
      refine and_congr_right fun hnonce ↦ ?_
      obtain ⟨rfl, hne, -⟩ := hrest hnonce
      exact forall_congr' fun _ ↦ iff_of_false (fun h ↦ hne h.1) id
    simp only [htake, ← hbest]
    rcases args.signalRecv with _ | signalRecv
    · exact hsingles
    · simp only [allExecutable_cons, allExecutable_if, hsingles, consecutive_two, and_assoc]
      refine and_congr_right fun hnonce ↦ ?_
      obtain ⟨rfl, -, hbest', hsecond⟩ := hrest hnonce
      rw [← and_assoc, ← hbest']
      refine and_congr_right fun hnonce' ↦ ?_
      rw [hsecond hnonce', not_and]
      exact forall_congr' fun _ ↦ and_iff_right hnonce

end Iff

/-- The same for the users of a signal. -/
theorem executable_signal_iff_sentInOrder {L : Type} {env : SignalEnv L}
    (hsign : CarriesNonce env.signTransaction) (hchecks : ChecksReceiver env.signTransaction)
    {acc : AccCompound} {st st' : SignalState} {results : List SimResult} {tasks : List SendResult}
    (haccounts : st.accounts = [acc])
    (hrun : (signalSimulateHealthFactor env results).run st = (.ok tasks, st')) (s : BnB48Sender)
    (expire : ℤ) (signalRecv : Option SignalRecv) :
    (AllExecutable acc.nonce (s.passed ⟨tasks, expire, signalRecv⟩) ↔
      SentInOrder s signalRecv tasks) ∧ (env.net = .bsc → tasks = []) := by
  obtain ⟨calls, hcalls⟩ := startAll_of_signalSimulateHealthFactor results hrun
  exact ⟨@allExecutable_passed_iff s acc.nonce ⟨tasks, expire, signalRecv⟩
    (numbered_startAll hsign calls haccounts hcalls),
    fun hnet ↦ startAll_of_bsc hchecks hnet calls hcalls⟩

/-! ## Two users with the same profit -/

/-- A call for a new user, with one account that signs. -/
theorem LiqCall.run_start_of_new {env : LiqEnv} {call : LiqCall} {l : Liquidator}
    (hnew : l.record? call.usr call.liqPair.debtCtoken = none) {tx : TxParams} {profit : ℚ}
    (htransaction : call.transaction env = .ok (some (tx, profit))) {acc : AccCompound}
    (haccounts : l.accounts = [acc]) {raw : Bytes}
    (hraw : env.signTransaction acc.key { tx with nonce := acc.nonce } = .ok raw) :
    (call.start env).run l = (.ok [⟨call.index, raw, profit⟩],
      { l.setUserLiquidated call.index call.usr call.liqPair.debtCtoken
          call.liqPair.repayAmount with
        accounts := [{ acc with
          nonce := acc.nonce + 1
          asked := acc.asked ++ [{ tx with nonce := acc.nonce }] }] }) := by
  rw [call.run_start, run_isUserLiquidated, hnew]
  simp only [htransaction, haccounts, signSendingTxToTasks, hraw]
  rfl

end CompoundLiquidation
