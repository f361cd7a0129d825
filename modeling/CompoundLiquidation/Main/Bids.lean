import CompoundLiquidation.Liquidation.Bundles
import CompoundLiquidation.Main.Sends

/-!
# Three bids

The sender bids for a place in the block with a tip. When the tip pays for the gas price of the
validators, the bundle is to be sent; but `x` then raises, as it adds a text to a list, and the
exception goes through `send_transactions` to the task that has called it. Every task has its
number of exceptions after which the program ends. So there are never more than three bids in the
life of the program, two of them for signals and one at an idle tick, or all three for signals.
-/

namespace CompoundLiquidation

open Python

/-! ## Bids of a sender -/

/-- The submission gets past the gas price check. -/
def Submission.Bids (s : BnB48Sender) : Submission → Prop
  | .x profits _ _ => ¬ s.Underbids profits
  | .sendTxTask _ | .simulate _ _ => False

instance (s : BnB48Sender) : DecidablePred (Submission.Bids s)
  | .x profits _ _ => inferInstanceAs (Decidable (¬ s.Underbids profits))
  | .sendTxTask _ | .simulate _ _ => instDecidableFalse

theorem BidsAlike.underbids_iff {s s' : BnB48Sender} (h : BidsAlike s s') (profits : ℚ) :
    s'.Underbids profits ↔ s.Underbids profits := by
  rw [BnB48Sender.Underbids, BnB48Sender.Underbids, BnB48Sender.mevGasPrice,
    BnB48Sender.mevGasPrice, h.balance, h.bnbPrice, h.bnbGasPrice]

theorem BidsAlike.countP_eq {s s' : BnB48Sender} (h : BidsAlike s s') (l : List Submission) :
    l.countP (Submission.Bids s' ·) = l.countP (Submission.Bids s ·) := by
  refine List.countP_congr fun submission _ ↦ ?_
  rw [decide_eq_true_iff, decide_eq_true_iff]
  cases submission with
  | x profits txs expire => exact not_congr (h.underbids_iff profits)
  | sendTxTask raw | simulate bundle target => exact Iff.rfl

/-- What a run of a sender hands over: the sender goes on to bid alike, there is no bid but the
last submission, and a bid raises. -/
structure Relays {α : Type} (s : BnB48Sender) (r : Except Error α × BnB48Sender)
    (new : List Submission) : Prop where
  submitted : r.2.submitted = s.submitted ++ new
  alike : BidsAlike s r.2
  once : new.countP (Submission.Bids s ·) ≤ 1
  returns : ∀ a, r.1 = .ok a → new.countP (Submission.Bids s ·) = 0

/-- A computation that hands over submissions of one kind. -/
def Handing {α : Type} (P : Submission → Prop) (x : Proc BnB48Sender Error α) : Prop :=
  ∀ s, ∃ new, Relays s (x.run s) new ∧ ∀ submission ∈ new, P submission

section Handing

variable {P : Submission → Prop}

theorem handing_pure {α : Type} (a : α) : Handing P (pure a : Proc BnB48Sender Error α) := fun s ↦
  ⟨[], ⟨(List.append_nil _).symm, .refl s, Nat.zero_le 1, fun _ _ ↦ rfl⟩, nofun⟩

theorem handing_read : Handing P (Proc.read : Proc BnB48Sender Error BnB48Sender) := fun s ↦
  ⟨[], ⟨(List.append_nil _).symm, .refl s, Nat.zero_le 1, fun _ _ ↦ rfl⟩, nofun⟩

theorem handing_nextNonce :
    Handing P (Proc.modify BnB48Sender.nextNonce : Proc BnB48Sender Error Unit) := fun _ ↦
  ⟨[], ⟨(List.append_nil _).symm, ⟨rfl, rfl, rfl⟩, Nat.zero_le 1, fun _ _ ↦ rfl⟩, nofun⟩

theorem handing_ite {α : Type} {c : Prop} [Decidable c] {x y : Proc BnB48Sender Error α}
    (hx : c → Handing P x) (hy : ¬ c → Handing P y) : Handing P (if c then x else y) := by
  by_cases h : c
  · rw [if_pos h]
    exact hx h
  · rw [if_neg h]
    exact hy h

/-- Behind a bid nothing follows. -/
theorem handing_bind {α β : Type} {x : Proc BnB48Sender Error α}
    {f : α → Proc BnB48Sender Error β} (hx : Handing P x) (hf : ∀ a, Handing P (f a)) :
    Handing P (x >>= f) := by
  intro s
  obtain ⟨new, hnew, hP⟩ := hx s
  match hrun : x.run s with
  | (.error e, s') =>
    rw [hrun] at hnew
    rw [Proc.run_bind_of_error hrun]
    exact ⟨new, ⟨hnew.submitted, hnew.alike, hnew.once, nofun⟩, hP⟩
  | (.ok a, s') =>
    rw [hrun] at hnew
    rw [Proc.run_bind_of_ok hrun]
    obtain ⟨new', hnew', hP'⟩ := hf a s'
    have hnone := hnew.returns a rfl
    refine ⟨new ++ new', ⟨?_, hnew.alike.trans hnew'.alike, ?_, fun b hb ↦ ?_⟩, fun sub hsub ↦
      (List.mem_append.mp hsub).elim (hP sub) (hP' sub)⟩
    · rw [hnew'.submitted, hnew.submitted, List.append_assoc]
    · rw [List.countP_append, hnone, Nat.zero_add, ← hnew.alike.countP_eq]
      exact hnew'.once
    · rw [List.countP_append, hnone, Nat.zero_add, ← hnew.alike.countP_eq]
      exact hnew'.returns b hb

theorem handing_forEach {α : Type} (l : List α) {f : α → Proc BnB48Sender Error Unit}
    (hf : ∀ a ∈ l, Handing P (f a)) : Handing P (Proc.forEach l f) := by
  induction l with
  | nil => exact handing_pure ()
  | cons a l ih =>
    rw [Proc.forEach_cons]
    exact handing_bind (hf a List.mem_cons_self) fun _ ↦
      ih fun b hb ↦ hf b (List.mem_cons_of_mem a hb)

/-- A bid is where `x` raises. -/
theorem handing_x {profits : ℚ} {txs : List BundleTx} {expire : ℤ} (h : P (.x profits txs expire)) :
    Handing P (BnB48Sender.x profits txs expire) := by
  intro s
  have hP : ∀ submission ∈ [.x profits txs expire], P submission := by
    intro submission hsubmission
    rw [List.mem_singleton.mp hsubmission]
    exact h
  refine ⟨[.x profits txs expire], ?_, hP⟩
  by_cases hunder : s.Underbids profits
  · have hnone : [.x profits txs expire].countP (Submission.Bids s ·) = 0 := by
      have hnot : ¬ Submission.Bids s (.x profits txs expire) := not_not.mpr hunder
      rw [List.countP_singleton, decide_eq_false hnot]
      rfl
    rw [run_x_of_underbids hunder]
    exact ⟨rfl, ⟨rfl, rfl, rfl⟩, hnone.trans_le (Nat.zero_le 1), fun _ _ ↦ hnone⟩
  · obtain ⟨e, s', hrun, hsubmitted, halike⟩ : ∃ e s',
        (BnB48Sender.x profits txs expire).run s = (.error e, s') ∧
          s'.submitted = s.submitted ++ [.x profits txs expire] ∧ BidsAlike s s' := by
      have halike : Proc.Keeps BidsAlike (BnB48Sender.x profits txs expire) := by
        have htrans : ∀ s t u, BidsAlike s t → BidsAlike t u → BidsAlike s u :=
          fun _ _ _ ↦ BidsAlike.trans
        rw [BnB48Sender.x]
        refine Proc.keeps_bind htrans (Proc.keeps_modify fun s ↦ ⟨rfl, rfl, rfl⟩) fun _ ↦ ?_
        refine Proc.keeps_bind htrans (Proc.keeps_read .refl) fun s ↦ ?_
        dsimp only
        by_cases hprice : s.bnbPrice = 0
        · rw [if_pos hprice]
          exact fun s ↦ .refl s
        rw [if_neg hprice]
        refine Proc.keeps_ite (fun _ ↦ Proc.keeps_pure .refl ()) fun _ ↦ ?_
        exact Proc.keeps_bind htrans (Proc.keeps_modify fun s ↦ ⟨rfl, rfl, rfl⟩) fun _ ↦
          Proc.keeps_raise .refl _
      obtain ⟨e, s', hrun, hsubmitted⟩ := run_x_of_not_underbids hunder txs expire
      have hs := halike s
      rw [hrun] at hs
      exact ⟨e, s', hrun, hsubmitted, hs⟩
    rw [hrun]
    refine ⟨hsubmitted, halike, List.countP_le_length, fun a ha ↦ ?_⟩
    cases ha

end Handing

/-- The submission is one of these transactions with its profit, or at most two of them behind the
text of a signal. -/
inductive Submission.Carries (IsRaw : String → Prop) (tasks : List (ℚ × Bytes)) : Submission → Prop
  | single {task : ℚ × Bytes} (mem : task ∈ tasks) (expire : ℤ) :
    Carries IsRaw tasks (.x task.1 [.bytes task.2] expire)
  | bundle {rawTx : String} (raw : IsRaw rawTx) {best : List (ℚ × Bytes)} (subset : best ⊆ tasks)
    (few : best.length ≤ 2) (expire : ℤ) :
    Carries IsRaw tasks (.x (bundleProfits best)
      (.text rawTx :: best.map fun task ↦ .text (hexBytesHex task.2)) expire)

theorem mem_of_mem_sortedTxsLiq {results : List SendResult} {task : ℚ × Bytes}
    (h : task ∈ sortedTxsLiq results) : task ∈ results.map profitAndTx := by
  rw [sortedTxsLiq, (List.perm_insertionSort _ _).mem_iff, dedupResults_eq, List.mem_map] at h
  obtain ⟨res, hres, rfl⟩ := h
  exact List.mem_map_of_mem ((sublist_keptResults results ∅).subset hres)

theorem handing_sendTransactions {IsRaw : String → Prop} {args : SendArgs}
    (hraw : ∀ recv, args.signalRecv = some recv → IsRaw recv.rawTx) :
    Handing (Submission.Carries IsRaw (args.results.map profitAndTx))
      (BnB48Sender.sendTransactions args) := by
  have hbest : ∀ task ∈ (sortedTxsLiq args.results).take 2, task ∈ args.results.map profitAndTx :=
    fun task htask ↦ mem_of_mem_sortedTxsLiq (List.mem_of_mem_take htask)
  rw [BnB48Sender.sendTransactions]
  refine handing_bind handing_read fun s ↦ ?_
  refine handing_ite (fun _ ↦ handing_pure ()) fun _ ↦ ?_
  have hsingles : Handing (Submission.Carries IsRaw (args.results.map profitAndTx)) (do
      Proc.forEach ((sortedTxsLiq args.results).take 2) fun res ↦ do
        BnB48Sender.x res.1 [.bytes res.2] (args.expire + 60)
        Proc.modify BnB48Sender.nextNonce
      Proc.modify BnB48Sender.nextNonce) := by
    refine handing_bind (handing_forEach _ fun task htask ↦ ?_) fun _ ↦ handing_nextNonce
    exact handing_bind (handing_x (.single (hbest task htask) _)) fun _ ↦ handing_nextNonce
  obtain hrecv | ⟨signalRecv, hrecv⟩ := Option.eq_none_or_eq_some args.signalRecv
  · rw [hrecv]
    exact hsingles
  rw [hrecv]
  refine handing_bind ?_ fun _ ↦ hsingles
  exact handing_x (.bundle (hraw signalRecv hrecv) hbest (List.length_take_le 2 _) _)

/-! ## Bids of the program -/

section Program

variable {L : Type} {env : MainEnv L} {S : Type} {K : StatesClass S}

/-- The exceptions of the two tasks that send. -/
def Main.fails (m : Main S) : ℕ := m.failures .pending + m.failures .idle

variable (env K) in
/-- The bids of a step. -/
def Main.bidsOf (m : Main S) (e : Event) : ℕ :=
  ((m.step env K e).sender.submitted.drop m.sender.submitted.length).countP
    (Submission.Bids m.sender ·)

variable (env K) in
/-- The bids of a run. -/
def bidsIn (m : Main S) : List Event → ℕ
  | [] => 0
  | e :: events => m.bidsOf env K e + bidsIn (m.step env K e) events

variable (env K) in
/-- What a call that sends does, with this outcome of the simulation: it has tasks, or raises, and
hands the transactions of the tasks over. -/
structure Delivers (m : Main S) (r : Except Error Bool × Main S)
    (simulated : Except Error (List SendResult) × SignalState) (new : List Submission) : Prop where
  trading : r.2.trading = simulated.2
  relays : Relays m.sender (r.1, r.2.sender) new
  carries : ∀ submission ∈ new, ∃ tasks, simulated.1 = .ok tasks ∧
    submission.Carries env.IsRaw (tasks.map profitAndTx)
  failures : r.2.failures = m.failures
  marketData : r.2.marketData K = m.marketData K

theorem Sends.delivers {m : Main S} {r : Except Error Bool × Main S} (h : Sends env K m r) :
    ∃ (uniqueId : String → String) (results : List HfResult) (sig : Option SignalInfos)
        (new : List Submission),
      (∀ res ∈ results, IsCalculated (m.marketData K) res) ∧ (sig = none ∨ sig = m.signalRecv) ∧
        Delivers env K m r
          (((m.marketData K).simulate env uniqueId results sig).run m.trading) new := by
  obtain ⟨hresults, uniqueId, hrecorded, hraw⟩ := h
  rename_i atUser users results sig signalRecv
  refine ⟨uniqueId, results, sig, ?_⟩
  suffices hdelivers : ∃ new, Delivers env K m
      ((sendLiquidations env K uniqueId results sig signalRecv).run m)
      (((m.marketData K).simulate env uniqueId results sig).run m.trading) new by
    obtain ⟨new, hdelivers⟩ := hdelivers
    exact ⟨new, isCalculated_of_healthFactors hresults, hrecorded, hdelivers⟩
  rcases hrun : ((m.marketData K).simulate env uniqueId results sig).run m.trading with
    ⟨e | tasks, trading⟩
  · have hraised := @run_sendLiquidations_of_raised L env S K uniqueId results sig signalRecv m e
      trading hrun
    rw [hraised]
    refine ⟨[], rfl, ?_, fun _ hnone ↦ absurd hnone List.not_mem_nil, rfl, rfl⟩
    exact ⟨(List.append_nil _).symm, .refl m.sender, Nat.zero_le 1, fun _ h ↦ (by cases h)⟩
  let args : SendArgs :=
    { results := tasks
      expire := m.blockInfos.getCurrentTimestamp env.net m.blockInfos.blockNum
      signalRecv := signalRecv }
  have hhanding : Handing (Submission.Carries env.IsRaw (tasks.map profitAndTx))
      (BnB48Sender.sendTransactions args) := handing_sendTransactions hraw
  obtain ⟨new, hnew, hcarries⟩ := hhanding m.sender
  have htasks : ∀ submission ∈ new, ∃ tasks', (.ok tasks : Except Error (List SendResult))
      = .ok tasks' ∧ submission.Carries env.IsRaw (tasks'.map profitAndTx) :=
    fun submission hsubmission ↦ ⟨tasks, rfl, hcarries submission hsubmission⟩
  rcases hsend : (BnB48Sender.sendTransactions args).run m.sender with ⟨sent, sender⟩
  rw [hsend] at hnew
  have hrun' := @run_sendLiquidations L env S K uniqueId results sig signalRecv m tasks trading sent
    sender hrun hsend
  rw [hrun']
  refine ⟨new, rfl, ⟨hnew.submitted, hnew.alike, hnew.once, fun _ hreturns ↦ ?_⟩, htasks, rfl, rfl⟩
  cases sent with
  | error e => cases hreturns
  | ok _ => exact hnew.returns () rfl

theorem fails_of_failures_eq {m m' : Main S} (h : m'.failures = m.failures) :
    m'.fails = m.fails := by
  rw [Main.fails, Main.fails, h]

/-- An exception counts once at most. -/
theorem fails_of_update {m m' : Main S} {task : TaskName}
    (h : m'.failures = Function.update m.failures task (m.failures task + 1)) :
    m.fails ≤ m'.fails ∧ m'.fails ≤ m.fails + 1 ∧
      (task = .pending ∨ task = .idle → m'.fails = m.fails + 1) := by
  rw [Main.fails, Main.fails, h]
  cases task with
  | users | comet | prices | liquidations | header =>
    exact ⟨le_rfl, Nat.le_succ _, fun htask ↦ htask.elim nofun nofun⟩
  | pending =>
    have hsum : Function.update m.failures TaskName.pending (m.failures .pending + 1) .pending +
        Function.update m.failures TaskName.pending (m.failures .pending + 1) .idle =
          m.failures .pending + m.failures .idle + 1 := Nat.add_right_comm _ _ _
    rw [hsum]
    exact ⟨Nat.le_succ _, le_rfl, fun _ ↦ rfl⟩
  | idle =>
    exact ⟨Nat.le_succ _, le_rfl, fun _ ↦ rfl⟩

theorem Ends.fails_le {task : TaskName} {p : Prop} {m m' : Main S} (h : Ends env task p m m') :
    m.fails ≤ m'.fails ∧ m'.fails ≤ m.fails + 1 := by
  obtain heq | hupdate := h.failures
  · rw [fails_of_failures_eq heq]
    exact ⟨le_rfl, Nat.le_succ _⟩
  · exact ⟨(fails_of_update hupdate).1, (fails_of_update hupdate).2.1⟩

/-- Nothing new is no bid. -/
theorem bidsOf_eq_zero {m : Main S} {e : Event}
    (h : (m.step env K e).sender.submitted = m.sender.submitted) : m.bidsOf env K e = 0 := by
  rw [Main.bidsOf, h, List.drop_length]
  rfl

/-- Every bid is paid for by an exception, and a step has one at most. -/
theorem bidsOf_step (m : Main S) (e : Event) :
    m.bidsOf env K e + m.fails ≤ (m.step env K e).fails ∧
      (m.step env K e).fails ≤ m.fails + 1 := by
  have hheader : (∃ node clock message, e = .header node clock message) ∨
      ∀ node clock message, e ≠ .header node clock message := by
    by_cases h : ∃ node clock message, e = .header node clock message
    · exact .inl h
    · exact .inr fun node clock message heq ↦ h ⟨node, clock, message, heq⟩
  obtain ⟨node, clock, message, rfl⟩ | hheader := hheader
  · obtain ⟨m₂, hunsent, hends⟩ := @unsent_header_step L env S K m node clock message
    have hfails := fails_of_failures_eq hunsent.failures
    rw [bidsOf_eq_zero (by rw [hends.sender, hunsent.submitted]), Nat.zero_add, ← hfails]
    exact hends.fails_le
  cases @sendsOnce_step L env S K m e hheader with
  | quiet hquiet hends =>
    have hfails := fails_of_failures_eq hquiet.failures
    rw [bidsOf_eq_zero (by rw [hends.sender, hquiet.submitted]), Nat.zero_add, ← hfails]
    exact hends.fails_le
  | @sends task htask m₁ m₂ r hbefore hsends hafter hends =>
    obtain ⟨_, _, _, new, -, -, hdelivers⟩ := hsends.delivers
    have hnew := hdelivers.relays
    have hfails : m₂.fails = m.fails := fails_of_failures_eq
      (hafter.quietly.failures.trans (hdelivers.failures.trans hbefore.failures))
    have hbids : m.bidsOf env K e = new.countP (Submission.Bids m.sender ·) := by
      have hsubmitted : (m.step env K e).sender.submitted = m.sender.submitted ++ new := by
        rw [hends.sender, hafter.quietly.submitted, ← hbefore.submitted]
        exact hnew.submitted
      rw [Main.bidsOf, hsubmitted, List.drop_left]
    rw [hbids, ← hbefore.bids.countP_eq]
    match hr : r.1 with
    | .error e' =>
      have hraised := (fails_of_update (hends.failures_of_raises htask ⟨e', hr⟩)).2.2 htask
      rw [hraised, hfails, Nat.add_comm]
      exact ⟨Nat.add_le_add_left hnew.once _, le_rfl⟩
    | .ok waits =>
      rw [hnew.returns waits hr, Nat.zero_add, ← hfails]
      exact hends.fails_le

/-- The program ends before a fourth exception. -/
theorem fails_step_le (m : Main S) (e : Event) : (m.step env K e).fails ≤ max m.fails 3 := by
  by_cases hstopped : m.Stopped
  · rw [Main.step, if_pos hstopped]
    exact le_max_left _ _
  have hpending : m.failures .pending < 3 := lt_of_not_ge fun h ↦ hstopped ⟨.pending, h⟩
  have hidle : m.failures .idle < 1 := lt_of_not_ge fun h ↦ hstopped ⟨.idle, h⟩
  have hfails : m.fails ≤ 2 := by
    rw [Main.fails]
    omega
  calc (m.step env K e).fails ≤ m.fails + 1 := (bidsOf_step m e).2
    _ ≤ 3 := Nat.succ_le_succ hfails
    _ ≤ max m.fails 3 := le_max_right _ _

/-- Along every run, the bids and the exceptions before them are three at most. -/
theorem three_bids {L : Type} (env : MainEnv L) {S : Type} (K : StatesClass S) (m : Main S)
    (events : List Event) : m.fails + bidsIn env K m events ≤ max m.fails 3 := by
  induction events generalizing m with
  | nil => exact le_max_left _ _
  | cons e events ih =>
    calc m.fails + (m.bidsOf env K e + bidsIn env K (m.step env K e) events)
        = m.bidsOf env K e + m.fails + bidsIn env K (m.step env K e) events := by omega
      _ ≤ (m.step env K e).fails + bidsIn env K (m.step env K e) events :=
        Nat.add_le_add_right (bidsOf_step m e).1 _
      _ ≤ max (m.step env K e).fails 3 := ih (m.step env K e)
      _ ≤ max m.fails 3 := max_le (fails_step_le m e) (le_max_right _ _)

end Program

end CompoundLiquidation
