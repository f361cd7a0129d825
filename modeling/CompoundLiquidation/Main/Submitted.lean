import CompoundLiquidation.Main.Planned
import Mathlib.Data.Set.List

/-!
# What is submitted

Between the calculation of a health factor and the bundle that goes out, the callbacks of other
tasks may run, and the prices change. All the same, whatever the accounts are asked to sign and
whatever is submitted in a run has plans behind it, all of them on the data that the program had at
one moment of the run. On BSC the accounts sign nothing, since the receiver lacks its prefix, and
only signals are submitted.
-/

namespace CompoundLiquidation

open Python

section Plans

variable {L : Type} {env : MainEnv L} {data : MarketData}

/-- The submission is a single planned transaction, or at most two of them behind a signal. -/
inductive Submission.Planned (env : MainEnv L) (data : MarketData) : Submission → Prop
  | single (plan : SignedPlan env data) (expire : ℤ) :
    Planned env data (.x plan.profit [.bytes plan.signedTxRaw] expire)
  | bundle {rawTx : String} (raw : env.IsRaw rawTx) (plans : List (SignedPlan env data))
    (few : plans.length ≤ 2) (expire : ℤ) :
    Planned env data (.x (bundleProfits (plans.map fun plan ↦ (plan.profit, plan.signedTxRaw)))
      (.text rawTx :: plans.map fun plan ↦ .text (hexBytesHex plan.signedTxRaw)) expire)

/-- The submission is a signal with nothing behind it. -/
inductive Submission.Bare (env : MainEnv L) : Submission → Prop
  | mk {rawTx : String} (raw : env.IsRaw rawTx) (expire : ℤ) : Bare env (.x 0 [.text rawTx] expire)

theorem Submission.Planned.bare (hnet : env.net = .bsc)
    (hchecks : ChecksReceiver env.signTransaction) {submission : Submission}
    (h : submission.Planned env data) : submission.Bare env := by
  have hempty := @isEmpty_signedPlan L env data hnet hchecks
  cases h with
  | single plan expire => exact hempty.elim plan
  | bundle raw plans few expire =>
    cases plans with
    | nil => exact .mk raw expire
    | cons plan plans => exact hempty.elim plan

/-- What accounts have signed of what is built is planned. -/
theorem Asks.exists_signedPlan (hkeyed : PoolsKeyed env.pools)
    {accounts accounts' : List AccCompound} {tasks : List (ℚ × Bytes)}
    (h : Asks (Built env data) env.signTransaction accounts tasks accounts') :
    ∀ task ∈ tasks, ∃ plan : SignedPlan env data, (plan.profit, plan.signedTxRaw) = task := by
  intro task htask
  obtain ⟨p, -, txs, built, nonce, -, hbuilt, -, hsigned⟩ := h.signed task htask
  obtain ⟨plan, rfl, hprofit⟩ := hbuilt.exists_plan hkeyed
  exact ⟨⟨plan, p.1.key, nonce, task.2, hsigned⟩, Prod.ext hprofit rfl⟩

theorem Submission.Carries.planned {tasks : List (ℚ × Bytes)}
    (htasks : ∀ task ∈ tasks, ∃ plan : SignedPlan env data,
      (plan.profit, plan.signedTxRaw) = task) {submission : Submission}
    (h : submission.Carries env.IsRaw tasks) : submission.Planned env data := by
  cases h with
  | single mem expire =>
    obtain ⟨plan, rfl⟩ := htasks _ mem
    exact .single plan expire
  | @bundle rawTx raw best subset few expire =>
    obtain ⟨plans, rfl⟩ : ∃ plans : List (SignedPlan env data),
        plans.map (fun plan ↦ (plan.profit, plan.signedTxRaw)) = best := by
      have hrange : best ∈ {l | ∀ task ∈ l,
          task ∈ Set.range fun plan : SignedPlan env data ↦ (plan.profit, plan.signedTxRaw)} :=
        fun task htask ↦ htasks task (subset htask)
      rwa [← Set.range_list_map] at hrange
    rw [List.length_map] at few
    rw [List.map_map]
    exact .bundle raw plans few expire

end Plans

/-! ## Steps -/

section Steps

variable {L : Type} {env : MainEnv L} {S : Type} {K : StatesClass S}

/-- What an account has been asked for is in its record. -/
theorem Asks.mem_asked {T : TxParams → ℚ → Prop}
    {signTransaction : String → TxParams → Except Error Bytes}
    {accounts accounts' : List AccCompound} {tasks : List (ℚ × Bytes)}
    (h : Asks T signTransaction accounts tasks accounts') {tx : TxParams}
    (htx : tx ∈ accounts'.flatMap AccCompound.asked) :
    tx ∈ accounts.flatMap AccCompound.asked ∨
      ∃ built profit, T built profit ∧ tx = { built with nonce := tx.nonce } := by
  have hasked := h.asked
  clear h
  induction hasked with
  | nil => exact .inl htx
  | @cons acc acc' accounts accounts' hfirst _ ih =>
    rw [List.flatMap_cons, List.mem_append] at htx ⊢
    obtain hhere | hrest := htx
    · obtain ⟨txs, rfl, -, hkind⟩ := hfirst
      obtain hold | hnew := List.mem_append.mp hhere
      · exact .inl (.inl hold)
      · exact .inr (hkind tx hnew)
    · exact (ih hrest).imp_left .inr

variable (env K) in
/-- What has been asked for and submitted in between is planned on the data behind it. -/
structure PlansAll (m m' : Main S) : Prop where
  asked : ∀ tx ∈ m'.asked, tx ∈ m.asked ∨
    ∃ plan : Plan env (m'.marketData K), tx = { plan.tx with nonce := tx.nonce }
  submitted : ∀ submission ∈ m'.sender.submitted, submission ∈ m.sender.submitted ∨
    submission.Planned env (m'.marketData K)

theorem plansAll_step (hkeyed : PoolsKeyed env.pools) (m : Main S) (e : Event) :
    PlansAll env K m (m.step env K e) := by
  by_cases hheader : ∃ node clock message, e = .header node clock message
  · obtain ⟨node, clock, message, rfl⟩ := hheader
    have hasked := (@accounts_header_step L env S K m node clock message).2
    obtain ⟨m₂, hunsent, hends⟩ := @unsent_header_step L env S K m node clock message
    have hsubmitted : (m.step env K (.header node clock message)).sender.submitted
        = m.sender.submitted := by
      rw [hends.sender, hunsent.submitted]
    exact ⟨fun _ htx ↦ .inl (hasked ▸ htx), fun _ hsubmission ↦ .inl (hsubmitted ▸ hsubmission)⟩
  obtain ⟨tasks, hasks, new, hnew, hcarries⟩ := @spends_step L env S K m e
    fun node clock message heq ↦ hheader ⟨node, clock, message, heq⟩
  refine ⟨fun tx htx ↦ ?_, fun submission hsubmission ↦ ?_⟩
  · obtain hold | ⟨built, profit, hbuilt, htx'⟩ := hasks.mem_asked htx
    · exact .inl hold
    · obtain ⟨plan, rfl, -⟩ := hbuilt.exists_plan hkeyed
      exact .inr ⟨plan, htx'⟩
  · rw [hnew] at hsubmission
    obtain hold | hsubmission := List.mem_append.mp hsubmission
    · exact .inl hold
    · exact .inr ((hcarries submission hsubmission).planned (hasks.exists_signedPlan hkeyed))

end Steps

/-! ## Runs -/

/-- In the run everything that the accounts are asked for and everything that is submitted was
planned on the data that the program had at some moment, and on BSC only signals are submitted. -/
structure RunPlanned {L : Type} (env : MainEnv L) {S : Type} (K : StatesClass S) (m : Main S)
    (events : List Event) : Prop where
  asked : ∀ tx ∈ (runFrom (Main.step env K) m events).asked,
    ∃ before after, events = before ++ after ∧
      ∃ plan : Plan env ((runFrom (Main.step env K) m before).marketData K),
        tx = { plan.tx with nonce := tx.nonce }
  submitted : ∀ submission ∈ (runFrom (Main.step env K) m events).sender.submitted,
    ∃ before after, events = before ++ after ∧
      submission.Planned env ((runFrom (Main.step env K) m before).marketData K)
  bare : env.net = .bsc → ChecksReceiver env.signTransaction →
    ∀ submission ∈ (runFrom (Main.step env K) m events).sender.submitted, submission.Bare env

/-- **Everything is planned.** When the pools are the ones of their tokens, everything that the
accounts are asked for and everything that a run submits has a plan behind it. -/
theorem submissions_planned {L : Type} {env : MainEnv L} {S : Type} (K : StatesClass S)
    (hkeyed : PoolsKeyed env.pools) {m : Main S} (hasked : m.asked = [])
    (hsubmitted : m.sender.submitted = []) (events : List Event) : RunPlanned env K m events := by
  suffices hall : (∀ tx ∈ (runFrom (Main.step env K) m events).asked,
        ∃ before after, events = before ++ after ∧
          ∃ plan : Plan env ((runFrom (Main.step env K) m before).marketData K),
            tx = { plan.tx with nonce := tx.nonce }) ∧
      ∀ submission ∈ (runFrom (Main.step env K) m events).sender.submitted,
        ∃ before after, events = before ++ after ∧
          submission.Planned env ((runFrom (Main.step env K) m before).marketData K) by
    refine ⟨hall.1, hall.2, fun hnet hchecks submission hsubmission ↦ ?_⟩
    obtain ⟨before, after, -, hplanned⟩ := hall.2 submission hsubmission
    exact hplanned.bare hnet hchecks
  induction events using List.reverseRecOn with
  | nil =>
    rw [runFrom_nil, hasked, hsubmitted]
    exact ⟨fun _ htx ↦ absurd htx List.not_mem_nil, fun _ hsub ↦ absurd hsub List.not_mem_nil⟩
  | append_singleton events e ih =>
    have hplans := @plansAll_step L env S K hkeyed (runFrom (Main.step env K) m events) e
    rw [← runFrom_concat (Main.step env K)] at hplans
    refine ⟨fun tx htx ↦ ?_, fun submission hsubmission ↦ ?_⟩
    · obtain hold | hnew := hplans.asked tx htx
      · obtain ⟨before, after, heq, hplanned⟩ := ih.1 tx hold
        exact ⟨before, after ++ [e], by rw [heq, List.append_assoc], hplanned⟩
      · exact ⟨events ++ [e], [], (List.append_nil _).symm, hnew⟩
    · obtain hold | hnew := hplans.submitted submission hsubmission
      · obtain ⟨before, after, heq, hplanned⟩ := ih.2 submission hold
        exact ⟨before, after ++ [e], by rw [heq, List.append_assoc], hplanned⟩
      · exact ⟨events ++ [e], [], (List.append_nil _).symm, hnew⟩

private theorem poolsKeyed_risky : PoolsKeyed riskyEnv.pools := by
  intro a b pool hpool
  have hget : (Dict.set ∅ (genPoolKey wbnb usdt).1 (some riskyPool)).get? (genPoolKey a b).1
      = some (some pool) := Option.join_eq_some_iff.mp hpool
  have hsorted : riskyPool.pair = sortedPair wbnb usdt := by decide
  rw [Dict.get?_set] at hget
  split_ifs at hget with hkey
  · obtain rfl := Option.some_inj.mp (Option.some_inj.mp hget)
    rw [hsorted, sortedPair_eq_of_key hkey]
  · cases hget

private theorem asked_risky : (runFrom (Main.step riskyEnv highProfitSates) riskyMain
    [riskySignal, riskySignal, riskySignal]).asked
      = [riskyTx testUser 7, riskyTx testUser' 8] := by
  rw [Main.asked, run_risky.1]
  rfl

private theorem asked_signing : (runFrom (Main.step signingEnv highProfitSates) signingMain
    [signingIdle]).asked
      = [ethereumTx (riskyData testUser) 7, ethereumTx (riskyData testUser') 8] := by
  rw [Main.asked, run_signing.1]
  rfl

/-- On BSC a signal is submitted alone, and on Ethereum a planned transaction. -/
theorem submissions_planned_small :
    (let m' := runFrom (Main.step riskyEnv highProfitSates) riskyMain
      [riskySignal, riskySignal, riskySignal]
    m'.asked = [riskyTx testUser 7, riskyTx testUser' 8] ∧
      m'.sender.submitted = [.x 0 [.text riskyMessage.input] 306] ∧
      (∀ submission ∈ m'.sender.submitted, submission.Bare riskyEnv) ∧
      RunPlanned riskyEnv highProfitSates riskyMain [riskySignal, riskySignal, riskySignal]) ∧
    let m' := runFrom (Main.step signingEnv highProfitSates) signingMain [signingIdle]
    m'.asked = [ethereumTx (riskyData testUser) 7, ethereumTx (riskyData testUser') 8] ∧
      m'.sender.submitted = [.x 200000000000000131072 [.bytes riskySigned'] 360] ∧
      RunPlanned signingEnv highProfitSates signingMain [signingIdle] := by
  have hkeyed : PoolsKeyed signingEnv.pools := poolsKeyed_risky
  have hbsc := submissions_planned highProfitSates poolsKeyed_risky (rfl : riskyMain.asked = [])
    (rfl : riskyMain.sender.submitted = []) [riskySignal, riskySignal, riskySignal]
  have hethereum := submissions_planned highProfitSates hkeyed (rfl : signingMain.asked = [])
    (rfl : signingMain.sender.submitted = []) [signingIdle]
  exact ⟨⟨asked_risky, run_risky.2, hbsc.bare rfl checksReceiver_testSign, hbsc⟩, asked_signing,
    run_signing.2, hethereum⟩

end CompoundLiquidation
