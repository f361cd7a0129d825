import CompoundLiquidation.Main.Bids
import CompoundLiquidation.Main.Served
import CompoundLiquidation.Python.Ledger

/-!
# Nonces

The accounts count their nonces themselves, and only a header asks the node for them. Signals and
idle ticks use the same accounts, some transactions are never sent, and an account may fail to sign
what it is asked for. Still, from one header to the next the nonces that an account is asked for
follow each other, and what is submitted has been signed so.

What an account has been asked for is in its record. A call that sends asks every account for the
transactions it builds, one after the other, until one of them fails.
-/

namespace CompoundLiquidation

open Python

/-! ## Accounts -/

/-- The account when it has been asked for some more transactions. -/
def AccCompound.ask (acc : AccCompound) (txs : List TxParams) : AccCompound :=
  { acc with nonce := acc.nonce + txs.length, asked := acc.asked ++ txs }

theorem AccCompound.ask_nil (acc : AccCompound) : acc.ask [] = acc := by
  rw [ask, List.append_nil, List.length_nil, Nat.cast_zero, add_zero]

theorem AccCompound.ask_append (acc : AccCompound) (txs txs' : List TxParams) :
    (acc.ask txs).ask txs' = acc.ask (txs ++ txs') := by
  rw [ask, ask, ask, List.append_assoc, List.length_append, Nat.cast_add, add_assoc]

/-- The nonces follow each other from this one. -/
def NoncesFrom (nonce : ℤ) (txs : List TxParams) : Prop :=
  txs.map TxParams.nonce = (List.range txs.length).map fun i : ℕ ↦ nonce + i

theorem NoncesFrom.append {nonce : ℤ} {txs txs' : List TxParams} (h : NoncesFrom nonce txs)
    (h' : NoncesFrom (nonce + txs.length) txs') : NoncesFrom nonce (txs ++ txs') := by
  rw [NoncesFrom, List.map_append, h, h', List.length_append, List.range_add, List.map_append,
    List.map_map]
  refine congrArg _ (List.map_congr_left fun i _ ↦ ?_)
  rw [Function.comp_apply, Nat.cast_add, add_assoc]

section Asks

variable {T : TxParams → ℚ → Prop} {signTransaction : String → TxParams → Except Error Bytes}

variable (T) in
/-- The account has been asked for transactions of a kind. -/
def AskedFor (acc acc' : AccCompound) : Prop :=
  ∃ txs, acc' = acc.ask txs ∧ NoncesFrom acc.nonce txs ∧
    ∀ tx ∈ txs, ∃ built profit, T built profit ∧ tx = { built with nonce := tx.nonce }

theorem AskedFor.refl (acc : AccCompound) : AskedFor T acc acc :=
  ⟨[], acc.ask_nil.symm, rfl, nofun⟩

theorem AskedFor.trans (acc acc' acc'' : AccCompound) (h : AskedFor T acc acc')
    (h' : AskedFor T acc' acc'') : AskedFor T acc acc'' := by
  obtain ⟨txs, rfl, hnumbered, hkind⟩ := h
  obtain ⟨txs', rfl, hnumbered', hkind'⟩ := h'
  exact ⟨txs ++ txs', acc.ask_append txs txs', hnumbered.append hnumbered',
    fun tx htx ↦ (List.mem_append.mp htx).elim (hkind tx) (hkind' tx)⟩

variable (T signTransaction) in
/-- The bytes of a task are what the account signed of that. -/
def SignedBy (task : ℚ × Bytes) (acc acc' : AccCompound) : Prop :=
  ∃ txs built nonce, acc' = acc.ask txs ∧ T built task.1 ∧ { built with nonce := nonce } ∈ txs ∧
    signTransaction acc.key { built with nonce := nonce } = .ok task.2

/-- What comes before and behind does not matter. -/
theorem SignedBy.mono {task : ℚ × Bytes} {acc₀ acc acc' acc'' : AccCompound}
    (hbefore : AskedFor T acc₀ acc) (h : SignedBy T signTransaction task acc acc')
    (hbehind : AskedFor T acc' acc'') : SignedBy T signTransaction task acc₀ acc'' := by
  obtain ⟨txs₀, rfl, -⟩ := hbefore
  obtain ⟨txs, built, nonce, rfl, hkind, hmem, hsigned⟩ := h
  obtain ⟨txs', rfl, -⟩ := hbehind
  rw [AccCompound.ask_append, AccCompound.ask_append]
  exact ⟨_, built, nonce, rfl, hkind,
    List.mem_append_right _ (List.mem_append_left _ hmem), hsigned⟩

variable (T signTransaction) in
/-- The accounts have been asked for transactions, and the tasks are what they have signed. -/
structure Asks (accounts : List AccCompound) (tasks : List (ℚ × Bytes))
    (accounts' : List AccCompound) : Prop where
  asked : List.Forall₂ (AskedFor T) accounts accounts'
  signed : ∀ task ∈ tasks, ∃ p ∈ accounts.zip accounts', SignedBy T signTransaction task p.1 p.2

theorem Asks.keys {accounts accounts' : List AccCompound} {tasks : List (ℚ × Bytes)}
    (h : Asks T signTransaction accounts tasks accounts') :
    accounts'.map AccCompound.key = accounts.map AccCompound.key := by
  have hasked := h.asked
  clear h
  induction hasked with
  | nil => rfl
  | cons hfirst _ ih =>
    obtain ⟨txs, rfl, -⟩ := hfirst
    exact congrArg (_ :: ·) ih

theorem Asks.refl (accounts : List AccCompound) : Asks T signTransaction accounts [] accounts :=
  ⟨List.forall₂_same.mpr fun acc _ ↦ .refl acc, nofun⟩

theorem Asks.append (accounts : List AccCompound) (tasks : List (ℚ × Bytes))
    (accounts' : List AccCompound) (tasks' : List (ℚ × Bytes)) (accounts'' : List AccCompound)
    (h : Asks T signTransaction accounts tasks accounts')
    (h' : Asks T signTransaction accounts' tasks' accounts'') :
    Asks T signTransaction accounts (tasks ++ tasks') accounts'' := by
  refine ⟨forall₂_trans AskedFor.trans h.asked h'.asked, fun task htask ↦ ?_⟩
  obtain hfirst | hsecond := List.mem_append.mp htask
  · obtain ⟨⟨acc, acc'⟩, hmem, hsigned⟩ := h.signed task hfirst
    obtain ⟨acc'', hmem', hbehind⟩ := exists_mem_zip_of_before h.asked h'.asked hmem
    exact ⟨(acc, acc''), hmem', hsigned.mono (.refl acc) hbehind⟩
  · obtain ⟨⟨acc', acc''⟩, hmem, hsigned⟩ := h'.signed task hsecond
    obtain ⟨acc, hmem', hbefore⟩ := exists_mem_zip_of_behind h.asked h'.asked hmem
    exact ⟨(acc, acc''), hmem', hsigned.mono hbefore (.refl acc'')⟩

/-- What holds of more transactions. -/
theorem Asks.mono {T' : TxParams → ℚ → Prop} (hT : ∀ tx profit, T tx profit → T' tx profit)
    {accounts accounts' : List AccCompound} {tasks : List (ℚ × Bytes)}
    (h : Asks T signTransaction accounts tasks accounts') :
    Asks T' signTransaction accounts tasks accounts' := by
  have hasked : ∀ acc acc', AskedFor T acc acc' → AskedFor T' acc acc' := by
    rintro acc acc' ⟨txs, heq, hnumbered, hkind⟩
    refine ⟨txs, heq, hnumbered, fun tx htx ↦ ?_⟩
    obtain ⟨built, profit, hbuilt, htx'⟩ := hkind tx htx
    exact ⟨built, profit, hT built profit hbuilt, htx'⟩
  refine ⟨h.asked.imp hasked, fun task htask ↦ ?_⟩
  obtain ⟨p, hp, txs, built, nonce, heq, hbuilt, hsigned⟩ := h.signed task htask
  exact ⟨p, hp, txs, built, nonce, heq, hT built task.1 hbuilt, hsigned⟩

/-- The first account has been asked for one transaction, and signed it or failed. -/
theorem asks_first {tx : TxParams} {profit : ℚ} (hT : T tx profit) (acc : AccCompound)
    {accounts accounts' : List AccCompound} {tasks : List (ℚ × Bytes)}
    (h : Asks T signTransaction accounts tasks accounts') (raws : List Bytes)
    (hraws : ∀ raw ∈ raws, signTransaction acc.key { tx with nonce := acc.nonce } = .ok raw) :
    Asks T signTransaction (acc :: accounts) (raws.map (profit, ·) ++ tasks)
      (acc.ask [{ tx with nonce := acc.nonce }] :: accounts') := by
  have hasked : AskedFor T acc (acc.ask [{ tx with nonce := acc.nonce }]) := by
    refine ⟨_, rfl, ?_, List.forall_mem_singleton.mpr ⟨tx, profit, hT, rfl⟩⟩
    rw [NoncesFrom, List.map_singleton, List.length_singleton, List.range_one, List.map_singleton,
      Nat.cast_zero, add_zero]
  refine ⟨.cons hasked h.asked, fun task htask ↦ ?_⟩
  rw [List.zip_cons_cons]
  obtain hfirst | hrest := List.mem_append.mp htask
  · obtain ⟨raw, hraw, rfl⟩ := List.mem_map.mp hfirst
    exact ⟨_, List.mem_cons_self, _, tx, acc.nonce, rfl, hT, List.mem_singleton_self _,
      hraws raw hraw⟩
  · obtain ⟨p, hp, hsigned⟩ := h.signed task hrest
    exact ⟨p, List.mem_cons_of_mem _ hp, hsigned⟩

/-! ## From the accounts to the tasks -/

/-- The ledger has the tasks. -/
def Recorded (tasks : List SendResult) (ledger : List (ℚ × Bytes)) : Prop :=
  tasks.map profitAndTx ⊆ ledger

theorem run_signSendingTxToTasks_cons (index : String) (tx : TxParams) (profit : ℚ)
    (acc : AccCompound) (accounts : List AccCompound) :
    Proc.run (signSendingTxToTasks signTransaction index tx profit) (acc :: accounts)
      = match signTransaction acc.key { tx with nonce := acc.nonce } with
        | .error e => (.error e, acc.ask [{ tx with nonce := acc.nonce }] :: accounts)
        | .ok raw =>
          let r := Proc.run (signSendingTxToTasks signTransaction index tx profit) accounts
          (r.1.map (⟨index, raw, profit⟩ :: ·),
            acc.ask [{ tx with nonce := acc.nonce }] :: r.2) := rfl

theorem writes_signSendingTxToTasks (index : String) {tx : TxParams} {profit : ℚ}
    (hT : T tx profit) : Proc.Writes (Asks T signTransaction) Recorded
      (signSendingTxToTasks signTransaction index tx profit) := by
  intro accounts
  induction accounts with
  | nil =>
    refine ⟨[], .refl [], fun tasks h ↦ ?_⟩
    rw [← Except.ok.inj h]
    exact List.Subset.refl []
  | cons acc accounts ih =>
    obtain ⟨ledger, hasks, hrecorded⟩ := ih
    rw [run_signSendingTxToTasks_cons]
    rcases hsign : signTransaction acc.key { tx with nonce := acc.nonce } with e | raw
    · exact ⟨[], asks_first hT acc (.refl accounts) [] nofun, nofun⟩
    refine ⟨(profit, raw) :: ledger, asks_first hT acc hasks [raw]
      (List.forall_mem_singleton.mpr hsign), fun tasks htasks ↦ ?_⟩
    dsimp only at htasks
    rcases hrest : (Proc.run (signSendingTxToTasks signTransaction index tx profit) accounts).1
      with e | coroutines
    · rw [hrest] at htasks
      cases htasks
    · rw [hrest] at htasks
      rw [← Except.ok.inj htasks]
      exact List.cons_subset_cons _ (hrecorded coroutines hrest)

theorem LiqCall.writes_start {env : LiqEnv} {call : LiqCall}
    (hT : ∀ tx profit, call.Builds env tx profit → T tx profit) :
    Proc.Writes (fun s ledger s' ↦ Asks T env.signTransaction s.accounts ledger s'.accounts)
      Recorded (call.start env) := by
  have htrans : ∀ (s : Liquidator) (l : List (ℚ × Bytes)) (t : Liquidator) (l' : List (ℚ × Bytes))
      (u : Liquidator), Asks T env.signTransaction s.accounts l t.accounts →
        Asks T env.signTransaction t.accounts l' u.accounts →
          Asks T env.signTransaction s.accounts (l ++ l') u.accounts :=
    fun _ _ _ _ _ ↦ Asks.append _ _ _ _ _
  rw [LiqCall.start]
  refine Proc.writes_after htrans (fun s ↦ ?_) fun res _ _ _ ↦ ?_
  · dsimp only
    rw [accounts_isUserLiquidated]
    exact .refl s.accounts
  have hnone : Recorded [] [] := List.Subset.refl []
  refine Proc.writes_ite (fun _ ↦ Proc.writes_pure (fun s ↦ .refl s.accounts) hnone) fun _ ↦ ?_
  refine Proc.writes_after htrans (fun s ↦ .refl s.accounts) fun transaction s s' htransaction ↦ ?_
  obtain _ | ⟨tx, profit⟩ := transaction
  · exact Proc.writes_pure (fun s ↦ .refl s.accounts) hnone
  refine Proc.writes_after htrans (fun s ↦ .refl s.accounts) fun _ _ _ _ ↦ ?_
  have hbuilds := LiqCall.transaction_eq_some_iff.mp (Prod.mk.inj htransaction).1
  exact Proc.writes_zoom Liquidator.accounts _ (fun _ _ _ h ↦ h)
    (writes_signSendingTxToTasks call.index (hT tx profit hbuilds))

theorem writes_signalSimulateHealthFactor {L : Type} {env : SignalEnv L}
    {results : List SimResult}
    (hT : ∀ res ∈ results, ∀ call s s', (signalCall env res).run s = (.ok (some call), s') →
      ∀ tx profit, call.Builds env.toLiqEnv tx profit → T tx profit) :
    Proc.Writes (fun s ledger s' ↦ Asks T env.signTransaction s.accounts ledger s'.accounts)
      Recorded (signalSimulateHealthFactor env results) := by
  have htrans : ∀ (s : SignalState) (l : List (ℚ × Bytes)) (t : SignalState)
      (l' : List (ℚ × Bytes)) (u : SignalState),
        Asks T env.signTransaction s.accounts l t.accounts →
          Asks T env.signTransaction t.accounts l' u.accounts →
            Asks T env.signTransaction s.accounts (l ++ l') u.accounts :=
    fun _ _ _ _ _ ↦ Asks.append _ _ _ _ _
  induction results with
  | nil => exact Proc.writes_pure (fun s ↦ .refl s.accounts) nofun
  | cons res results ih =>
    have hbody : Proc.Writes (fun s ledger s' ↦ Asks T env.signTransaction s.accounts ledger
        s'.accounts) Recorded (signalBody env res) := by
      refine Proc.writes_after htrans (fun s ↦ .refl s.accounts) fun call s s' hcall ↦ ?_
      obtain _ | call := call
      · exact Proc.writes_pure (fun s ↦ .refl s.accounts) nofun
      · obtain ⟨hcall, -⟩ := Prod.mk.inj hcall
        exact Proc.writes_zoom SignalState.toLiquidator _ (fun _ _ _ h ↦ h)
          (call.writes_start (hT res List.mem_cons_self call _ _ (Prod.ext hcall rfl)))
    rw [signalSimulateHealthFactor]
    refine Proc.writes_bind htrans hbody fun tasks l htasks ↦ ?_
    refine Proc.writes_bind htrans (ih fun r hr ↦ hT r (List.mem_cons_of_mem res hr))
      fun rest l' hrest ↦ ?_
    refine Proc.writes_pure (fun s ↦ .refl s.accounts) fun task htask ↦ ?_
    rw [List.append_nil, List.mem_append]
    rw [List.map_append, List.mem_append] at htask
    exact htask.imp (fun h ↦ htasks h) fun h ↦ hrest h

end Asks

/-! ## Steps -/

section Program

variable {L : Type} {env : MainEnv L} {S : Type} {K : StatesClass S}

variable (env) in
/-- The transaction is built for a liquidation that `signal_simulate_health_factor` starts on this
data, and has this profit. -/
def Built (data : MarketData) (tx : TxParams) (profit : ℚ) : Prop :=
  ∃ (res : HfResult) (uniqueId : String) (sig : Option SignalInfos) (call : LiqCall)
      (s s' : List Token),
    IsCalculated data res ∧ (sig = none ∨ sig = data.signalRecv) ∧
      (signalCall (data.signalEnv env sig) ⟨res.1, res.2.1, res.2.2, uniqueId⟩).run s
        = (.ok (some call), s') ∧
      call.Builds env.toLiqEnv tx profit

variable (env) in
/-- The accounts have been asked, and what has been submitted is what they have signed. -/
structure Spends (T : TxParams → ℚ → Prop) (m : Main S) (tasks : List (ℚ × Bytes))
    (m' : Main S) : Prop where
  asks : Asks T env.signTransaction m.trading.accounts tasks m'.trading.accounts
  submitted : ∃ new, m'.sender.submitted = m.sender.submitted ++ new ∧
    ∀ submission ∈ new, submission.Carries env.IsRaw tasks

theorem Submission.Carries.mono {IsRaw : String → Prop} {tasks tasks' : List (ℚ × Bytes)}
    (h : tasks ⊆ tasks') {submission : Submission} (hcarries : submission.Carries IsRaw tasks) :
    submission.Carries IsRaw tasks' := by
  cases hcarries with
  | single mem expire => exact .single (h mem) expire
  | bundle raw subset few expire => exact .bundle raw (List.Subset.trans subset h) few expire

section Spends

variable {T : TxParams → ℚ → Prop} {m m' m'' : Main S} {tasks tasks' : List (ℚ × Bytes)}

theorem Spends.refl (m : Main S) : Spends env T m [] m :=
  ⟨.refl _, [], (List.append_nil _).symm, nofun⟩

theorem Spends.append (h : Spends env T m tasks m') (h' : Spends env T m' tasks' m'') :
    Spends env T m (tasks ++ tasks') m'' := by
  obtain ⟨new, hnew, hcarries⟩ := h.submitted
  obtain ⟨new', hnew', hcarries'⟩ := h'.submitted
  refine ⟨h.asks.append _ _ _ _ _ h'.asks, new ++ new', ?_, fun submission hsubmission ↦ ?_⟩
  · rw [hnew', hnew, List.append_assoc]
  obtain hfirst | hsecond := List.mem_append.mp hsubmission
  · exact (hcarries submission hfirst).mono (List.subset_append_left _ _)
  · exact (hcarries' submission hsecond).mono (List.subset_append_right _ _)

theorem Spends.mono {T' : TxParams → ℚ → Prop} (hT : ∀ tx profit, T tx profit → T' tx profit)
    (h : Spends env T m tasks m') : Spends env T' m tasks m' := ⟨h.asks.mono hT, h.submitted⟩

theorem Quietly.spends (h : Quietly m m') : Spends env T m [] m' := by
  refine ⟨?_, [], ?_, nofun⟩
  · rw [h.accounts]
    exact .refl _
  · rw [h.submitted, List.append_nil]

theorem Ends.spends {task : TaskName} {p : Prop} (h : Ends env task p m m') :
    Spends env T m [] m' := by
  refine ⟨?_, [], ?_, nofun⟩
  · rw [h.trading]
    exact .refl _
  · rw [h.sender, List.append_nil]

end Spends

theorem Sends.spends {m : Main S} {r : Except Error Bool × Main S} (h : Sends env K m r) :
    (∃ tasks, Spends env (Built env (m.marketData K)) m tasks r.2) ∧
      r.2.marketData K = m.marketData K := by
  obtain ⟨uniqueId, results, sig, new, hcalculated, hsig, hdelivers⟩ := h.delivers
  refine ⟨?_, hdelivers.marketData⟩
  have hbuilt : ∀ res ∈ results.map (fun res ↦ SimResult.mk res.1 res.2.1 res.2.2 (uniqueId res.1)),
      ∀ call s s', (signalCall ((m.marketData K).signalEnv env sig) res).run s
          = (.ok (some call), s') →
        ∀ tx profit, call.Builds env.toLiqEnv tx profit →
          Built env (m.marketData K) tx profit := by
    intro res hres call s s' hcall tx profit hbuilds
    obtain ⟨result, hresult, rfl⟩ := List.mem_map.mp hres
    exact ⟨result, _, sig, call, s, s', hcalculated result hresult, hsig, hcall, hbuilds⟩
  obtain ⟨ledger, hasks, hrecorded⟩ := writes_signalSimulateHealthFactor hbuilt m.trading
  refine ⟨ledger, ?_, new, hdelivers.relays.submitted, fun submission hsubmission ↦ ?_⟩
  · rw [hdelivers.trading]
    exact hasks
  · obtain ⟨tasks, htasks, hcarries⟩ := hdelivers.carries submission hsubmission
    exact hcarries.mono (hrecorded tasks htasks)

theorem Ends.marketData {task : TaskName} {p : Prop} {m m' : Main S} (h : Ends env task p m m') :
    m'.marketData K = m.marketData K := by
  obtain ⟨rfl, -⟩ | ⟨e, rfl⟩ := h
  · rfl
  · rw [Main.fail]
    split_ifs
    · rfl
    · rfl

/-- What is asked for in a step is built on the data that the program has behind it. -/
theorem spends_step (m : Main S) {e : Event}
    (hheader : ∀ node clock message, e ≠ .header node clock message) :
    ∃ tasks, Spends env (Built env ((m.step env K e).marketData K)) m tasks (m.step env K e) := by
  cases @sendsOnce_step L env S K m e hheader with
  | quiet hquiet hends => exact ⟨_, hquiet.spends.append hends.spends⟩
  | sends _ hbefore hsends hafter hends =>
    obtain ⟨⟨tasks, hspends⟩, hdata⟩ := hsends.spends
    rw [hends.marketData, hafter.marketData, hdata]
    exact ⟨_, hbefore.spends.append (hspends.append (hafter.quietly.spends.append hends.spends))⟩

/-- The keys of the accounts. -/
def Main.accountKeys (m : Main S) : List String := m.trading.accounts.map AccCompound.key

/-- What the accounts have been asked for. -/
def Main.asked (m : Main S) : List TxParams := m.trading.accounts.flatMap AccCompound.asked

/-- A header only replaces nonces. -/
theorem resetNonces_eq (node : HeaderNode) (accounts : List AccCompound) :
    (resetNonces env node accounts).2.map AccCompound.key = accounts.map AccCompound.key ∧
      (resetNonces env node accounts).2.flatMap AccCompound.asked
        = accounts.flatMap AccCompound.asked := by
  induction accounts with
  | nil => exact ⟨rfl, rfl⟩
  | cons acc accounts ih =>
    rw [resetNonces]
    rcases node.getTransactionCount (env.address acc.key) with e | count
    · exact ⟨rfl, rfl⟩
    · exact ⟨congrArg (acc.key :: ·) ih.1, congrArg (acc.asked ++ ·) ih.2⟩

theorem accounts_header_step (m : Main S) (node : HeaderNode) (clock : String → ℤ)
    (message : Option BlockHeader) :
    (m.step env K (.header node clock message)).accountKeys = m.accountKeys ∧
      (m.step env K (.header node clock message)).asked = m.asked := by
  let R : Main S → Main S → Prop := fun m m' ↦
    m'.accountKeys = m.accountKeys ∧ m'.asked = m.asked
  have hrefl : ∀ m : Main S, R m m := fun _ ↦ ⟨rfl, rfl⟩
  have hmessage : Proc.Keeps R (onMessage env K node clock message) :=
    keeps_onMessage (Q := fun _ _ ↦ True) (fun _ ↦ trivial) (fun _ _ _ _ _ ↦ trivial)
      (fun _ _ _ ↦ trivial) hrefl
      (fun _ _ _ h h' ↦ ⟨h'.1.trans h.1, h'.2.trans h.2⟩) (fun _ _ _ ↦ ⟨rfl, rfl⟩)
      (fun _ _ ↦ ⟨rfl, rfl⟩) (fun m ↦ resetNonces_eq node m.trading.accounts)
      (fun _ _ ↦ ⟨rfl, rfl⟩) clock message
  rw [Main.step]
  split_ifs
  · exact hrefl m
  · have hends := @ends_perform L env S .header (onMessage env K node clock message) m
    rw [Main.handle, Main.accountKeys, Main.asked, hends.trading]
    exact hmessage m

theorem accountKeys_step (m : Main S) (e : Event) :
    (m.step env K e).accountKeys = m.accountKeys := by
  by_cases hheader : ∃ node clock message, e = .header node clock message
  · obtain ⟨node, clock, message, rfl⟩ := hheader
    exact (accounts_header_step m node clock message).1
  · obtain ⟨tasks, hspends⟩ := @spends_step L env S K m e fun node clock message heq ↦
      hheader ⟨node, clock, message, heq⟩
    exact hspends.asks.keys

theorem accountKeys_run (m : Main S) (events : List Event) :
    (runFrom (Main.step env K) m events).accountKeys = m.accountKeys := by
  induction events generalizing m with
  | nil => rfl
  | cons e events ih => exact (ih (m.step env K e)).trans (accountKeys_step m e)

end Program

/-! ## A receiver that is refused -/

/-- A liquidation up to the signing, by accounts that are there. -/
theorem LiqCall.run_start_of_refused {env : LiqEnv} {call : LiqCall} {l : Liquidator}
    (hnew : l.record? call.usr call.liqPair.debtCtoken = none) {tx : TxParams} {profit : ℚ}
    (hbuilds : call.Builds env tx profit) {acc : AccCompound} {accounts : List AccCompound}
    (haccounts : l.accounts = acc :: accounts) {e : Error}
    (hsign : env.signTransaction acc.key { tx with nonce := acc.nonce } = .error e) :
    let tried := l.setUserLiquidated call.index call.usr call.liqPair.debtCtoken
      call.liqPair.repayAmount
    (call.start env).run l = (.error e,
      { tried with accounts := acc.ask [{ tx with nonce := acc.nonce }] :: accounts }) := by
  rw [call.run_start, run_isUserLiquidated, hnew]
  simp only [LiqCall.transaction_eq_some_iff.mpr hbuilds, haccounts, signSendingTxToTasks, hsign]
  rfl

/-- A position that is at risk with BNB at 250 dollars, and not with BNB at 300 dollars. -/
def riskyPosition : Dict String CompReserve :=
  (Dict.set ∅ vBNB ⟨180 * 10 ^ 18, 1, 0, 0⟩).set vUSDT ⟨0, 0, 4 * 10 ^ 22, 10 ^ 18⟩

def riskyHealth : HealthFactor := ⟨toFloat (9 / 10), 4 * 10 ^ 22, 300⟩

/-- The aggregator of BNB. -/
def riskyAggr : String := "0x137924d7c36816e0dcaf016eb617cc2c92c05782"

def riskyPool : Pool Unit :=
  ⟨(usdt.text, wbnb.text), "0x16b9a82891338f9bA80E2D6970FddA79D1eb0daE", (), 25⟩

/-- The surroundings on BSC, with one pool. -/
def riskyEnv : MainEnv Unit :=
  { smallEnv with
    reservesInit := [vBNB, vUSDT]
    underlying := fun token ↦ if token = vBNB then wbnb else usdt
    pools := Dict.set ∅ (genPoolKey wbnb usdt).1 (some riskyPool)
    swapFunc := fun _ amountOut _ ↦ .ok (amountOut / 250) }

def riskyKey : String := "4646464646464646464646464646464646464646464646464646464646464646"

def riskyKey' : String := "4747474747474747474747474747474747474747474747474747474747474747"

/-- Two users with this position, and BNB at this price. -/
def riskyStart (bnbPrice : ℤ) : Globals HighProfitSates where
  states := .new (.new
    ((Dict.set ∅ testUser ⟨riskyPosition, smallHealth, 0⟩).set testUser'
      ⟨riskyPosition, smallHealth, 0⟩)
    ((Dict.set ∅ vBNB (marketAt bnbPrice)).set vUSDT (marketAt (10 ^ 18))) 100 "") 0
  comet := ⟨11 * 10 ^ 17, 5 * 10 ^ 17, (Dict.set ∅ vBNB (8 * 10 ^ 17)).set vUSDT (8 * 10 ^ 17), 0⟩
  signals := .init (Dict.set ∅ riskyAggr [⟨vBNB, ["BNB", "USD"], 8⟩])
  usersPreFiltered := Dict.set ∅ riskyAggr [testUser, testUser']

/-- Two accounts, and BNB at 300 dollars. -/
def riskyMain : Main HighProfitSates :=
  { smallMain with
    globals := riskyStart (300 * 10 ^ 18)
    trading := ⟨⟨∅, [⟨riskyKey, 7, []⟩, ⟨riskyKey', 5, []⟩]⟩, []⟩ }

/-- BNB at 250 dollars. -/
def riskyMessage : PendingTx := ⟨transmitOf 25000000000, "0x0", none, ∅⟩

def riskySignal : Event := .signal ⟨fun _ ↦ 300, fun _ ↦ 300⟩ id riskyMessage

/-- What is recorded of the signal. -/
def riskyInfos : SignalInfos := ⟨⟨riskyMessage.input⟩, 100, 5000000000⟩

/-- The globals with the signal's epoch. -/
def riskyStamped (g : Globals HighProfitSates) : Globals HighProfitSates :=
  { g with signals := g.signals.setEpoch riskyAggr (epochOfCtx 5) }

/-- The new price in these globals. -/
def riskyPriced (g : Globals HighProfitSates) :
    Except Error (List String × ℚ) × Globals HighProfitSates :=
  (onMarkets riskyEnv highProfitSates (priceLoop .compVenues (fun _ ↦ 300)
    [⟨vBNB, 25000000000, 8⟩] [] 0)).run (riskyStamped g)

/-- The globals when so many signals have been handled. -/
def riskyGlobals : ℕ → Globals HighProfitSates
  | 0 => riskyMain.globals
  | k + 1 => (riskyPriced (riskyGlobals k)).2

/-- The program then. -/
def riskyAt (k : ℕ) (trading : SignalState) (signalRecv : Option SignalInfos)
    (failures : TaskName → ℕ) : Main HighProfitSates :=
  { riskyMain with
    globals := riskyGlobals k
    trading := trading
    signalRecv := signalRecv
    failures := failures }

/-- What a signal is handled with. -/
def riskyArgs (k : ℕ) : SignalEnv Unit :=
  riskyEnv.signalEnv (riskyGlobals k).states.toStates.ctokens (riskyGlobals k).comet
    ⟨0, 5000000000⟩ (some riskyInfos)

/-- The pair of each user. -/
def riskyPair : LiqPairFull := ⟨⟨10 ^ 21, vBNB, vUSDT, 2 * 10 ^ 22⟩, 84 * 10 ^ 18⟩

def riskyPath : Path :=
  ⟨riskyPool.poolAddr, riskyPool.fee, 0, usdt.text, wbnb.text, 2 * 10 ^ 22⟩

def riskyCall (args : SignalEnv Unit) (usr : String) : LiqCall where
  index := usr
  usr := usr
  ctk := fullInfos args.ctk
  blockInfos := args.blockInfos
  paths := [riskyPath]
  liqPair := riskyPair.toLiqPair
  sigGasPrice := args.sigGasPrice
  sendType := args.sendType

def riskyData (usr : String) : Bytes := swapData usr vUSDT vBNB [riskyPath]

/-- What the accounts are asked for. -/
def riskyTx (usr : String) (nonce : ℤ) : TxParams where
  fees := .type0 5000000000
  data := riskyData usr
  toAddr := strFrom "0x57e0148EBA3eaB22295d668757BBF41a338E9bca" 2
  chainId := 56
  nonce := nonce

private def riskyResults : List HfResult :=
  [(testUser, riskyHealth, riskyPosition), (testUser', riskyHealth, riskyPosition)]

/-- The simulation finds the pair and its path. -/
def FindsPair (args : SignalEnv Unit) : Prop :=
  liquidationSimulation riskyPosition (simulationInfos args.ctk) args.comet
      = .ok (Dict.set ∅ vUSDT [riskyPair]) ∧
    (profitSimulation args (Dict.set ∅ vUSDT [riskyPair])).run []
      = (.ok (some (riskyPair, [riskyPath])), [])

instance : DecidablePred FindsPair := fun _ ↦ inferInstanceAs (Decidable (_ ∧ _))

private theorem riskyGlobals_liquidations : ∀ k ∈ [1, 2, 3],
    FindsPair (riskyArgs k) ∧ testSendType.price .bsc .venus (fullInfos (riskyArgs k).ctk)
      = .ok 24999999999999997902848 := by
  decide +kernel

private theorem riskyGlobals_signals : ∀ k ∈ [0, 1, 2],
    (riskyStamped (riskyGlobals k)).signals.noName riskyAggr 25000000000
        = .ok ([⟨vBNB, 25000000000, 8⟩], riskyAggr) ∧
      (riskyGlobals k).signals.localEpoch riskyAggr ≤ epochOfCtx 5 := by
  decide

private theorem riskyGlobals_prices : ∀ k ∈ [0, 1, 2],
    (riskyPriced (riskyGlobals k)).1.toBool = true ∧
      (riskyGlobals (k + 1)).usersPreFiltered.getD riskyAggr [] = [testUser, testUser'] ∧
      healthFactors (fun _ ↦ 300) (riskyGlobals (k + 1)).comet
          (riskyGlobals (k + 1)).states.toStates [testUser, testUser'] = .ok riskyResults := by
  decide +kernel

/-- The numbers of a liquidation, of a second one, and of the signal. -/
private theorem risky_numbers :
    (0 < toFloat (9 / 10) ∧ toFloat (9 / 10) < 1) ∧
      testSendType.createLiqTransaction .bsc (10 ^ 21) ⟨0, 5000000000⟩ (some 5000000000)
        = .ok ({ fees := .type0 5000000000 }, 5000000000) ∧
      trueDiv 5000000000 (10 ^ 18) = .ok (toFloat (5 / 10 ^ 9)) ∧
      8125 * 10 ^ 17 = toFloat (toFloat (10 ^ 21 : ℤ) - toFloat (toFloat (
        toFloat (5 / 10 ^ 9) * toFloat (1500000 : ℤ)) * 24999999999999997902848)) ∧
      sameDebt (2 * 10 ^ 22) (2 * 10 ^ 22) = .ok true ∧
      gasFeeOf riskyMessage = .ok 5000000000 ∧ riskyMain.sender.Underbids 0 := by
  decide +kernel

private def riskyResult (usr : String) : SimResult := ⟨usr, riskyHealth, riskyPosition, usr⟩

private theorem signalCall_risky {args : SignalEnv Unit} (h : FindsPair args) (usr : String) :
    (signalCall args (riskyResult usr)).run []
      = (.ok (some (riskyCall args usr)), []) := by
  obtain ⟨hpairs, hselected⟩ := h
  have henough : ¬ riskyPair.profit < desiredProfitScale := by decide
  rw [@run_signalCall _ _ (riskyResult usr) risky_numbers.1 _ hpairs _ _ _ _ rfl [],
    if_neg henough, callFor, Proc.run_bind, hselected]
  simp only [if_neg henough]
  rfl

private theorem bytesFromPrefixed_risky {usr : String} (husr : IsAddress usr) :
    bytesFromPrefixed (BSCVenusPancakeV2.gen usr vUSDT vBNB [riskyPath])
      = .ok (riskyData usr) := by
  refine bytesFromPrefixed_gen husr (by decide) (by decide)
    (List.forall_mem_singleton.mpr ?_) (by decide : 1 < 2 ^ 256)
  exact ⟨by decide, by decide, by decide, by decide, by decide, by decide, by decide, by decide⟩

private theorem builds_risky {k : ℕ} (hk : k ∈ [1, 2, 3]) {usr : String} (husr : IsAddress usr) :
    (riskyCall (riskyArgs k) usr).Builds testLiqEnv (riskyTx usr 0) (8125 * 10 ^ 17) := by
  obtain ⟨-, hprice⟩ := riskyGlobals_liquidations k hk
  obtain ⟨-, hcreate, hgas, hprofit, -⟩ := risky_numbers
  exact ⟨_, _, _, _, _, _, _, hcreate, hprice, hgas, hprofit, by norm_num,
    List.cons_ne_nil _ _, bytesFromPrefixed_risky husr, rfl, rfl, rfl⟩

/-- The first account is asked, and the library raises. -/
private theorem run_start_new {k : ℕ} (hk : k ∈ [1, 2, 3]) {usr : String} (husr : IsAddress usr)
    {l : Liquidator} (hnew : l.record? usr vUSDT = none) {acc : AccCompound}
    {accounts : List AccCompound} (haccounts : l.accounts = acc :: accounts) :
    ∃ l', ((riskyCall (riskyArgs k) usr).start testLiqEnv).run l = (.error .typeError, l') ∧
      l'.accounts = acc.ask [riskyTx usr acc.nonce] :: accounts ∧
      ∀ u d, l'.record? u d
        = if u = usr ∧ d = vUSDT then some (2 * 10 ^ 22, usr) else l.record? u d := by
  have hbuilds := builds_risky hk husr
  have hsign : testLiqEnv.signTransaction acc.key { riskyTx usr 0 with nonce := acc.nonce }
      = .error .typeError := checksReceiver_testSign acc.key _ (hbuilds.not_isReceiver rfl)
  exact ⟨_, LiqCall.run_start_of_refused hnew hbuilds haccounts hsign, rfl, fun u d ↦
    Liquidator.record?_setUserLiquidated usr usr vUSDT (2 * 10 ^ 22) l u d⟩

/-- What has been tried once is not tried again. -/
private theorem run_start_old (k : ℕ) {usr : String} {l : Liquidator}
    (hold : l.record? usr vUSDT = some (2 * 10 ^ 22, usr)) :
    ((riskyCall (riskyArgs k) usr).start testLiqEnv).run l = (.ok [], l) := by
  obtain ⟨-, -, -, -, hsame, -⟩ := risky_numbers
  exact LiqCall.run_start_of_liquidated hold hsame

private theorem run_signalBody_risky {args : SignalEnv Unit} (h : FindsPair args) (usr : String)
    {t : SignalState} (hrouts : t.routTokens = []) :
    (signalBody args (riskyResult usr)).run t
      = ((((riskyCall args usr).start args.toLiqEnv).run t.toLiquidator).1,
        ⟨(((riskyCall args usr).start args.toLiqEnv).run t.toLiquidator).2, []⟩) := by
  have hcall := signalCall_risky h usr
  rw [← hrouts] at hcall
  rw [run_signalBody hcall, hrouts]

private theorem run_signalBody_new {k : ℕ} (hk : k ∈ [1, 2, 3]) {usr : String}
    (husr : IsAddress usr) {t : SignalState} (hrouts : t.routTokens = [])
    (hnew : t.record? usr vUSDT = none) {acc : AccCompound} {accounts : List AccCompound}
    (haccounts : t.accounts = acc :: accounts) :
    ∃ t', (signalBody (riskyArgs k) (riskyResult usr)).run t = (.error .typeError, t') ∧
      t'.routTokens = [] ∧ t'.accounts = acc.ask [riskyTx usr acc.nonce] :: accounts ∧
      ∀ u d, t'.record? u d
        = if u = usr ∧ d = vUSDT then some (2 * 10 ^ 22, usr) else t.record? u d := by
  have henv : (riskyArgs k).toLiqEnv = testLiqEnv := rfl
  obtain ⟨l', hstart, hasked, hrecord⟩ := run_start_new hk husr hnew haccounts
  have hbody := run_signalBody_risky (riskyGlobals_liquidations k hk).1 usr hrouts
  rw [henv, hstart] at hbody
  exact ⟨_, hbody, rfl, hasked, hrecord⟩

private theorem run_signalBody_old {k : ℕ} (hk : k ∈ [1, 2, 3]) {usr : String} {t : SignalState}
    (hrouts : t.routTokens = []) (hold : t.record? usr vUSDT = some (2 * 10 ^ 22, usr)) :
    (signalBody (riskyArgs k) (riskyResult usr)).run t = (.ok [], t) := by
  have henv : (riskyArgs k).toLiqEnv = testLiqEnv := rfl
  rw [run_signalBody_risky (riskyGlobals_liquidations k hk).1 usr hrouts, henv,
    run_start_old k hold, ← hrouts]

/-- The simulation of both users, in the states of the three signals. -/
private theorem run_signalSimulate_risky : ∃ t₁ t₂,
    (signalSimulateHealthFactor (riskyArgs 1) [riskyResult testUser, riskyResult testUser']).run
      riskyMain.trading = (.error .typeError, t₁) ∧
    (signalSimulateHealthFactor (riskyArgs 2) [riskyResult testUser, riskyResult testUser']).run t₁
      = (.error .typeError, t₂) ∧
    (signalSimulateHealthFactor (riskyArgs 3) [riskyResult testUser, riskyResult testUser']).run t₂
      = (.ok [], t₂) ∧
    t₂.accounts
      = [⟨riskyKey, 9, [riskyTx testUser 7, riskyTx testUser' 8]⟩, ⟨riskyKey', 5, []⟩] := by
  have haddress : IsAddress testUser' := by decide
  have hother : testUser' ≠ testUser := by decide
  have hfirst : ∀ u d, riskyMain.trading.record? u d = none := fun _ _ ↦ rfl
  obtain ⟨t₁, hrun₁, hrouts₁, haccounts₁, hrecord₁⟩ := run_signalBody_new
    (by decide : 1 ∈ [1, 2, 3]) isAddress_testUser rfl (hfirst testUser vUSDT) rfl
  have hnew : t₁.record? testUser' vUSDT = none := by
    rw [hrecord₁, if_neg fun h ↦ hother h.1, hfirst]
  have hold₁ : t₁.record? testUser vUSDT = some (2 * 10 ^ 22, testUser) := by
    rw [hrecord₁, if_pos ⟨rfl, rfl⟩]
  obtain ⟨t₂, hrun₂, hrouts₂, haccounts₂, hrecord₂⟩ :=
    run_signalBody_new (by decide : 2 ∈ [1, 2, 3]) haddress hrouts₁ hnew haccounts₁
  have hold₂ : t₂.record? testUser vUSDT = some (2 * 10 ^ 22, testUser) := by
    rw [hrecord₂, if_neg fun h ↦ hother h.1.symm, hold₁]
  have hold₂' : t₂.record? testUser' vUSDT = some (2 * 10 ^ 22, testUser') := by
    rw [hrecord₂, if_pos ⟨rfl, rfl⟩]
  refine ⟨t₁, t₂, ?_, ?_, ?_, haccounts₂⟩
  · rw [signalSimulateHealthFactor, Proc.run_bind_of_error hrun₁]
  · rw [signalSimulateHealthFactor,
      Proc.run_bind_of_ok (run_signalBody_old (by decide) hrouts₁ hold₁), Proc.run_bind,
      signalSimulateHealthFactor, Proc.run_bind_of_error hrun₂]
  · rw [signalSimulateHealthFactor,
      Proc.run_bind_of_ok (run_signalBody_old (by decide) hrouts₂ hold₂), Proc.run_bind,
      signalSimulateHealthFactor,
      Proc.run_bind_of_ok (run_signalBody_old (by decide) hrouts₂ hold₂')]
    rfl

private theorem entries_risky {k : ℕ} (hk : k ∈ [0, 1, 2]) :
    (ptEntries riskyEnv.ninety riskyMessage.toTxAttributes 5000000000).run (riskyGlobals k).signals
      = (.ok ([⟨vBNB, 25000000000, 8⟩], riskyAggr),
        (riskyGlobals k).signals.setEpoch riskyAggr (epochOfCtx 5)) := by
  obtain ⟨hentries, hstale⟩ := riskyGlobals_signals k hk
  have hparsed := run_transmitOf 25000000000 hstale
  have hprice : (((25000000000 : BitVec 192).signExtend 256).toNat : ℤ) = 25000000000 := by decide
  have haddr : (transmitOf 25000000000).toAddr = riskyAggr := rfl
  rw [hprice, haddr] at hparsed
  refine (Proc.run_bind_of_ok hparsed).trans ?_
  rw [Proc.run_bind_of_ok (Proc.run_read _), Proc.run_ofExcept]
  exact congrArg (·, _) hentries

/-- The signal up to its call. -/
private theorem run_pt_risky {k : ℕ} (hk : k ∈ [0, 1, 2]) (t : SignalState)
    (r : Option SignalInfos) (f : TaskName → ℕ) :
    (pt riskyEnv highProfitSates ⟨fun _ ↦ 300, fun _ ↦ 300⟩ id riskyMessage).run (riskyAt k t r f)
      = Proc.run (do
        let waits ← sendLiquidations riskyEnv highProfitSates id riskyResults (some riskyInfos)
          (some riskyInfos.toSignalRecv)
        let task : SignalTask := ⟨riskyResults, .current riskyAggr⟩
        if waits then return some task
        finishSignal highProfitSates task
        return none) (riskyAt (k + 1) t (some riskyInfos) f) := by
  obtain ⟨hok, husers, hresults⟩ := riskyGlobals_prices k hk
  obtain ⟨-, -, -, -, -, hgas, -⟩ := risky_numbers
  have hrecorded : recordTx riskyEnv.rawTransaction riskyMessage
      = .ok (riskyMessage.input, 5000000000) := recordTx_inputOf hgas
  have hentries : (ptEntries riskyEnv.ninety riskyMessage.toTxAttributes
      (riskyAt k t r f).blockInfos.gasPrice).run (riskyAt k t r f).globals.signals = _ :=
    entries_risky hk
  rw [run_pt_of_entries riskyMessage hentries hrecorded]
  obtain ⟨v, hprices⟩ : ∃ v, riskyPriced (riskyGlobals k) = (.ok v, riskyGlobals (k + 1)) := by
    rcases hout : (riskyPriced (riskyGlobals k)).1 with e | v
    · rw [hout] at hok
      cases hok
    · exact ⟨v, Prod.ext hout rfl⟩
  have hsome : (riskyGlobals (k + 1)).usersPreFiltered.getD riskyAggr [] ≠ [] := by
    rw [husers]
    exact List.cons_ne_nil _ _
  have htake : ((riskyGlobals (k + 1)).usersPreFiltered.getD riskyAggr []).take 20
      = [testUser, testUser'] := by
    rw [husers]
    rfl
  rw [← htake] at hresults
  rw [riskyPriced] at hprices
  exact run_handleSignal_of_results id riskyInfos hprices hsome hresults

/-- A signal whose call raises is counted. -/
private theorem step_risky_refused {k : ℕ} (hk : k ∈ [0, 1, 2]) {t t' : SignalState}
    (r : Option SignalInfos) {f f' : TaskName → ℕ} (hrunning : ¬ (riskyAt k t r f).Stopped)
    (hsimulate : (signalSimulateHealthFactor (riskyArgs (k + 1))
      [riskyResult testUser, riskyResult testUser']).run t = (.error .typeError, t'))
    (hcount : Function.update f .pending (f .pending + 1) = f') :
    (riskyAt k t r f).step riskyEnv highProfitSates riskySignal
      = riskyAt (k + 1) t' (some riskyInfos) f' := by
  subst hcount
  have hsend : (sendLiquidations riskyEnv highProfitSates id riskyResults (some riskyInfos)
      (some riskyInfos.toSignalRecv)).run (riskyAt (k + 1) t (some riskyInfos) f)
      = (.error .typeError, riskyAt (k + 1) t' (some riskyInfos) f) :=
    @run_sendLiquidations_of_raised _ riskyEnv _ highProfitSates id riskyResults (some riskyInfos)
      (some riskyInfos.toSignalRecv) (riskyAt (k + 1) t (some riskyInfos) f) _ _ hsimulate
  have hpt := run_pt_risky hk t r f
  rw [Proc.run_bind_of_error hsend] at hpt
  have hperform : (riskyAt k t r f).perform riskyEnv .pending (do
      let task ← pt riskyEnv highProfitSates ⟨fun _ ↦ 300, fun _ ↦ 300⟩ id riskyMessage
      Proc.modify fun m ↦ { m with signalTask := task })
      = (riskyAt (k + 1) t' (some riskyInfos) f).fail riskyEnv .pending .typeError := by
    rw [Main.perform, Proc.run_bind_of_error hpt]
  rw [Main.step, if_neg hrunning, riskySignal]
  exact hperform

/-- A signal with nothing to liquidate is sent alone. -/
private theorem step_risky_sent {k : ℕ} (hk : k ∈ [0, 1, 2]) {t : SignalState}
    (r : Option SignalInfos) {f : TaskName → ℕ} (hrunning : ¬ (riskyAt k t r f).Stopped)
    (hsimulate : (signalSimulateHealthFactor (riskyArgs (k + 1))
      [riskyResult testUser, riskyResult testUser']).run t = (.ok [], t)) :
    let m' := (riskyAt k t r f).step riskyEnv highProfitSates riskySignal
    m'.trading = t ∧ m'.sender.submitted = [.x 0 [.text riskyMessage.input] 306] := by
  obtain ⟨-, -, -, -, -, -, hunder⟩ := risky_numbers
  have hsent := run_sendTransactions_of_nil rfl hunder 300 riskyInfos.toSignalRecv
  let sent : Main HighProfitSates :=
    { riskyAt (k + 1) t (some riskyInfos) f with sender := (riskyMain.sender.onSender
      (Sender.submit (.x 0 [.text riskyMessage.input] 306))).nextNonce }
  have hsend : (sendLiquidations riskyEnv highProfitSates id riskyResults (some riskyInfos)
      (some riskyInfos.toSignalRecv)).run (riskyAt (k + 1) t (some riskyInfos) f)
      = (.ok true, sent) :=
    @run_sendLiquidations _ riskyEnv _ highProfitSates id riskyResults (some riskyInfos)
      (some riskyInfos.toSignalRecv) (riskyAt (k + 1) t (some riskyInfos) f) _ _ _ _ hsimulate hsent
  have hpt := run_pt_risky hk t r f
  rw [Proc.run_bind_of_ok hsend] at hpt
  have hstep := step_signal hrunning rfl hpt
  rw [riskySignal, hstep]
  exact ⟨rfl, rfl⟩

/-- The program with so many exceptions of the pending signals. -/
private def riskyFailures (n : ℕ) (task : TaskName) : ℕ := if task = .pending then n else 0

private theorem not_stopped_risky {n : ℕ} (hn : n < 3) (k : ℕ) (t : SignalState)
    (r : Option SignalInfos) : ¬ (riskyAt k t r (riskyFailures n)).Stopped := by
  rintro ⟨task, hlimit⟩
  have hlimit' : task.limit ≤ riskyFailures n task := hlimit
  clear hlimit
  cases task with
  | pending => exact absurd hlimit' (not_le.mpr hn)
  | users | comet | prices | liquidations | header | idle => cases hlimit'

private theorem update_riskyFailures (n : ℕ) : Function.update (riskyFailures n) .pending
    (riskyFailures n .pending + 1) = riskyFailures (n + 1) := by
  funext task
  cases task with
  | users | comet | prices | liquidations | header | pending | idle => rfl

private theorem riskyMain_eq : riskyMain = riskyAt 0 riskyMain.trading none (riskyFailures 0) := by
  have hzero : riskyFailures 0 = fun _ ↦ 0 := by
    funext task
    cases task with
    | users | comet | prices | liquidations | header | pending | idle => rfl
  rw [riskyAt, hzero]
  rfl

/-- Each of the users is tried once, and when there is nobody left the signal is sent alone. -/
theorem run_risky :
    let m' := runFrom (Main.step riskyEnv highProfitSates) riskyMain
      [riskySignal, riskySignal, riskySignal]
    m'.trading.accounts
        = [⟨riskyKey, 9, [riskyTx testUser 7, riskyTx testUser' 8]⟩, ⟨riskyKey', 5, []⟩] ∧
      m'.sender.submitted = [.x 0 [.text riskyMessage.input] 306] := by
  obtain ⟨t₁, t₂, hfirst, hsecond, hthird, haccounts⟩ := run_signalSimulate_risky
  have h₁ : (riskyAt 0 riskyMain.trading none (riskyFailures 0)).step riskyEnv highProfitSates
      riskySignal = riskyAt 1 t₁ (some riskyInfos) (riskyFailures 1) :=
    step_risky_refused (by decide) none (not_stopped_risky (by decide) 0 _ none) hfirst
      (update_riskyFailures 0)
  have h₂ : (riskyAt 1 t₁ (some riskyInfos) (riskyFailures 1)).step riskyEnv highProfitSates
      riskySignal = riskyAt 2 t₂ (some riskyInfos) (riskyFailures 2) :=
    step_risky_refused (by decide) (some riskyInfos) (not_stopped_risky (by decide) 1 t₁ _)
      hsecond (update_riskyFailures 1)
  have h₃ := step_risky_sent (by decide) (some riskyInfos)
    (not_stopped_risky (by decide : 2 < 3) 2 t₂ _) hthird
  have hrun : runFrom (Main.step riskyEnv highProfitSates) riskyMain
      [riskySignal, riskySignal, riskySignal]
      = (riskyAt 2 t₂ (some riskyInfos) (riskyFailures 2)).step riskyEnv highProfitSates
          riskySignal := by
    rw [riskyMain_eq, runFrom_cons, h₁, runFrom_cons, h₂, runFrom_singleton]
  intro m'
  have hm' : m' = (riskyAt 2 t₂ (some riskyInfos) (riskyFailures 2)).step riskyEnv
    highProfitSates riskySignal := hrun
  rw [hm', h₃.1]
  exact ⟨haccounts, h₃.2⟩

/-! ## An account that signs -/

/-- The signature of the first transaction of the account on Ethereum. -/
def riskySigned : Bytes := ethereumRaw (riskyData testUser) 7 0x80
  0xde5150a6270ed8226b104fd95b50dd55423d546d0d6cafa1f2132d13dc0e887b
  0x4a7ff2a9d59b38936483b8aa2e3dec61c7a0c65c2f7d83f00ad8fe32f2432697

/-- The signature of the second one. -/
def riskySigned' : Bytes := ethereumRaw (riskyData testUser') 8 0x01
  0x2a9f665a79cb8188795ae10197b37a6db3adeb4474472c55c656083f21116576
  0x300eb4dcd4d6dbe32add1bcabf1090f33e52d7b7e723431f1648409e79d79e33

def riskySign : String → TxParams → Except Error Bytes :=
  signTwo (ethereumTx (riskyData testUser) 7, riskySigned)
    (ethereumTx (riskyData testUser') 8, riskySigned')

private theorem riskySign_first (key : String) :
    riskySign key (ethereumTx (riskyData testUser) 7) = .ok riskySigned :=
  @signTwo_first (ethereumTx (riskyData testUser) 7, riskySigned) (.inl rfl) _ key

private theorem riskySign_second (key : String) :
    riskySign key (ethereumTx (riskyData testUser') 8) = .ok riskySigned' := by
  have hother : ethereumTx (riskyData testUser') 8 ≠ ethereumTx (riskyData testUser) 7 :=
    fun h ↦ absurd (congrArg TxParams.nonce h) (by decide)
  exact @signTwo_second _ (ethereumTx (riskyData testUser') 8, riskySigned') (.inl rfl) hother key

/-- The surroundings on Ethereum, where the receiver is empty and the account signs. -/
def signingEnv : MainEnv Unit :=
  { riskyEnv with
    net := .ethereum
    sel := .v2
    signTransaction := riskySign
    cls := .compV2
    sendType := ethereumSendType }

/-- Both users wait in the queue, there is one account, and BNB is at 250 dollars. -/
def signingMain : Main HighProfitSates :=
  { riskyMain with
    globals := riskyStart (250 * 10 ^ 18)
    trading := ⟨⟨∅, [⟨riskyKey, 7, []⟩]⟩, []⟩
    usersPending := [[testUser, testUser']] }

def signingIdle : Event := .idle ⟨300, fun _ ↦ 300⟩ id

/-- What the tick is handled with. -/
def signingArgs : SignalEnv Unit :=
  signingEnv.signalEnv (riskyStart (250 * 10 ^ 18)).states.toStates.ctokens
    (riskyStart (250 * 10 ^ 18)).comet ⟨0, 5000000000⟩ none

private theorem findsPair_signing : FindsPair signingArgs ∧
    healthFactors (fun _ ↦ 300) (riskyStart (250 * 10 ^ 18)).comet
      (riskyStart (250 * 10 ^ 18)).states.toStates [testUser, testUser'] = .ok riskyResults := by
  decide +kernel

/-- The account signs. -/
private theorem run_signalBody_signing {usr : String} (husr : IsAddress usr) {t : SignalState}
    (hrouts : t.routTokens = []) (hnew : t.record? usr vUSDT = none) {acc : AccCompound}
    (haccounts : t.accounts = [acc]) {raw : Bytes}
    (hraw : riskySign acc.key (ethereumTx (riskyData usr) acc.nonce) = .ok raw) :
    ∃ t', (signalBody signingArgs (riskyResult usr)).run t
        = (.ok [⟨usr, raw, 200000000000000131072⟩], t') ∧
      t'.routTokens = [] ∧ t'.accounts = [acc.ask [ethereumTx (riskyData usr) acc.nonce]] ∧
      ∀ u d, t'.record? u d
        = if u = usr ∧ d = vUSDT then some (2 * 10 ^ 22, usr) else t.record? u d := by
  have hsign : signingEnv.signTransaction = riskySign := rfl
  rw [← hsign] at hraw
  have hbuilds : (riskyCall signingArgs usr).Builds signingEnv.toLiqEnv
      (ethereumTx (riskyData usr) 0) 200000000000000131072 :=
    LiqCall.builds_ethereum rfl rfl rfl rfl rfl rfl (List.cons_ne_nil _ _)
      (bytesFromPrefixed_risky husr)
  have hstart := @LiqCall.run_start_of_new _ _ t.toLiquidator hnew _ _
    (LiqCall.transaction_eq_some_iff.mpr hbuilds) acc haccounts raw hraw
  have henv : signingArgs.toLiqEnv = signingEnv.toLiqEnv := rfl
  have hbody := run_signalBody_risky findsPair_signing.1 usr hrouts
  rw [henv, hstart] at hbody
  exact ⟨_, hbody, rfl, rfl, fun u d ↦
    Liquidator.record?_setUserLiquidated usr usr vUSDT (2 * 10 ^ 22) t.toLiquidator u d⟩

private theorem run_signalSimulate_signing : ∃ t,
    (signalSimulateHealthFactor signingArgs [riskyResult testUser, riskyResult testUser']).run
      signingMain.trading = (.ok [⟨testUser, riskySigned, 200000000000000131072⟩,
        ⟨testUser', riskySigned', 200000000000000131072⟩], t) ∧
    t.accounts = [⟨riskyKey, 9,
      [ethereumTx (riskyData testUser) 7, ethereumTx (riskyData testUser') 8]⟩] := by
  have haddress : IsAddress testUser' := by decide
  have hother : testUser' ≠ testUser := by decide
  have hfirst : ∀ u d, signingMain.trading.record? u d = none := fun _ _ ↦ rfl
  obtain ⟨t₁, hrun₁, hrouts₁, haccounts₁, hrecord₁⟩ := @run_signalBody_signing testUser
    isAddress_testUser signingMain.trading rfl (hfirst testUser vUSDT) ⟨riskyKey, 7, []⟩ rfl
    riskySigned (riskySign_first riskyKey)
  have hnew : t₁.record? testUser' vUSDT = none := by
    rw [hrecord₁, if_neg fun h ↦ hother h.1, hfirst]
  obtain ⟨t₂, hrun₂, -, haccounts₂, -⟩ := @run_signalBody_signing testUser' haddress t₁ hrouts₁
    hnew ⟨riskyKey, 8, [ethereumTx (riskyData testUser) 7]⟩ haccounts₁ riskySigned'
    (riskySign_second riskyKey)
  refine ⟨t₂, ?_, haccounts₂⟩
  rw [signalSimulateHealthFactor, Proc.run_bind_of_ok hrun₁, Proc.run_bind,
    signalSimulateHealthFactor, Proc.run_bind_of_ok hrun₂]
  rfl

private theorem best_signing : sortedTxsLiq [⟨testUser, riskySigned, 200000000000000131072⟩,
      ⟨testUser', riskySigned', 200000000000000131072⟩]
    = [(200000000000000131072, riskySigned'), (200000000000000131072, riskySigned)] :=
  sortedTxsLiq_two (by decide) (by decide)

private theorem bids_signing : ¬ signingMain.sender.Underbids 200000000000000131072 := by
  decide +kernel

/-- An idle tick asks the account twice, and passes on what it has signed last: at equal profits the
bytes decide. -/
theorem run_signing :
    let m' := runFrom (Main.step signingEnv highProfitSates) signingMain [signingIdle]
    m'.trading.accounts = [⟨riskyKey, 9,
        [ethereumTx (riskyData testUser) 7, ethereumTx (riskyData testUser') 8]⟩] ∧
      m'.sender.submitted = [.x 200000000000000131072 [.bytes riskySigned'] 360] := by
  obtain ⟨t, hsimulate, haccounts⟩ := run_signalSimulate_signing
  obtain ⟨e, sender, hsent, hsubmitted⟩ :=
    run_sendTransactions_of_bid best_signing bids_signing 300
  let sent : Main HighProfitSates := { signingMain.popped with trading := t, sender := sender }
  have hsend : (sendLiquidations signingEnv highProfitSates id riskyResults none none).run
      signingMain.popped = (.error e, sent) :=
    @run_sendLiquidations _ signingEnv _ highProfitSates id riskyResults none none
      signingMain.popped _ _ _ _ hsimulate hsent
  have hidle : (liquidationIdle signingEnv highProfitSates ⟨300, fun _ ↦ 300⟩ id).run signingMain
      = (.error e, sent) := by
    have husers : signingMain.usersPending.headD [] = [testUser, testUser'] := rfl
    rw [run_liquidationIdle, husers, if_pos (by decide), idlePending,
      Proc.run_bind_of_ok (Proc.run_read _)]
    refine (Proc.run_bind_of_ok ?_).trans (Proc.run_bind_of_error hsend)
    exact congrArg (·, signingMain.popped) findsPair_signing.2
  have hstep : signingMain.step signingEnv highProfitSates signingIdle
      = sent.fail signingEnv .idle e := by
    rw [Main.step, if_neg (by decide), signingIdle]
    change signingMain.perform signingEnv .idle _ = _
    rw [Main.perform, Proc.run_bind_of_error hidle]
  intro m'
  have hm' : m' = sent.fail signingEnv .idle e := (runFrom_singleton _ _ _).trans hstep
  rw [hm', Main.fail, if_neg fun h ↦ (by cases h.1)]
  exact ⟨haccounts, hsubmitted⟩

end CompoundLiquidation
