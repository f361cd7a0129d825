import CompoundLiquidation.Main.Walks
import CompoundLiquidation.Python.Calls
import CompoundLiquidation.Transaction.Lock
import CompoundLiquidation.Users.Accrual

/-!
# The steps that send

Only two steps of the program sign and send anything: that of a signal and that of an idle tick,
each by one call of `signal_simulate_health_factor` and `send_transactions`, on health factors that
have just been calculated. All that is done before is quiet: the accounts stay as they are and
nothing is submitted. What is done behind the call leaves the markets and the positions alone as
well, so that the data of the call is that of the program when the step is over. If the call raises,
so does the task it is made in, and the exception is counted. Headers change the accounts and what
is bid, but submit nothing.
-/

namespace CompoundLiquidation

open Python

/-! ## Data -/

/-- What health factors and liquidations are calculated from. -/
structure MarketData where
  ctokens : Dict String CtokenInfos
  comet : CometConfigs
  position : String → Option (Dict String CompReserve × ℤ)
  blockInfos : BlockInfos
  signalRecv : Option SignalInfos

/-- The reserves and the debt in VAI that are known of a user. -/
def States.position (s : States) (u : String) : Option (Dict String CompReserve × ℤ) :=
  (s.usersStates.get? u).map fun states ↦ (states.reserves, states.vaiRepay)

/-- The data of the program. -/
def Main.marketData {S : Type} (m : Main S) (K : StatesClass S) : MarketData where
  ctokens := (K.states m.globals.states).ctokens
  comet := m.globals.comet
  position := (K.states m.globals.states).position
  blockInfos := m.blockInfos.toBlockInfos
  signalRecv := m.signalRecv

theorem States.position_setHealthFactor (usr : String) (hf : HealthFactor) (s : States) :
    (s.setHealthFactor usr hf).position = s.position := by
  funext u
  rw [position, position, setHealthFactor]
  dsimp only
  rw [Dict.get?_modify]
  split_ifs with hu
  · subst hu
    rw [Option.map_map]
    rfl
  · rfl

/-- A result of the calculation. -/
def IsCalculated (data : MarketData) (res : HfResult) : Prop :=
  ∃ now vaiRepay, data.position res.1 = some (res.2.2, vaiRepay) ∧
    calculateHealthFactor trueDiv now res.1 res.2.2 vaiRepay data.ctokens data.comet = .ok res

theorem position_of_genUsersWithArgs {sta : States} {users : List String} :
    ∀ {args : List (String × Dict String CompReserve × ℤ)}, genUsersWithArgs sta users = .ok args →
      ∀ arg ∈ args, sta.position arg.1 = some arg.2 := by
  induction users with
  | nil =>
    intro args h arg harg
    rw [← Except.ok.inj h] at harg
    exact absurd harg List.not_mem_nil
  | cons usr users ih =>
    intro args h
    obtain ⟨states, hstates, h⟩ := exists_of_bind_ok h
    obtain ⟨rest, hrest, h⟩ := exists_of_bind_ok h
    rw [← Except.ok.inj h]
    refine List.forall_mem_cons.mpr ⟨?_, ih hrest⟩
    rw [States.position, Dict.item_eq_ok_iff.mp hstates]
    rfl

theorem isCalculated_of_healthFactors {S : Type} {K : StatesClass S} {m : Main S}
    {atUser : String → ℤ} {users : List String} {results : List HfResult}
    (h : healthFactors atUser m.globals.comet (K.states m.globals.states) users = .ok results) :
    ∀ res ∈ results, IsCalculated (m.marketData K) res := by
  obtain ⟨args, hargs, hall⟩ := exists_of_bind_ok h
  have hposition := position_of_genUsersWithArgs hargs
  clear h hargs
  induction args generalizing results with
  | nil =>
    intro res hres
    rw [← Except.ok.inj hall] at hres
    exact absurd hres List.not_mem_nil
  | cons arg args ih =>
    obtain ⟨hfirst, hrest⟩ := List.forall_mem_cons.mp hposition
    obtain ⟨result, hresult, hall⟩ := exists_of_bind_ok hall
    obtain ⟨rest, hrests, hall⟩ := exists_of_bind_ok hall
    rw [← Except.ok.inj hall]
    refine List.forall_mem_cons.mpr ⟨⟨atUser arg.1, arg.2.2, ?_⟩, ih hrests hrest⟩
    have heq := eq_of_calculateHealthFactor hresult
    rw [heq] at hresult ⊢
    exact ⟨hfirst, hresult⟩

section Sends

variable {L : Type} {env : MainEnv L} {S : Type} {K : StatesClass S}

/-- The arguments of `signal_simulate_health_factor`. -/
def MarketData.signalEnv (data : MarketData) (env : MainEnv L) (sig : Option SignalInfos) :
    SignalEnv L :=
  env.signalEnv data.ctokens data.comet data.blockInfos sig

/-- The simulation in a call that sends. -/
def MarketData.simulate (data : MarketData) (env : MainEnv L) (uniqueId : String → String)
    (results : List HfResult) (sig : Option SignalInfos) :
    Proc SignalState Error (List SendResult) :=
  signalSimulateHealthFactor (data.signalEnv env sig)
    (results.map fun res ↦ ⟨res.1, res.2.1, res.2.2, uniqueId res.1⟩)

/-- Two senders bid the same. -/
structure BidsAlike (s s' : BnB48Sender) : Prop where
  balance : s'.balance = s.balance
  bnbPrice : s'.bnbPrice = s.bnbPrice
  bnbGasPrice : s'.bnbGasPrice = s.bnbGasPrice

theorem BidsAlike.refl (s : BnB48Sender) : BidsAlike s s := ⟨rfl, rfl, rfl⟩

theorem BidsAlike.trans {s s' s'' : BnB48Sender} (h : BidsAlike s s') (h' : BidsAlike s' s'') :
    BidsAlike s s'' :=
  ⟨h'.balance.trans h.balance, h'.bnbPrice.trans h.bnbPrice, h'.bnbGasPrice.trans h.bnbGasPrice⟩

/-- Nothing has been signed or sent. -/
structure Quietly (m m' : Main S) : Prop where
  submitted : m'.sender.submitted = m.sender.submitted
  bids : BidsAlike m.sender m'.sender
  accounts : m'.trading.accounts = m.trading.accounts
  failures : m'.failures = m.failures

/-- What is far from sending. -/
theorem Quietly.of_eq {m m' : Main S} (hsender : m'.sender = m.sender)
    (htrading : m'.trading = m.trading) (hfailures : m'.failures = m.failures) : Quietly m m' := by
  refine ⟨by rw [hsender], ?_, by rw [htrading], hfailures⟩
  rw [hsender]
  exact .refl m.sender

theorem Quietly.refl (m : Main S) : Quietly m m := .of_eq rfl rfl rfl

theorem Quietly.trans (m m' m'' : Main S) (h : Quietly m m') (h' : Quietly m' m'') :
    Quietly m m'' :=
  ⟨h'.submitted.trans h.submitted, h.bids.trans h'.bids, h'.accounts.trans h.accounts,
    h'.failures.trans h.failures⟩

variable (K) in
/-- Not even the data has changed. -/
structure Settled (m m' : Main S) : Prop where
  quietly : Quietly m m'
  marketData : m'.marketData K = m.marketData K

theorem Settled.refl (m : Main S) : Settled K m m := ⟨.refl m, rfl⟩

theorem Settled.trans (m m' m'' : Main S) (h : Settled K m m') (h' : Settled K m' m'') :
    Settled K m m'' :=
  ⟨h.quietly.trans _ _ _ h'.quietly, h'.marketData.trans h.marketData⟩

theorem Quietly.settled (m m' m'' : Main S) (h : Quietly m m') (h' : Settled K m' m'') :
    Quietly m m'' := h.trans _ _ _ h'.quietly

/-- Health factors are not part of the data. -/
theorem settled_writeHealthFactor (results : List HfResult) :
    Proc.Keeps (Settled K) (onGlobals (onStates K (States.writeHealthFactor results))) := by
  intro m
  let R : States → States → Prop := fun s s' ↦ s'.ctokens = s.ctokens ∧ s'.position = s.position
  have hkeeps : Proc.Keeps R (States.writeHealthFactor results) :=
    keeps_writeHealthFactor (fun s ↦ ⟨rfl, rfl⟩) (fun s t u h h' ↦ ⟨h'.1.trans h.1, h'.2.trans h.2⟩)
      (fun usr hf s ↦ ⟨rfl, s.position_setHealthFactor usr hf⟩) results
  obtain ⟨⟨hctokens, hposition⟩, -⟩ := keeps_onStates (K := K) hkeeps m.globals
  refine ⟨.of_eq rfl rfl rfl, ?_⟩
  rw [Main.marketData, Main.marketData, MarketData.mk.injEq]
  exact ⟨hctokens, rfl, hposition, rfl, rfl⟩

variable (env) in
/-- The text of a transaction that a signal was taken from. -/
def MainEnv.IsRaw (rawTx : String) : Prop := ∃ message, env.rawTransaction message = .ok rawTx

variable (env K) in
/-- A call that sends, on calculated health factors. The gas price is that of the signal that has
been recorded, or none. -/
inductive Sends (m : Main S) : Except Error Bool × Main S → Prop
  | mk {atUser : String → ℤ} {users : List String} {results : List HfResult}
    (calculated : healthFactors atUser m.globals.comet (K.states m.globals.states) users
      = .ok results) (uniqueId : String → String) {sig : Option SignalInfos}
    (recorded : sig = none ∨ sig = m.signalRecv) {signalRecv : Option SignalRecv}
    (raw : ∀ recv, signalRecv = some recv → env.IsRaw recv.rawTx) :
    Sends m ((sendLiquidations env K uniqueId results sig signalRecv).run m)

theorem quietly_onGlobals {α : Type} (x : Proc (Globals S) Error α) :
    Proc.Keeps Quietly (onGlobals x) := fun _ ↦ .of_eq rfl rfl rfl

theorem settled_finishSignal (task : SignalTask) :
    Proc.Keeps (Settled K) (finishSignal K task) :=
  Proc.keeps_bind Settled.trans (settled_writeHealthFactor task.results) fun _ ↦
    Proc.keeps_modify fun _ ↦ ⟨.of_eq rfl rfl rfl, rfl⟩

/-- A call and what is done with its outcome. -/
theorem callsOnce_sendLiquidations {α : Type} {m : Main S} {atUser : String → ℤ}
    {users : List String} {results : List HfResult}
    (hresults : healthFactors atUser m.globals.comet (K.states m.globals.states) users
      = .ok results) (uniqueId : String → String) {sig : Option SignalInfos}
    (hrecorded : sig = none ∨ sig = m.signalRecv) {signalRecv : Option SignalRecv}
    (hraw : ∀ recv, signalRecv = some recv → env.IsRaw recv.rawTx)
    {f : Bool → Proc (Main S) Error α} (hf : ∀ waits, Proc.Keeps (Settled K) (f waits)) :
    Proc.CallsOnce Quietly (Sends env K) (Settled K)
      (sendLiquidations env K uniqueId results sig signalRecv >>= f) m := by
  refine Proc.callsOnce_then Quietly.settled Settled.trans (.inr ?_) hf
  exact ⟨m, _, .refl m, .mk hresults uniqueId hrecorded hraw, .refl _, fun e he ↦ ⟨e, he⟩⟩

/-- `pt` from the prices on. The signal has been recorded. -/
theorem callsOnce_handleSignal (clock : SignalClock) (uniqueId : String → String)
    {sig : SignalInfos} (res : List SignalEntry) (aggr : String) {m : Main S}
    (hrecorded : m.signalRecv = some sig) (hraw : env.IsRaw sig.rawTx) :
    Proc.CallsOnce Quietly (Sends env K) (Settled K)
      (handleSignal env K clock uniqueId sig res aggr) m := by
  refine Proc.callsOnce_after Quietly.trans (quietly_onGlobals _ m) fun _ m₁ hprices ↦ ?_
  obtain ⟨-, rfl⟩ := Prod.mk.inj hprices
  refine Proc.callsOnce_after Quietly.trans (.refl _) fun m₂ m₃ hread ↦ ?_
  obtain ⟨heq, rfl⟩ := Prod.mk.inj hread
  obtain rfl := Except.ok.inj heq
  refine Proc.callsOnce_ite (fun _ ↦ .inl (.refl _)) fun _ ↦ ?_
  refine Proc.callsOnce_after Quietly.trans (.refl _) fun results m₄ hresults ↦ ?_
  obtain ⟨hcalculated, rfl⟩ := Prod.mk.inj hresults
  refine callsOnce_sendLiquidations hcalculated uniqueId (.inr hrecorded.symm) ?_ fun waits ↦ ?_
  · rintro recv hrecv
    obtain rfl := Option.some_inj.mp hrecv
    exact hraw
  · refine Proc.keeps_ite (fun _ ↦ Proc.keeps_pure .refl _) fun _ ↦ ?_
    exact Proc.keeps_bind Settled.trans (settled_finishSignal _) fun _ ↦ Proc.keeps_pure .refl _

theorem callsOnce_pt (clock : SignalClock) (uniqueId : String → String) (message : PendingTx)
    (m : Main S) :
    Proc.CallsOnce Quietly (Sends env K) (Settled K) (pt env K clock uniqueId message) m := by
  rw [Proc.CallsOnce, Proc.run, pt]
  rcases (ptEntries env.ninety message.toTxAttributes m.blockInfos.gasPrice).run
    m.globals.signals with ⟨e | ⟨res, aggr⟩, signals⟩
  · exact .inl (.of_eq rfl rfl rfl)
  dsimp only
  rw [Proc.run_bind, Proc.run_ofExcept]
  rcases hrecorded : recordTx env.rawTransaction message with e | ⟨rawTx, gasFee⟩
  · exact .inl (.of_eq rfl rfl rfl)
  have hraw : env.rawTransaction message = .ok rawTx := by
    obtain ⟨_, hraw, h⟩ := exists_of_bind_ok hrecorded
    obtain ⟨_, -, h⟩ := exists_of_bind_ok h
    rw [hraw, (Prod.mk.inj (Except.ok.inj h)).1]
  let sig : SignalInfos := ⟨⟨rawTx⟩, m.blockInfos.blockNum, gasFee⟩
  let recorded : Main S :=
    { m with globals := { m.globals with signals := signals }, signalRecv := some sig }
  have hrecord : Quietly m recorded := .of_eq rfl rfl rfl
  have hcalls : Proc.CallsOnce Quietly (Sends env K) (Settled K)
      (handleSignal env K clock uniqueId sig res aggr) recorded :=
    callsOnce_handleSignal clock uniqueId res aggr rfl ⟨message, hraw⟩
  obtain hquiet | ⟨m₁, r, hbefore, hsends, hbehind⟩ := hcalls
  · exact .inl (hrecord.trans _ _ _ hquiet)
  · exact .inr ⟨m₁, r, hrecord.trans _ _ _ hbefore, hsends, hbehind⟩

theorem quietly_idlePeriodic (clock : Clock) : Proc.Keeps Quietly (idlePeriodic env K clock) :=
  keeps_idlePeriodic .refl Quietly.trans (fun _ _ ↦ .of_eq rfl rfl rfl)
    (fun _ ↦ quietly_onGlobals _) (fun _ _ ↦ .of_eq rfl rfl rfl) clock

theorem callsOnce_idlePending (clock : Clock) (uniqueId : String → String) (users : List String)
    (m : Main S) :
    Proc.CallsOnce Quietly (Sends env K) (Settled K) (idlePending env K clock uniqueId users)
      m := by
  refine Proc.callsOnce_after Quietly.trans (.refl _) fun m₁ m₂ hread ↦ ?_
  obtain ⟨heq, rfl⟩ := Prod.mk.inj hread
  obtain rfl := Except.ok.inj heq
  refine Proc.callsOnce_after Quietly.trans (.refl _) fun results m₃ hresults ↦ ?_
  obtain ⟨hcalculated, rfl⟩ := Prod.mk.inj hresults
  refine callsOnce_sendLiquidations hcalculated uniqueId ?_ (fun _ hnone ↦ (by cases hnone))
    fun waits ↦ ?_
  · rcases m.signalRecv with _ | sig
    · exact .inl rfl
    · rw [Option.filter_some]
      split_ifs
      · exact .inr rfl
      · exact .inl rfl
  · refine Proc.keeps_ite (fun _ ↦ Proc.keeps_pure .refl _) fun _ ↦ ?_
    exact Proc.keeps_bind Settled.trans (settled_writeHealthFactor results) fun _ ↦
      Proc.keeps_pure .refl _

theorem callsOnce_liquidationIdle (clock : Clock) (uniqueId : String → String) (m : Main S) :
    Proc.CallsOnce Quietly (Sends env K) (Settled K) (liquidationIdle env K clock uniqueId) m := by
  refine Proc.callsOnce_after Quietly.trans (.refl _) fun m₁ m₂ hread ↦ ?_
  obtain ⟨heq, rfl⟩ := Prod.mk.inj hread
  obtain rfl := Except.ok.inj heq
  refine Proc.callsOnce_after Quietly.trans (.of_eq rfl rfl rfl) fun _ m₂ _ ↦ ?_
  refine Proc.callsOnce_ite (fun _ ↦ callsOnce_idlePending clock uniqueId _ m₂) fun _ ↦ .inl ?_
  exact Proc.keeps_bind Quietly.trans (quietly_idlePeriodic clock)
    (fun _ ↦ Proc.keeps_pure .refl _) m₂

/-! ## Tasks -/

variable (env) in
/-- What a task makes of the end of its callback: nothing, or it counts an exception. -/
def Ends (task : TaskName) (raises : Prop) (m m' : Main S) : Prop :=
  m' = m ∧ ¬ raises ∨ ∃ e, m' = m.fail env task e

theorem Ends.refl (task : TaskName) (m : Main S) : Ends env task False m m := .inl ⟨rfl, id⟩

theorem Ends.of_fail (task : TaskName) (e : Error) (m : Main S) :
    Ends env task False m (m.fail env task e) := .inr ⟨e, rfl⟩

theorem ends_perform (task : TaskName) (x : Proc (Main S) Error Unit) (m : Main S) :
    Ends env task (∃ e, (x.run m).1 = .error e) (x.run m).2 (m.perform env task x) := by
  rw [Main.perform]
  rcases x.run m with ⟨e | _, m'⟩
  · exact .inr ⟨e, rfl⟩
  · exact .inl ⟨rfl, nofun⟩

theorem Ends.mono {task : TaskName} {p q : Prop} (h : q → p) {m m' : Main S}
    (hends : Ends env task p m m') : Ends env task q m m' :=
  hends.imp_left fun ⟨heq, hp⟩ ↦ ⟨heq, fun hq ↦ hp (h hq)⟩

/-- At most one exception is counted, and in no other task. -/
theorem Ends.failures {task : TaskName} {p : Prop} {m m' : Main S} (h : Ends env task p m m') :
    m'.failures = m.failures ∨
      m'.failures = Function.update m.failures task (m.failures task + 1) := by
  obtain ⟨rfl, -⟩ | ⟨e, rfl⟩ := h
  · exact .inl rfl
  · rw [Main.fail]
    split_ifs
    · exact .inl rfl
    · exact .inr rfl

theorem Ends.sender {task : TaskName} {p : Prop} {m m' : Main S} (h : Ends env task p m m') :
    m'.sender = m.sender := by
  obtain ⟨rfl, -⟩ | ⟨e, rfl⟩ := h
  · rfl
  · rw [Main.fail]
    split_ifs
    · rfl
    · rfl

theorem Ends.trading {task : TaskName} {p : Prop} {m m' : Main S} (h : Ends env task p m m') :
    m'.trading = m.trading := by
  obtain ⟨rfl, -⟩ | ⟨e, rfl⟩ := h
  · rfl
  · rw [Main.fail]
    split_ifs
    · rfl
    · rfl

/-- In a task that sends, an exception is counted for sure. -/
theorem Ends.failures_of_raises {task : TaskName} (htask : task = .pending ∨ task = .idle)
    {p : Prop} (hp : p) {m m' : Main S} (h : Ends env task p m m') :
    m'.failures = Function.update m.failures task (m.failures task + 1) := by
  obtain ⟨-, hnot⟩ | ⟨e, rfl⟩ := h
  · exact absurd hp hnot
  rw [Main.fail, if_neg fun hlost ↦ ?_]
  obtain rfl | rfl := htask
  · exact absurd hlost.1 nofun
  · exact absurd hlost.1 nofun

variable (env K) in
/-- A step is quiet but for one call that sends. -/
inductive SendsOnce (m m' : Main S) : Prop
  | quiet {task : TaskName} {m₂ : Main S} (quiet : Quietly m m₂) (ends : Ends env task False m₂ m')
  | sends {task : TaskName} (task_eq : task = .pending ∨ task = .idle) {m₁ m₂ : Main S}
    {r : Except Error Bool × Main S} (before : Quietly m m₁) (sends : Sends env K m₁ r)
    (after : Settled K r.2 m₂) (ends : Ends env task (∃ e, r.1 = .error e) m₂ m')

theorem SendsOnce.of_quietly {m m' : Main S} (h : Quietly m m') : SendsOnce env K m m' :=
  .quiet h (.refl .users m')

theorem Quietly.sendsOnce_then {m m₁ m' : Main S} (hquiet : Quietly m m₁)
    (h : SendsOnce env K m₁ m') : SendsOnce env K m m' := by
  cases h with
  | quiet quiet ends => exact .quiet (hquiet.trans _ _ _ quiet) ends
  | sends htask before sends after ends =>
    exact .sends htask (hquiet.trans _ _ _ before) sends after ends

theorem sendsOnce_perform_of_keeps (task : TaskName) {x : Proc (Main S) Error Unit}
    (hx : Proc.Keeps Quietly x) (m : Main S) : SendsOnce env K m (m.perform env task x) :=
  .quiet (hx m) ((ends_perform task x m).mono False.elim)

theorem sendsOnce_perform {task : TaskName} (htask : task = .pending ∨ task = .idle)
    {x : Proc (Main S) Error Unit} {m : Main S}
    (hx : Proc.CallsOnce Quietly (Sends env K) (Settled K) x m) :
    SendsOnce env K m (m.perform env task x) := by
  obtain hquiet | ⟨m₁, r, hbefore, hsends, hafter, hraises⟩ := hx
  · exact .quiet hquiet ((ends_perform task x m).mono False.elim)
  · exact .sends htask hbefore hsends hafter
      ((ends_perform task x m).mono fun ⟨e, he⟩ ↦ hraises e he)

/-- What a step does that is no header. -/
theorem sendsOnce_step (m : Main S) {e : Event}
    (hheader : ∀ node clock message, e ≠ .header node clock message) :
    SendsOnce env K m (m.step env K e) := by
  rw [Main.step]
  split_ifs
  · exact .of_quietly (.refl m)
  cases e with
  | header node clock message => exact absurd rfl (hheader node clock message)
  | users d => exact sendsOnce_perform_of_keeps .users (quietly_onGlobals _) m
  | comet response => exact sendsOnce_perform_of_keeps .comet (quietly_onGlobals _) m
  | prices response => exact sendsOnce_perform_of_keeps .prices (quietly_onGlobals _) m
  | signal clock uniqueId message =>
    rw [Main.handle]
    obtain hfree | ⟨task, hwaits⟩ := Option.eq_none_or_eq_some m.signalTask
    · rw [hfree]
      exact sendsOnce_perform (.inl rfl) (Proc.callsOnce_then Quietly.settled Settled.trans
        (callsOnce_pt clock uniqueId message m) fun task ↦
          Proc.keeps_modify fun _ ↦ ⟨.of_eq rfl rfl rfl, rfl⟩)
    · rw [hwaits]
      exact .of_quietly (.refl m)
  | signalDone =>
    rw [Main.handle]
    obtain hfree | ⟨task, hwaits⟩ := Option.eq_none_or_eq_some m.signalTask
    · rw [hfree]
      exact .of_quietly (.refl m)
    · rw [hwaits]
      have hquiet : Quietly m { m with signalTask := none } := .of_eq rfl rfl rfl
      refine hquiet.sendsOnce_then ?_
      exact sendsOnce_perform_of_keeps .pending (fun m ↦ (settled_finishSignal task m).quietly) _
  | idle clock uniqueId =>
    rw [Main.handle]
    obtain hfree | ⟨results, hwaits⟩ := Option.eq_none_or_eq_some m.idleTask
    · rw [hfree]
      exact sendsOnce_perform (.inr rfl) (Proc.callsOnce_then Quietly.settled Settled.trans
        (callsOnce_liquidationIdle clock uniqueId m) fun results ↦
          Proc.keeps_modify fun _ ↦ ⟨.of_eq rfl rfl rfl, rfl⟩)
    · rw [hwaits]
      exact .of_quietly (.refl m)
  | idleDone =>
    rw [Main.handle]
    obtain hfree | ⟨results, hwaits⟩ := Option.eq_none_or_eq_some m.idleTask
    · rw [hfree]
      exact .of_quietly (.refl m)
    · rw [hwaits]
      have hquiet : Quietly m { m with idleTask := none } := .of_eq rfl rfl rfl
      refine hquiet.sendsOnce_then ?_
      exact sendsOnce_perform_of_keeps .idle (quietly_onGlobals _) _
  | receipts receipts =>
    exact .of_quietly ⟨(keeps_processReceipts receipts m.sender.toSender).submitted,
      ⟨rfl, rfl, rfl⟩, rfl, rfl⟩
  | lost task e => exact .quiet (.refl m) (.of_fail task e m)

/-! ## Headers -/

/-- Nothing has been submitted, and no exception counted. -/
structure Unsent (m m' : Main S) : Prop where
  submitted : m'.sender.submitted = m.sender.submitted
  failures : m'.failures = m.failures

theorem Unsent.refl (m : Main S) : Unsent m m := ⟨rfl, rfl⟩

theorem Unsent.trans (m m' m'' : Main S) (h : Unsent m m') (h' : Unsent m' m'') : Unsent m m'' :=
  ⟨h'.submitted.trans h.submitted, h'.failures.trans h.failures⟩

/-- The sender of a header asks for its nonce and its balance. -/
theorem submitted_updateSender (node : HeaderNode) (price : ℤ) (s : BnB48Sender) :
    ((updateSender env node price).run s).2.submitted = s.submitted := by
  let R : BnB48Sender → BnB48Sender → Prop := fun s s' ↦ s'.submitted = s.submitted
  have hrefl : ∀ s, R s s := fun _ ↦ rfl
  have htrans : ∀ s t u, R s t → R t u → R s u := fun _ _ _ h h' ↦ h'.trans h
  have hupdate : Proc.Keeps R (updateSender env node price) := by
    refine Proc.keeps_bind htrans (Proc.keeps_ofExcept hrefl _) fun count ↦ ?_
    refine Proc.keeps_bind htrans (Proc.keeps_modify fun s ↦ hrefl s) fun _ ↦ ?_
    refine Proc.keeps_bind htrans (Proc.keeps_ofExcept hrefl _) fun balance s ↦ ?_
    exact hrefl s
  exact hupdate s

theorem unsent_onMessage (node : HeaderNode) (clock : String → ℤ) (message : Option BlockHeader) :
    Proc.Keeps Unsent (onMessage env K node clock message) :=
  keeps_onMessage (Q := fun _ _ ↦ True) (fun _ ↦ trivial) (fun _ _ _ _ _ ↦ trivial)
    (fun _ _ _ ↦ trivial) .refl Unsent.trans (fun _ _ _ ↦ ⟨rfl, rfl⟩) (fun _ _ ↦ ⟨rfl, rfl⟩)
    (fun _ ↦ ⟨rfl, rfl⟩) (fun price m ↦ ⟨submitted_updateSender node price m.sender, rfl⟩) clock
    message

theorem unsent_header_step (m : Main S) (node : HeaderNode) (clock : String → ℤ)
    (message : Option BlockHeader) :
    ∃ m₂, Unsent m m₂ ∧ Ends env .header False m₂
      (m.step env K (.header node clock message)) := by
  rw [Main.step]
  split_ifs
  · exact ⟨m, .refl m, .refl .header m⟩
  · exact ⟨_, unsent_onMessage node clock message m, (ends_perform .header _ m).mono False.elim⟩

end Sends

end CompoundLiquidation
