import CompoundLiquidation.Callbacks.HotOrder
import CompoundLiquidation.Main.Renewal

/-!
# What a step of the program can do

Most steps are `Quiet`: they change the states and lists in the way `Advances` says and leave queue
and waiting tasks alone. The two callbacks with an `await` are brought into a form that names what
they calculate and what they leave to be done, and a write-back into one that says what is stored
afterwards. From these forms all invariants of the main program are derived, without looking at
the code of the callbacks again.
-/

namespace CompoundLiquidation

open Python

/-! ## Trimming -/

/-- Trimming names nobody twice and nobody unknown. -/
theorem proper_usersTrimming {S : Type} {K : StatesClass S} {g : Globals S}
    {users trimmed : List String} {currentTime : ℤ}
    (h : usersTrimming toFloat users (K.states g.states) currentTime true = .ok trimmed)
    (hnd : users.Nodup) : g.Proper K trimmed := by
  refine ⟨nodup_usersTrimming h hnd, fun u hu ↦ ?_⟩
  obtain ⟨-, states, hstates, -⟩ := (mem_usersTrimming h u).mp hu
  exact Dict.mem_keys_iff.mpr ⟨states, hstates⟩

/-- The arguments of known users can be read. -/
theorem genUsersWithArgs_ok {sta : States} {users : List String}
    (h : ∀ u ∈ users, u ∈ sta.usersStates.keys) :
    ∃ args, genUsersWithArgs sta users = .ok args := by
  induction users with
  | nil => exact ⟨[], rfl⟩
  | cons usr users ih =>
    obtain ⟨states, hstates⟩ := Dict.mem_keys_iff.mp (h usr List.mem_cons_self)
    obtain ⟨args, hargs⟩ := ih fun u hu ↦ h u (List.mem_cons_of_mem usr hu)
    refine ⟨(usr, states.reserves, states.vaiRepay) :: args, ?_⟩
    rw [genUsersWithArgs, Dict.item_eq_ok_iff.mpr hstates, ok_bind, hargs]
    rfl

/-- Results were calculated for the users, at the times the clock shows. -/
structure Calculated (atUser : String → ℤ) (users : List String) (results : List HfResult) :
    Prop where
  users : results.map Prod.fst = users
  time : ∀ res ∈ results, CalculatedAt atUser res.1 res.2.1

theorem calculated_of_healthFactors {atUser : String → ℤ} {comet : CometConfigs} {sta : States}
    {users : List String} {results : List HfResult}
    (h : healthFactors atUser comet sta users = .ok results) : Calculated atUser users results :=
  ⟨(healthFactors_ok h).1, fun res hres ↦ ((healthFactors_ok h).2 res hres).2⟩

theorem Calculated.mem {atUser : String → ℤ} {users : List String} {results : List HfResult}
    (h : Calculated atUser users results) {res : HfResult} (hres : res ∈ results) :
    res.1 ∈ users := by
  rw [← h.users]
  exact List.mem_map_of_mem hres

section Steps

variable {L : Type} {env : MainEnv L} {S : Type} {K : StatesClass S} {P : Kind}

/-! ## Steps that leave queue and tasks alone -/

/-- What most steps do. -/
structure Quiet (K : StatesClass S) (P : Kind) (m m' : Main S) : Prop where
  globals : Advances K P m.globals m'.globals
  usersPending : m'.usersPending = m.usersPending
  signalTask : m'.signalTask = m.signalTask
  idleTask : m'.idleTask = m.idleTask

theorem Quiet.refl (m : Main S) : Quiet K P m m := ⟨.refl _, rfl, rfl, rfl⟩

theorem Quiet.trans (m m' m'' : Main S) (h : Quiet K P m m') (h' : Quiet K P m' m'') :
    Quiet K P m m'' where
  globals := h.globals.trans _ _ _ h'.globals
  usersPending := h'.usersPending.trans h.usersPending
  signalTask := h'.signalTask.trans h.signalTask
  idleTask := h'.idleTask.trans h.idleTask

theorem quiet_onGlobals {α : Type} {x : Proc (Globals S) Error α}
    (h : Proc.Keeps (Advances K P) x) : Proc.Keeps (Quiet K P) (onGlobals x) :=
  fun m ↦ ⟨h m.globals, rfl, rfl, rfl⟩

/-- Everything that the callbacks share is as before. -/
structure Elsewhere (m m' : Main S) : Prop where
  globals : m'.globals = m.globals
  usersPending : m'.usersPending = m.usersPending
  signalTask : m'.signalTask = m.signalTask
  idleTask : m'.idleTask = m.idleTask

theorem Elsewhere.refl (m : Main S) : Elsewhere m m := ⟨rfl, rfl, rfl, rfl⟩

theorem Elsewhere.trans (m m' m'' : Main S) (h : Elsewhere m m') (h' : Elsewhere m' m'') :
    Elsewhere m m'' :=
  ⟨h'.globals.trans h.globals, h'.usersPending.trans h.usersPending,
    h'.signalTask.trans h.signalTask, h'.idleTask.trans h.idleTask⟩

theorem Elsewhere.quiet {m m' : Main S} (h : Elsewhere m m') : Quiet K P m m' :=
  ⟨h.globals ▸ .refl _, h.usersPending, h.signalTask, h.idleTask⟩

variable (env K) in
theorem elsewhere_sendLiquidations (uniqueId : String → String) (results : List HfResult)
    (sig : Option SignalInfos) (signalRecv : Option SignalRecv) :
    Proc.Keeps Elsewhere (sendLiquidations env K uniqueId results sig signalRecv) := by
  refine Proc.keeps_bind Elsewhere.trans (Proc.keeps_read Elsewhere.refl) fun m ↦ ?_
  refine Proc.keeps_bind Elsewhere.trans (fun m ↦ ⟨rfl, rfl, rfl, rfl⟩) fun coroutines ↦ ?_
  refine Proc.keeps_bind Elsewhere.trans (fun m ↦ ⟨rfl, rfl, rfl, rfl⟩) fun _ ↦ ?_
  exact Proc.keeps_pure Elsewhere.refl _

theorem quiet_onMessage (node : HeaderNode) (clock : String → ℤ) (message : Option BlockHeader) :
    Proc.Keeps (Quiet K P) (onMessage env K node clock message) :=
  keeps_onMessage (Q := Advances K P) .refl (Advances.trans (K := K) (P := P)) advances_onMarket
    .refl Quiet.trans (fun _ _ h ↦ ⟨h, rfl, rfl, rfl⟩) (fun _ _ ↦ ⟨.refl _, rfl, rfl, rfl⟩)
    (fun _ ↦ ⟨.refl _, rfl, rfl, rfl⟩) (fun _ _ ↦ ⟨.refl _, rfl, rfl, rfl⟩) clock message

/-! ## Signals -/

/-- The aggregator of a message that `pt` accepts. -/
def Main.acceptedAggr (env : MainEnv L) (m : Main S) (message : PendingTx) : Option String :=
  ((ptEntries env.ninety message.toTxAttributes m.blockInfos.gasPrice).run
    m.globals.signals).1.toOption.map Prod.snd

/-- What `pt` does up to its `await`: it raises, it has nothing to do, or it calculates the first
twenty users of a list, and then waits or goes on. -/
inductive PtRun (K : StatesClass S) (atUser : String → ℤ) (m : Main S) (aggr? : Option String) :
    Except Error (Option SignalTask) × Main S → Prop
  | raised {e : Error} {m' : Main S} (quiet : Quiet K (fun _ _ ↦ False) m m') :
    PtRun K atUser m aggr? (.error e, m')
  | skipped {m' : Main S} (quiet : Quiet K (fun _ _ ↦ False) m m')
    (empty : ∀ aggr, aggr? = some aggr → m'.globals.listOf aggr = []) :
    PtRun K atUser m aggr? (.ok none, m')
  | waits {aggr : String} {results : List HfResult} {m' : Main S}
    (quiet : Quiet K (fun _ _ ↦ False) m m') (accepted : aggr? = some aggr)
    (calculated : Calculated atUser ((m'.globals.listOf aggr).take 20) results) :
    PtRun K atUser m aggr? (.ok (some ⟨results, .current aggr⟩), m')
  | finishes {aggr : String} {results : List HfResult} {m' : Main S}
    (quiet : Quiet K (fun _ _ ↦ False) m m') (accepted : aggr? = some aggr)
    (calculated : Calculated atUser ((m'.globals.listOf aggr).take 20) results) :
    PtRun K atUser m aggr?
      ((finishSignal K ⟨results, .current aggr⟩ >>= fun _ ↦ pure none).run m')

/-- The part of `pt` behind the handler. -/
theorem ptRun_handleSignal (clock : SignalClock) (uniqueId : String → String) (sig : SignalInfos)
    (res : List SignalEntry) (aggr : String) {m m' : Main S}
    (hquiet : Quiet K (fun _ _ ↦ False) m m') : PtRun K clock.atUser m (some aggr)
      ((handleSignal env K clock uniqueId sig res aggr).run m') := by
  have hprices := quiet_onGlobals (advances_onMarkets (K := K) (P := fun _ _ ↦ False) env
    (priceLoop env.cls clock.atRound res [] 0)) m'
  rw [handleSignal, Proc.run_bind]
  rcases hrun : (onGlobals (onMarkets env K (priceLoop env.cls clock.atRound res [] 0))).run m'
    with ⟨e | _, m₁⟩
  · rw [hrun] at hprices
    exact .raised (hquiet.trans _ _ _ hprices)
  rw [hrun] at hprices
  have hquiet₁ := hquiet.trans _ _ _ hprices
  dsimp only
  rw [Proc.run_bind, Proc.run_read]
  dsimp only
  by_cases hempty : (m₁.globals.usersPreFiltered.getD aggr []).length = 0
  · rw [if_pos hempty]
    refine .skipped hquiet₁ fun aggr' haggr ↦ ?_
    rw [← Option.some_inj.mp haggr]
    exact List.length_eq_zero_iff.mp hempty
  rw [if_neg hempty, Proc.run_bind, Proc.run_ofExcept]
  rcases hresults : healthFactors clock.atUser m₁.globals.comet (K.states m₁.globals.states)
    ((m₁.globals.usersPreFiltered.getD aggr []).take 20) with e | results
  · exact .raised hquiet₁
  dsimp only
  have hsend := elsewhere_sendLiquidations env K uniqueId results (some sig)
    (some sig.toSignalRecv) m₁
  rw [Proc.run_bind]
  rcases hrun' : (sendLiquidations env K uniqueId results (some sig)
    (some sig.toSignalRecv)).run m₁ with ⟨e | waits, m₂⟩
  · rw [hrun'] at hsend
    exact .raised (hquiet₁.trans _ _ _ hsend.quiet)
  rw [hrun'] at hsend
  have hquiet₂ := hquiet₁.trans _ _ _ hsend.quiet
  have hcalculated : Calculated clock.atUser ((m₂.globals.listOf aggr).take 20) results := by
    rw [hsend.globals]
    exact calculated_of_healthFactors hresults
  cases waits with
  | true => exact .waits hquiet₂ rfl hcalculated
  | false => exact .finishes hquiet₂ rfl hcalculated

/-- Reading a message changes epochs only. -/
theorem keeps_ptEntries (ninety : ℤ → ℚ) (message : TxAttributes) (gasPrice : ℤ) :
    Proc.Keeps (fun s s' : Signals ↦ s'.signalTokenMap = s.signalTokenMap ∧
      s'.tokenSignalMap = s.tokenSignalMap) (ptEntries ninety message gasPrice) := by
  intro s
  have hfilter := run_txFilterAndParsing ninety message gasPrice s
  rw [ptEntries, Proc.run_bind, hfilter]
  rcases reportOf ninety message gasPrice with e | ⟨data, epoch⟩
  · exact ⟨rfl, rfl⟩
  dsimp only
  by_cases hstale : s.localEpoch message.toAddr > epoch
  · rw [if_pos hstale]
    exact ⟨rfl, rfl⟩
  rw [if_neg hstale]
  rcases medianPrice data with e | price
  · exact ⟨rfl, rfl⟩
  · exact ⟨rfl, rfl⟩

variable (env K) in
theorem ptRun_pt (clock : SignalClock) (uniqueId : String → String) (message : PendingTx)
    (m : Main S) : PtRun K clock.atUser m (m.acceptedAggr env message)
      ((pt env K clock uniqueId message).run m) := by
  have hmaps := keeps_ptEntries env.ninety message.toTxAttributes m.blockInfos.gasPrice
    m.globals.signals
  rw [Proc.run, pt, Main.acceptedAggr]
  rcases hentries : (ptEntries env.ninety message.toTxAttributes m.blockInfos.gasPrice).run
    m.globals.signals with ⟨e | ⟨res, aggr⟩, signals⟩
  all_goals
    rw [hentries] at hmaps
    have hquiet : Quiet K (fun _ _ ↦ False) m
        { m with globals := { m.globals with signals := signals } } :=
      ⟨⟨.refl _, hmaps.1, hmaps.2, fun _ ↦ Iff.rfl, fun _ ↦ .refl _, fun _ ↦ id, fun _ _ ↦ .inl⟩,
        rfl, rfl, rfl⟩
  · exact .skipped hquiet fun aggr haggr ↦ (by cases haggr)
  · dsimp only
    rw [Proc.run_bind, Proc.run_ofExcept]
    rcases recordTx env.rawTransaction message with e | ⟨rawTx, gasFee⟩
    · exact .raised hquiet
    exact ptRun_handleSignal clock uniqueId _ res aggr
      (hquiet.trans _ _ _ ⟨.refl _, rfl, rfl, rfl⟩)

/-! ## Writing back -/

/-- A health factor of some results. -/
def OfResults (results : List HfResult) : Kind :=
  fun u hf ↦ ∃ res ∈ results, res.1 = u ∧ res.2.1 = hf

/-- Results have been written back. -/
structure WrittenBack (K : StatesClass S) (results : List HfResult) (g g' : Globals S) : Prop where
  advances : Advances K (OfResults results) g g'
  lists : g'.usersPreFiltered = g.usersPreFiltered
  written : ∀ u ∈ results.map Prod.fst, ∃ hf, (K.states g'.states).healthFactor? u = some hf ∧
    OfResults results u hf

/-- Results of known users are written back. -/
theorem run_writeHealthFactor {results : List HfResult} {g : Globals S}
    (hknown : ∀ res ∈ results, g.Knows K res.1) :
    ∃ g', (onStates K (States.writeHealthFactor results)).run g = (.ok (), g') ∧
      WrittenBack K results g g' := by
  have hadvances : Advances K (OfResults results) g _ :=
    keeps_onStates_advances (keeps_writeHealthFactor_renews fun res hres ↦ ⟨res, hres, rfl, rfl⟩) g
  have hlists : ((onStates K (States.writeHealthFactor results)).run g).2.usersPreFiltered
      = g.usersPreFiltered := rfl
  have hreturns : ((onStates K (States.writeHealthFactor results)).run g).1 = .ok () := by
    rw [onStates, StatesClass.onBase, Proc.run_zoom, Proc.run_zoom]
    exact writeHealthFactor_returns hknown
  rcases hrun : (onStates K (States.writeHealthFactor results)).run g with ⟨out, g'⟩
  rw [hrun] at hadvances hlists hreturns
  dsimp only at hreturns
  subst hreturns
  refine ⟨g', rfl, hadvances, hlists, fun u hu ↦ ?_⟩
  have hwritten := writeHealthFactor_ok (P := OfResults results) (onStates_ok hrun).1
    (fun res hres ↦ ⟨res, hres, rfl, rfl⟩) u (.inl hu)
  obtain ⟨res, hres, rfl⟩ := List.mem_map.mp hu
  obtain ⟨states, hstates⟩ := Dict.mem_keys_iff.mp (hadvances.knows (hknown res hres))
  exact ⟨_, States.healthFactor?_eq_some_iff.mpr ⟨states, hstates, rfl⟩, hwritten states hstates⟩

/-- A signal whose results are of known users is finished, and the users behind the first twenty go
to the queue. -/
theorem run_finishSignal (task : SignalTask) {m : Main S}
    (hknown : ∀ res ∈ task.results, m.globals.Knows K res.1) :
    ∃ g', (finishSignal K task).run m = (.ok (), { m with
        globals := g'
        usersPending := m.usersPending ++ [(task.users.users m.globals).drop 20] }) ∧
      WrittenBack K task.results m.globals g' := by
  obtain ⟨g', hrun, hwritten⟩ := run_writeHealthFactor hknown
  refine ⟨g', ?_, hwritten⟩
  have husers : task.users.users g' = task.users.users m.globals := by
    cases task.users with
    | current aggr => exact congrArg (Dict.getD · aggr []) hwritten.lists
    | replaced users => rfl
  have hglobals : (onGlobals (onStates K (States.writeHealthFactor task.results))).run m
      = (.ok (), { m with globals := g' }) := by
    rw [onGlobals, Proc.run_zoom, hrun]
  rw [finishSignal, Proc.run_bind_of_ok hglobals, ← husers]
  rfl

/-! ## Idle ticks -/

/-- The state behind `get_data_from_queue`. -/
def Main.popped (m : Main S) : Main S := { m with usersPending := m.usersPending.tail }

/-- What `liquidation_idle_callback` does up to its `await`: with users from the queue it raises,
waits or goes on, and without it does its periodic work or replaces a list. -/
inductive IdleRun (K : StatesClass S) (atUser : String → ℤ) (m : Main S) :
    Except Error (Option (List HfResult)) × Main S → Prop
  | raised {e : Error} {m' : Main S}
    (quiet : Quiet K (CalculatedAt atUser) m.popped m') :
    IdleRun K atUser m (.error e, m')
  | periodic {m' : Main S} (nobody : m.usersPending.headD [] = [])
    (quiet : Quiet K (CalculatedAt atUser) m.popped m') :
    IdleRun K atUser m (.ok none, m')
  | replaces {aggr : String} {users : List String} (nobody : m.usersPending.headD [] = [])
    (listed : aggr ∈ m.globals.signals.signalTokenMap.keys) (proper : m.globals.Proper K users) :
    IdleRun K atUser m (.ok none, { m.popped.detach aggr with
      globals := { m.globals with usersPreFiltered := m.globals.usersPreFiltered.set aggr users }
      prevBlock := m.blockInfos.blockNum })
  | waits {results : List HfResult} {m' : Main S} (quiet : Quiet K (fun _ _ ↦ False) m.popped m')
    (calculated : Calculated atUser (m.usersPending.headD []) results) :
    IdleRun K atUser m (.ok (some results), m')
  | finishes {results : List HfResult} {m' : Main S}
    (quiet : Quiet K (fun _ _ ↦ False) m.popped m')
    (calculated : Calculated atUser (m.usersPending.headD []) results) :
    IdleRun K atUser m ((onGlobals (onStates K (States.writeHealthFactor results)) >>= fun _ ↦
      pure none).run m')

theorem nodup_usersFiltering (sta : States) (tokensAddr : List String) :
    (sta.usersFiltering tokensAddr).Nodup := Dict.nodup_keys' _

/-- A list that task 3 assigns is the one of an aggregator, and its users are known. -/
theorem idleUpdate_preFiltered {net : Network} {clock : Clock} {blockNum : ℕ} {g : Globals S}
    {aggr : String} {users : List String}
    (h : idleUpdate K net clock blockNum g = .ok (.preFiltered aggr users)) :
    aggr ∈ g.signals.signalTokenMap.keys ∧ g.Proper K users := by
  rw [idleUpdate] at h
  by_cases hone : blockNum % blocksPerMinute net = 1
  · simp only [if_pos hone] at h
    obtain ⟨usersTrim, -, h⟩ := exists_of_bind_ok h
    obtain ⟨results, -, h⟩ := exists_of_bind_ok h
    cases Except.ok.inj h
  simp only [if_neg hone] at h
  by_cases hthree : blockNum % blocksPerMinute net = 3
  · simp only [if_pos hthree] at h
    obtain ⟨⟨tokens, aggr'⟩, htokens, h⟩ := exists_of_bind_ok h
    obtain ⟨users', husers', h⟩ := exists_of_bind_ok h
    obtain ⟨rfl, rfl⟩ := IdleUpdate.preFiltered.inj (Except.ok.inj h)
    refine ⟨?_, proper_usersTrimming husers' (nodup_usersFiltering _ _)⟩
    rw [Signals.getTokensFromAggrIndex] at htokens
    by_cases hlen : g.signals.signalTokenMap.keys.length = 0
    · simp only [if_pos hlen] at htokens
      cases htokens
    simp only [if_neg hlen] at htokens
    obtain ⟨aggr, -, htokens⟩ := exists_of_bind_ok htokens
    rw [Signals.getTokensFromAggr] at htokens
    obtain ⟨infos, hinfos, htokens⟩ := exists_of_bind_ok htokens
    rw [← (Prod.mk.inj (Except.ok.inj htokens)).2]
    exact Dict.mem_keys_iff.mpr ⟨infos, Dict.item_eq_ok_iff.mp hinfos⟩
  · simp only [if_neg hthree] at h
    cases Except.ok.inj h

/-- The health factors that task 3 assigns were calculated in it. -/
theorem idleUpdate_healthFactors {net : Network} {clock : Clock} {blockNum : ℕ} {g : Globals S}
    {results : List HfResult}
    (h : idleUpdate K net clock blockNum g = .ok (.healthFactors results)) :
    ∀ res ∈ results, CalculatedAt clock.atUser res.1 res.2.1 := by
  by_cases hone : blockNum % blocksPerMinute net = 1
  · obtain ⟨users, results', -, hresults, heq⟩ := idleUpdate_of_switch_one hone h
    rw [IdleUpdate.healthFactors.inj heq]
    exact fun res hres ↦ ((healthFactors_ok hresults).2 res hres).2
  rw [idleUpdate] at h
  simp only [if_neg hone] at h
  by_cases hthree : blockNum % blocksPerMinute net = 3
  · simp only [if_pos hthree] at h
    obtain ⟨tokens, -, h⟩ := exists_of_bind_ok h
    obtain ⟨users', -, h⟩ := exists_of_bind_ok h
    cases Except.ok.inj h
  · simp only [if_neg hthree] at h
    cases Except.ok.inj h

theorem idleRun_idlePeriodic (clock : Clock) {m : Main S}
    (hnobody : m.usersPending.headD [] = []) : IdleRun K clock.atUser m
      ((idlePeriodic env K clock >>= fun _ ↦ pure none).run m.popped) := by
  rw [idlePeriodic, Proc.run_bind, Proc.run_bind, Proc.run_read]
  dsimp only
  by_cases hprev : m.popped.blockInfos.blockNum ≤ m.popped.prevBlock
  · rw [if_pos hprev]
    exact .periodic hnobody (.refl _)
  rw [if_neg hprev, Proc.run_bind, Proc.run_ofExcept]
  rcases hupdate : idleUpdate K env.net clock m.popped.blockInfos.blockNum m.popped.globals
    with e | update
  · exact .raised (.refl _)
  cases update with
  | nothing => exact .periodic hnobody ⟨.refl _, rfl, rfl, rfl⟩
  | preFiltered aggr users =>
    obtain ⟨hlisted, hproper⟩ := idleUpdate_preFiltered hupdate
    exact .replaces hnobody hlisted hproper
  | healthFactors results =>
    have hkeeps : Proc.Keeps (Quiet K (CalculatedAt clock.atUser))
        (onGlobals (onStates K (States.writeHealthFactor results))) :=
      quiet_onGlobals (keeps_onStates_advances (keeps_writeHealthFactor_renews
        (idleUpdate_healthFactors hupdate)))
    have hquiet : Quiet K (CalculatedAt clock.atUser) m.popped
        ((onGlobals (performUpdate K (.healthFactors results))).run m.popped).2 := hkeeps m.popped
    dsimp only
    rw [Proc.run_bind]
    rcases hwrite : (onGlobals (performUpdate K (.healthFactors results))).run m.popped
      with ⟨e | _, m'⟩
    · rw [hwrite] at hquiet
      exact .raised hquiet
    · rw [hwrite] at hquiet
      exact .periodic hnobody (hquiet.trans _ _ _ ⟨.refl _, rfl, rfl, rfl⟩)

/-- An idle tick takes the users of the first batch, or has time for its periodic work. -/
theorem run_liquidationIdle (clock : Clock) (uniqueId : String → String) (m : Main S) :
    (liquidationIdle env K clock uniqueId).run m
      = (if (m.usersPending.headD []).length ≠ 0
          then idlePending env K clock uniqueId (m.usersPending.headD [])
          else idlePeriodic env K clock >>= fun _ ↦ pure none).run m.popped := by
  rw [liquidationIdle, Proc.run_bind, Proc.run_read]
  dsimp only
  rw [Proc.run_bind, Proc.run_modify]
  rfl

variable (env K) in
theorem idleRun_liquidationIdle (clock : Clock) (uniqueId : String → String) (m : Main S) :
    IdleRun K clock.atUser m ((liquidationIdle env K clock uniqueId).run m) := by
  rw [run_liquidationIdle]
  by_cases hnobody : (m.usersPending.headD []).length ≠ 0
  · rw [if_pos hnobody, idlePending, Proc.run_bind, Proc.run_read]
    dsimp only
    rw [Proc.run_bind, Proc.run_ofExcept]
    rcases hresults : healthFactors clock.atUser m.popped.globals.comet
      (K.states m.popped.globals.states) (m.usersPending.headD []) with e | results
    · exact .raised (.refl _)
    have hcalculated := calculated_of_healthFactors hresults
    have hsend := elsewhere_sendLiquidations env K uniqueId results
      (m.popped.signalRecv.filter fun sig ↦ sig.recvHeight = m.popped.blockInfos.blockNum) none
      m.popped
    dsimp only
    rw [Proc.run_bind]
    rcases hrun : (sendLiquidations env K uniqueId results (m.popped.signalRecv.filter fun sig ↦
      sig.recvHeight = m.popped.blockInfos.blockNum) none).run m.popped with ⟨e | waits, m₁⟩
    · rw [hrun] at hsend
      exact .raised hsend.quiet
    rw [hrun] at hsend
    cases waits with
    | true => exact .waits hsend.quiet hcalculated
    | false => exact .finishes hsend.quiet hcalculated
  · rw [if_neg hnobody]
    exact idleRun_idlePeriodic clock (List.length_eq_zero_iff.mp (not_not.mp hnobody))

end Steps

end CompoundLiquidation
