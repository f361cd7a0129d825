import CompoundLiquidation.Main.Lookups

/-!
# Nobody is forgotten

A signal calculates the first twenty users of a list and leaves the others to the queue, from which
the idle task takes one batch at a time. In between users are inserted into the list, the list is
replaced by a new object, and other callbacks write health factors. Still nobody who was in the list
when the signal came is forgotten: at any later point the user's health factor has been calculated
since, or the user waits in the queue or with a task, or the program has ended. And the queue is
drained in order, so that after as many idle ticks as there are batches in front the user's turn has
come.

What stands against it are results from before the signal that a task still waits to write back.
-/

namespace CompoundLiquidation

open Python

section Served

variable {L : Type} {env : MainEnv L} {S : Type} {K : StatesClass S} {P : Kind} {t : ℤ} {u : String}

/-! ## Places -/

/-- Where a user can wait: in a batch of the queue, in the results of a signal, in the list that the
signal holds, and in the results of an idle tick. -/
inductive Place where
  | queued (k : ℕ)
  | signal
  | rest
  | idle

/-- The user waits there. -/
def Main.At (u : String) (m : Main S) : Place → Prop
  | .queued k => ∃ batch, m.usersPending[k]? = some batch ∧ u ∈ batch
  | .signal => ∃ task, m.signalTask = some task ∧ u ∈ task.results.map Prod.fst
  | .rest => ∃ task, m.signalTask = some task ∧ u ∈ (task.users.users m.globals).drop 20
  | .idle => ∃ results, m.idleTask = some results ∧ u ∈ results.map Prod.fst

/-- Where the user waits after an idle tick. -/
def Place.tick : Place → Place
  | .queued 0 => .idle
  | .queued (k + 1) => .queued k
  | place => place

variable (K t u) in
/-- The health factor of the user has been calculated at `t` or later. -/
def Main.Fresh (m : Main S) : Prop :=
  ∃ hf, (K.states m.globals.states).healthFactor? u = some hf ∧ t ≤ hf.lastUpdate

/-- The results of the user are not older than `t`. -/
def NotOlder (t : ℤ) (u : String) (results : List HfResult) : Prop :=
  ∀ res ∈ results, res.1 = u → t ≤ res.2.1.lastUpdate

variable (t u) in
/-- No task waits to write back an older result. -/
structure Main.NoneOlder (m : Main S) : Prop where
  signal : ∀ task, m.signalTask = some task → NotOlder t u task.results
  idle : ∀ results, m.idleTask = some results → NotOlder t u results

/-- A step calculates health factors of the user at `t` or later. -/
def Event.NotBefore (t : ℤ) (u : String) (e : Event) : Prop :=
  ∀ hf, e.Stamps u hf → t ≤ hf.lastUpdate

theorem fresh_of_renews {m m' : Main S}
    (h : Renews P (K.states m.globals.states) (K.states m'.globals.states))
    (hnew : ∀ hf, P u hf → t ≤ hf.lastUpdate) (hfresh : m.Fresh K t u) : m'.Fresh K t u := by
  obtain ⟨hf, hhf, htime⟩ := hfresh
  obtain ⟨hf', hhf', rfl | hkind⟩ := h u hf hhf
  · exact ⟨hf', hhf', htime⟩
  · exact ⟨hf', hhf', hnew hf' hkind⟩

theorem NotOlder.ofResults {results : List HfResult} (h : NotOlder t u results) (hf : HealthFactor)
    (hof : OfResults results u hf) : t ≤ hf.lastUpdate := by
  obtain ⟨res, hres, huser, rfl⟩ := hof
  exact h res hres huser

theorem notOlder_of_stamped {results : List HfResult} (hnew : ∀ hf, P u hf → t ≤ hf.lastUpdate)
    (hstamped : ∀ res ∈ results, P res.1 res.2.1) : NotOlder t u results := by
  rintro res hres rfl
  exact hnew res.2.1 (hstamped res hres)

/-- What has been written back is fresh. -/
theorem WrittenBack.fresh {results : List HfResult} {m m' : Main S}
    (h : WrittenBack K results m.globals m'.globals) (hresults : NotOlder t u results)
    (hu : u ∈ results.map Prod.fst) : m'.Fresh K t u := by
  obtain ⟨hf, hhf, hof⟩ := h.written u hu
  exact ⟨hf, hhf, hresults.ofResults hf hof⟩

/-- The users of a list whom the signal leaves to the queue stay behind the first twenty, whoever
is inserted. -/
theorem Advances.mem_drop {g g' : Globals S} (h : Advances K P g g') {held : HeldList}
    (hu : u ∈ (held.users g).drop 20) : u ∈ (held.users g').drop 20 := by
  cases held with
  | current aggr => exact ((h.sublist aggr).drop 20).subset hu
  | replaced users => exact hu

theorem Main.At.quiet {m m' : Main S} {place : Place} (h : m.At u place)
    (hquiet : Quiet K P m m') : m'.At u place := by
  cases place with
  | queued k =>
    rw [Main.At, hquiet.usersPending]
    exact h
  | signal =>
    rw [Main.At, hquiet.signalTask]
    exact h
  | rest =>
    obtain ⟨task, htask, hu⟩ := h
    exact ⟨task, hquiet.signalTask.trans htask, hquiet.globals.mem_drop hu⟩
  | idle =>
    rw [Main.At, hquiet.idleTask]
    exact h

theorem Main.NoneOlder.quiet {m m' : Main S} (h : m.NoneOlder t u) (hquiet : Quiet K P m m') :
    m'.NoneOlder t u :=
  ⟨fun task htask ↦ h.signal task (hquiet.signalTask ▸ htask),
    fun results hresults ↦ h.idle results (hquiet.idleTask ▸ hresults)⟩

/-! ## Moves -/

theorem Main.NoneOlder.move {m m' : Main S} (h : m.NoneOlder t u) (hmove : Move K P m m')
    (hnew : ∀ hf, P u hf → t ≤ hf.lastUpdate) : m'.NoneOlder t u := by
  cases hmove with
  | quiet quiet => exact h.quiet quiet
  | signalWaits free quiet users stamped =>
    refine ⟨fun task htask ↦ ?_, (h.quiet quiet).idle⟩
    rw [← Option.some_inj.mp htask]
    exact notOlder_of_stamped hnew stamped
  | signalDone held written => exact ⟨fun task htask ↦ (by cases htask), h.idle⟩
  | idleDone held written => exact ⟨h.signal, fun results hresults ↦ (by cases hresults)⟩

theorem Main.Fresh.move {m m' : Main S} (hfresh : m.Fresh K t u) (h : m.NoneOlder t u)
    (hmove : Move K P m m') (hnew : ∀ hf, P u hf → t ≤ hf.lastUpdate) : m'.Fresh K t u := by
  cases hmove with
  | quiet quiet => exact fresh_of_renews quiet.globals.renews hnew hfresh
  | signalWaits free quiet users stamped =>
    exact fresh_of_renews (m := m) quiet.globals.renews (fun _ hfalse ↦ hfalse.elim) hfresh
  | @signalDone task g' held written =>
    exact fresh_of_renews (m := m) written.advances.renews (h.signal task held).ofResults hfresh
  | @idleDone results g' held written =>
    exact fresh_of_renews (m := m) written.advances.renews (h.idle results held).ofResults hfresh

/-- In a move a user stays where they are, gets a new health factor, or goes from the list of a
signal to the end of the queue. -/
theorem Main.At.move {m m' : Main S} {place : Place} (hat : m.At u place) (h : m.NoneOlder t u)
    (hmove : Move K P m m') :
    m'.Fresh K t u ∨ m'.At u place ∨ place = .rest ∧ ∃ k, m'.At u (.queued k) := by
  cases hmove with
  | quiet quiet => exact .inr (.inl (hat.quiet quiet))
  | @signalWaits aggr results m' free quiet users stamped =>
    have hat' := hat.quiet quiet
    cases place with
    | queued k => exact .inr (.inl hat')
    | idle => exact .inr (.inl hat')
    | signal | rest =>
      obtain ⟨task, htask, -⟩ := hat
      cases free.symm.trans htask
  | @signalDone task g' held written =>
    cases place with
    | queued k =>
      obtain ⟨batch, hbatch, hu⟩ := hat
      exact .inr (.inl ⟨batch, (List.getElem?_append_left
        (List.getElem?_eq_some_iff.mp hbatch).1).trans hbatch, hu⟩)
    | idle => exact .inr (.inl hat)
    | signal =>
      obtain ⟨task', htask, hu⟩ := hat
      obtain rfl := Option.some_inj.mp (held.symm.trans htask)
      exact .inl (WrittenBack.fresh (m := m) written (h.signal task held) hu)
    | rest =>
      obtain ⟨task', htask, hu⟩ := hat
      obtain rfl := Option.some_inj.mp (held.symm.trans htask)
      exact .inr (.inr ⟨rfl, m.usersPending.length, _, List.getElem?_concat_length, hu⟩)
  | @idleDone results g' held written =>
    cases place with
    | queued k => exact .inr (.inl hat)
    | signal => exact .inr (.inl hat)
    | rest =>
      obtain ⟨task, htask, hu⟩ := hat
      exact .inr (.inl ⟨task, htask, written.advances.mem_drop hu⟩)
    | idle =>
      obtain ⟨results', hresults, hu⟩ := hat
      obtain rfl := Option.some_inj.mp (held.symm.trans hresults)
      exact .inl (WrittenBack.fresh (m := m) written (h.idle results held) hu)

/-! ## Idle ticks -/

theorem Main.NoneOlder.tick {m m' : Main S} (h : m.NoneOlder t u) (htick : Tick K P m m')
    (hnew : ∀ hf, P u hf → t ≤ hf.lastUpdate) : m'.NoneOlder t u := by
  have hpopped : m.popped.NoneOlder t u := ⟨h.signal, h.idle⟩
  cases htick with
  | periodic nobody quiet => exact hpopped.quiet quiet
  | @replaces aggr users nobody proper =>
    refine ⟨fun task htask ↦ ?_, h.idle⟩
    obtain ⟨old, hold, hresults, -⟩ := users_detach users htask
    rw [hresults]
    exact h.signal old hold
  | waits free quiet users stamped =>
    refine ⟨(hpopped.quiet quiet).signal, fun results hresults ↦ ?_⟩
    rw [← Option.some_inj.mp hresults]
    exact notOlder_of_stamped hnew stamped

theorem Main.Fresh.tick {m m' : Main S} (hfresh : m.Fresh K t u) (htick : Tick K P m m')
    (hnew : ∀ hf, P u hf → t ≤ hf.lastUpdate) : m'.Fresh K t u := by
  cases htick with
  | periodic nobody quiet => exact fresh_of_renews (m := m) quiet.globals.renews hnew hfresh
  | replaces nobody proper => exact hfresh
  | waits free quiet users stamped =>
    exact fresh_of_renews (m := m) quiet.globals.renews (fun _ hfalse ↦ hfalse.elim) hfresh

/-- Whoever waits in the first batch is among the users of the tick. -/
theorem Main.At.mem_headD {m : Main S} (hat : m.At u (.queued 0)) :
    u ∈ m.usersPending.headD [] := by
  obtain ⟨batch, hbatch, hu⟩ := hat
  rw [List.headD_eq_head?_getD, List.head?_eq_getElem?, hbatch]
  exact hu

/-- The other batches move up. -/
theorem Main.At.popped {m : Main S} {place : Place} (hat : m.At u place)
    (hlater : place ≠ .queued 0) : m.popped.At u place.tick := by
  cases place with
  | queued k =>
    obtain ⟨batch, hbatch, hu⟩ := hat
    cases k with
    | zero => exact absurd rfl hlater
    | succ k => exact ⟨batch, List.getElem?_tail.trans hbatch, hu⟩
  | signal | rest | idle => exact hat

/-- Nobody is lost with a list that is replaced. -/
theorem Main.At.replaced {m : Main S} {place : Place} (hat : m.popped.At u place) (aggr : String)
    (users : List String) (prevBlock : ℕ) :
    Main.At u { m.popped.detach aggr with
      globals := { m.globals with usersPreFiltered := m.globals.usersPreFiltered.set aggr users }
      prevBlock := prevBlock } place := by
  have hdetach : ∀ {task : SignalTask}, m.signalTask = some task →
      ∃ task', (m.popped.detach aggr).signalTask = some task' ∧ task'.results = task.results ∧
        task'.users.users { m.globals with
          usersPreFiltered := m.globals.usersPreFiltered.set aggr users }
          = task.users.users m.globals := by
    intro task htask
    obtain ⟨task', htask'⟩ : ∃ task', (m.popped.detach aggr).signalTask = some task' :=
      ⟨_, congrArg (Option.map _) htask⟩
    obtain ⟨old, hold, hresults, husers⟩ := users_detach users htask'
    obtain rfl := Option.some_inj.mp (htask.symm.trans hold)
    exact ⟨task', htask', hresults, husers⟩
  cases place with
  | queued | idle => exact hat
  | signal =>
    obtain ⟨task, htask, hu⟩ := hat
    obtain ⟨task', htask', hresults, -⟩ := hdetach htask
    exact ⟨task', htask', hresults ▸ hu⟩
  | rest =>
    obtain ⟨task, htask, hu⟩ := hat
    obtain ⟨task', htask', -, husers⟩ := hdetach htask
    exact ⟨task', htask', husers ▸ hu⟩

/-- In a tick the queue moves up. -/
theorem Main.At.tick {m m' : Main S} {place : Place} (hat : m.At u place) (htick : Tick K P m m') :
    m'.At u place.tick := by
  by_cases hfirst : place = .queued 0
  · subst hfirst
    have hu := hat.mem_headD
    cases htick with
    | periodic nobody quiet | replaces nobody proper =>
      rw [nobody] at hu
      exact absurd hu List.not_mem_nil
    | @waits results m' free quiet users stamped =>
      rw [← users] at hu
      exact ⟨results, rfl, hu⟩
  have hpopped := hat.popped hfirst
  cases htick with
  | periodic nobody quiet => exact hpopped.quiet quiet
  | @replaces aggr users nobody proper => exact hpopped.replaced aggr users m.blockInfos.blockNum
  | @waits results m' free quiet users stamped =>
    have hat' := hpopped.quiet quiet
    cases place with
    | queued k =>
      cases k with
      | zero => exact absurd rfl hfirst
      | succ k => exact hat'
    | signal | rest => exact hat'
    | idle =>
      obtain ⟨results', hresults, -⟩ := hat
      cases free.symm.trans hresults

/-! ## Steps -/

variable (K t u) in
/-- The user is not forgotten: the health factor is fresh, or the user waits at one of these
places. -/
structure Main.Serves (Q : Place → Prop) (m : Main S) : Prop where
  noneOlder : m.NoneOlder t u
  freshOrAt : m.Fresh K t u ∨ ∃ place, Q place ∧ m.At u place

/-- The places from which no one gets elsewhere but by an idle tick. -/
def Closed (Q : Place → Prop) : Prop := Q .rest → ∀ k, Q (.queued k)

theorem Main.Serves.moves {Q : Place → Prop} {m m' : Main S} (h : m.Serves K t u Q)
    (hmoves : Relation.ReflTransGen (Move K P) m m') (hQ : Closed Q)
    (hnew : ∀ hf, P u hf → t ≤ hf.lastUpdate) : m'.Serves K t u Q := by
  induction hmoves with
  | refl => exact h
  | tail _ hmove ih =>
    refine ⟨ih.noneOlder.move hmove hnew, ?_⟩
    obtain hfresh | ⟨place, hplace, hat⟩ := ih.freshOrAt
    · exact .inl (hfresh.move ih.noneOlder hmove hnew)
    obtain hfresh | hat' | ⟨rfl, k, hat'⟩ := hat.move ih.noneOlder hmove
    · exact .inl hfresh
    · exact .inr ⟨place, hplace, hat'⟩
    · exact .inr ⟨.queued k, hQ hplace k, hat'⟩

/-- A step forgets nobody, unless the program ends in it. -/
theorem Main.Serves.step {Q Q' : Place → Prop} (hK : K.Extends) {m : Main S} (hm : m.Known K)
    (h : m.Serves K t u Q) {e : Event} (he : e.NotBefore t u) (hQ' : Closed Q')
    (hQ : ∀ place, Q place → Q' (if m.ticks e then place.tick else place)) :
    (m.step env K e).Serves K t u Q' ∨ (m.step env K e).Stopped := by
  rw [Main.step]
  by_cases hstopped : m.Stopped
  · rw [if_pos hstopped]
    exact .inr hstopped
  rw [if_neg hstopped]
  have hhandled := handled_handle env hK hm e
  generalize m.handle env K e = m', m.ticks e = ticks at hhandled hQ
  cases hhandled with
  | moves moves =>
    have h' : m.Serves K t u Q' := by
      refine ⟨h.noneOlder, ?_⟩
      obtain hfresh | ⟨place, hplace, hat⟩ := h.freshOrAt
      · exact .inl hfresh
      · exact .inr ⟨place, hQ place hplace, hat⟩
    exact .inl (h'.moves moves hQ' he)
  | @ticks m₁ _ tick moves =>
    have h₁ : m₁.Serves K t u Q' := by
      refine ⟨h.noneOlder.tick tick he, ?_⟩
      obtain hfresh | ⟨place, hplace, hat⟩ := h.freshOrAt
      · exact .inl (hfresh.tick tick he)
      · exact .inr ⟨place.tick, hQ place hplace, hat.tick tick⟩
    exact .inl (h₁.moves moves hQ' he)
  | stops quiet stopped => exact .inr stopped

theorem stopped_run {m : Main S} (h : m.Stopped) (events : List Event) :
    (runFrom (Main.step env K) m events).Stopped := by
  have hstep : ∀ (m : Main S) (e : Event), m.Stopped → (m.step env K e).Stopped := by
    intro m e hm
    rwa [Main.step, if_pos hm]
  exact runFrom_invariant hstep h events

variable (env) in
theorem serves_run (hK : K.Extends) {events : List Event} : ∀ {m : Main S}, m.Known K →
    m.Serves K t u (fun _ ↦ True) → (∀ e ∈ events, e.NotBefore t u) →
    (runFrom (Main.step env K) m events).Serves K t u (fun _ ↦ True) ∨
      (runFrom (Main.step env K) m events).Stopped := by
  induction events with
  | nil => exact fun _ h _ ↦ .inl h
  | cons e events ih =>
    intro m hm h hevents
    have hstep : (m.step env K e).Serves K t u (fun _ ↦ True) ∨ (m.step env K e).Stopped :=
      h.step hK hm (hevents e List.mem_cons_self) (fun _ _ ↦ trivial) fun _ _ ↦ trivial
    obtain hserves | hstopped := hstep
    · exact ih (hm.step hK e) hserves fun e' he' ↦ hevents e' (List.mem_cons_of_mem e he')
    · exact .inr (stopped_run hstopped events)

/-! ## Signals -/

/-- Of a list, those whom a calculation for its first twenty leaves out are behind them. -/
theorem Calculated.mem_or_mem_drop {atUser : String → ℤ} {users : List String}
    {results : List HfResult} (h : Calculated atUser (users.take 20) results) (hu : u ∈ users) :
    u ∈ results.map Prod.fst ∨ u ∈ users.drop 20 := by
  rw [h.users, ← List.mem_append, List.take_append_drop]
  exact hu

/-- An accepted signal forgets nobody in the list of its aggregator. -/
theorem serves_signal {m : Main S} (hm : m.Known K) (hrunning : ¬ m.Stopped)
    (hfree : m.signalTask = none) {clock : SignalClock} {uniqueId : String → String}
    {message : PendingTx} {aggr : String} (haccepted : m.acceptedAggr env message = some aggr)
    (hreturns : ∃ task, ((pt env K clock uniqueId message).run m).1 = .ok task)
    (hu : u ∈ m.globals.listOf aggr) (hclock : t ≤ clock.atUser u)
    (hidle : ∀ results, m.idleTask = some results → NotOlder t u results) :
    (m.step env K (.signal clock uniqueId message)).Serves K t u fun _ ↦ True := by
  rw [Main.step, if_neg hrunning, Main.handle, hfree]
  dsimp only
  rw [Main.perform, Proc.run_bind]
  have hrun := ptRun_pt env K clock uniqueId message m
  generalize (pt env K clock uniqueId message).run m = run at hrun hreturns
  have hnotOlder : ∀ {users : List String} {results : List HfResult},
      Calculated clock.atUser users results → NotOlder t u results := by
    rintro users results hcalculated res hres rfl
    rw [hcalculated.time res hres]
    exact hclock
  cases hrun with
  | raised quiet =>
    obtain ⟨task, htask⟩ := hreturns
    cases htask
  | skipped quiet empty =>
    have hempty := (quiet.globals.sublist aggr).subset hu
    rw [empty aggr haccepted] at hempty
    exact absurd hempty List.not_mem_nil
  | @waits aggr' results m' quiet accepted calculated =>
    obtain rfl := Option.some_inj.mp (haccepted.symm.trans accepted)
    change Main.Serves K t u (fun _ ↦ True) { m' with signalTask := some ⟨results, .current aggr⟩ }
    refine ⟨⟨fun task htask ↦ ?_, fun results' hresults ↦ hidle results'
      (quiet.idleTask ▸ hresults)⟩, .inr ?_⟩
    · rw [← Option.some_inj.mp htask]
      exact hnotOlder calculated
    obtain hfirst | hrest := calculated.mem_or_mem_drop ((quiet.globals.sublist aggr).subset hu)
    · exact ⟨.signal, trivial, _, rfl, hfirst⟩
    · exact ⟨.rest, trivial, _, rfl, hrest⟩
  | @finishes aggr' results m' quiet accepted calculated =>
    obtain rfl := Option.some_inj.mp (haccepted.symm.trans accepted)
    have hknown : ∀ res ∈ results, m'.globals.Knows K res.1 := fun res hres ↦
      ((hm.quiet quiet).listed aggr).2 res.1 (List.mem_of_mem_take (calculated.mem hres))
    obtain ⟨g', hrun, hwritten⟩ := run_finishSignal ⟨results, .current aggr⟩ hknown
    rw [Proc.run_bind_of_ok hrun]
    refine ⟨⟨fun task htask ↦ (by cases htask), fun results' hresults ↦ hidle results'
      (quiet.idleTask ▸ hresults)⟩, ?_⟩
    obtain hfirst | hrest := calculated.mem_or_mem_drop ((quiet.globals.sublist aggr).subset hu)
    · exact .inl (WrittenBack.fresh (m := m') hwritten (hnotOlder calculated) hfirst)
    · exact .inr ⟨.queued m'.usersPending.length, trivial, _, List.getElem?_concat_length, hrest⟩

/-- **Nobody is forgotten.** A signal that `pt` accepts and handles without an exception finds a
user in the list of its aggregator, and no older result of the user waits with an idle tick.
Whatever the steps after it are, if their clocks do not go back, then the user's health factor has
been calculated since the signal, or the user waits, or the program has ended. -/
theorem nobody_forgotten (hK : K.Extends) {m₀ : Main S} (hstart : m₀.AtStart env K)
    (past : List Event) {m : Main S} (hm : runFrom (Main.step env K) m₀ past = m)
    (hrunning : ¬ m.Stopped) (hfree : m.signalTask = none) {clock : SignalClock}
    {uniqueId : String → String} {message : PendingTx} {aggr : String}
    (haccepted : m.acceptedAggr env message = some aggr)
    (hreturns : ∃ task, ((pt env K clock uniqueId message).run m).1 = .ok task)
    (hu : u ∈ m.globals.listOf aggr) (hclock : t ≤ clock.atUser u)
    (hidle : ∀ results, m.idleTask = some results → NotOlder t u results) (later : List Event)
    (hlater : ∀ e ∈ later, e.NotBefore t u) {m' : Main S}
    (hm' : runFrom (Main.step env K) m (.signal clock uniqueId message :: later) = m') :
    m'.Fresh K t u ∨ (∃ place, m'.At u place) ∨ m'.Stopped := by
  have hknown : m.Known K := hm ▸ known_run hK (hstart.known hK) past
  have hserves := serves_signal hknown hrunning hfree haccepted hreturns hu hclock hidle
  rw [← hm']
  obtain hserves' | hstopped := serves_run env hK (hknown.step hK _) hserves hlater
  · exact hserves'.freshOrAt.imp id fun ⟨place, _, hat⟩ ↦ .inl ⟨place, hat⟩
  · exact .inr (.inr hstopped)

/-! ## The queue -/

/-- The first `n` batches, and the results of an idle tick. -/
def Place.Within (n : ℕ) : Place → Prop
  | .queued k => k < n
  | .idle => True
  | _ => False

theorem Place.Within.tick {n : ℕ} {place : Place} (h : place.Within n) :
    place.tick.Within (n - 1) := by
  cases place with
  | queued k =>
    cases k with
    | zero => trivial
    | succ k => exact Nat.lt_sub_of_add_lt h
  | signal | rest => exact h
  | idle => trivial

variable (env K) in
/-- The number of idle ticks in a run. -/
def ticksIn (m : Main S) : List Event → ℕ
  | [] => 0
  | e :: events => (if m.ticks e then 1 else 0) + ticksIn (m.step env K e) events

variable (env) in
/-- A run with so many ticks moves the queue up by as many batches. -/
theorem serves_run_within (hK : K.Extends) {events : List Event} : ∀ {m : Main S} {n : ℕ},
    m.Known K → m.Serves K t u (Place.Within n) → (∀ e ∈ events, e.NotBefore t u) →
    (runFrom (Main.step env K) m events).Serves K t u (Place.Within (n - ticksIn env K m events)) ∨
      (runFrom (Main.step env K) m events).Stopped := by
  induction events with
  | nil => exact fun _ h _ ↦ .inl h
  | cons e events ih =>
    intro m n hm h hevents
    have hstep : (m.step env K e).Serves K t u (Place.Within (n - if m.ticks e then 1 else 0)) ∨
        (m.step env K e).Stopped := by
      refine h.step hK hm (hevents e List.mem_cons_self) (fun hrest ↦ hrest.elim) ?_
      intro place hplace
      cases m.ticks e with
      | true => exact hplace.tick
      | false => exact hplace
    obtain hserves | hstopped := hstep
    · rw [ticksIn, ← Nat.sub_sub]
      exact ih (hm.step hK e) hserves fun e' he' ↦ hevents e' (List.mem_cons_of_mem e he')
    · exact .inr (stopped_run hstopped events)

/-- **The queue is drained in order.** With a user in the batch `k` of the queue and no older result
of the user with a waiting task, a run with more than `k` idle ticks, whatever else happens in it,
gives the user a health factor, but for the results of the last tick, which may still wait. -/
theorem drained (hK : K.Extends) {m₀ : Main S} (hstart : m₀.AtStart env K) (past : List Event)
    {m : Main S} (hm : runFrom (Main.step env K) m₀ past = m) {k : ℕ}
    (hat : m.At u (.queued k)) (holder : m.NoneOlder t u) (events : List Event)
    (hevents : ∀ e ∈ events, e.NotBefore t u) (hticks : k < ticksIn env K m events)
    {m' : Main S} (hm' : runFrom (Main.step env K) m events = m') :
    m'.Fresh K t u ∨ m'.At u .idle ∨ m'.Stopped := by
  have hknown : m.Known K := hm ▸ known_run hK (hstart.known hK) past
  have hserves : m.Serves K t u (Place.Within (k + 1)) :=
    ⟨holder, .inr ⟨.queued k, Nat.lt_succ_self k, hat⟩⟩
  rw [← hm']
  obtain hserves' | hstopped := serves_run_within env hK hknown hserves hevents
  · rw [Nat.sub_eq_zero_of_le hticks] at hserves'
    refine hserves'.freshOrAt.imp id fun ⟨place, hplace, hat'⟩ ↦ .inl ?_
    cases place with
    | idle => exact hat'
    | queued j => exact absurd hplace (Nat.not_lt_zero j)
    | signal | rest => exact hplace.elim
  · exact .inr (.inr hstopped)

end Served

/-! ## A signal for twenty-one users -/

/-- What `pt` does behind the calculation. -/
theorem run_handleSignal_of_results {L : Type} {env : MainEnv L} {S : Type} {K : StatesClass S}
    {clock : SignalClock} (uniqueId : String → String) (sig : SignalInfos) {res : List SignalEntry}
    {aggr : String} {m : Main S} {v : List String × ℚ} {g : Globals S}
    (hprices : (onMarkets env K (priceLoop env.cls clock.atRound res [] 0)).run m.globals
      = (.ok v, g)) (husers : g.usersPreFiltered.getD aggr [] ≠ []) {results : List HfResult}
    (hresults : healthFactors clock.atUser g.comet (K.states g.states)
      ((g.usersPreFiltered.getD aggr []).take 20) = .ok results) :
    (handleSignal env K clock uniqueId sig res aggr).run m = Proc.run (do
        let waits ← sendLiquidations env K uniqueId results (some sig) (some sig.toSignalRecv)
        let task : SignalTask := ⟨results, .current aggr⟩
        if waits then return some task
        finishSignal K task
        return none) { m with globals := g } := by
  have hlen : ¬ (g.usersPreFiltered.getD aggr []).length = 0 := fun h ↦
    husers (List.length_eq_zero_iff.mp h)
  rw [handleSignal, Proc.run_bind, onGlobals, Proc.run_zoom, hprices]
  dsimp only
  rw [Proc.run_bind, Proc.run_read]
  dsimp only
  rw [if_neg hlen, Proc.run_bind, Proc.run_ofExcept, hresults]

/-- A signal that `pt` handles without an exception. -/
theorem step_signal {L : Type} {env : MainEnv L} {S : Type} {K : StatesClass S} {m m' : Main S}
    (hrunning : ¬ m.Stopped) (hfree : m.signalTask = none) {clock : SignalClock}
    {uniqueId : String → String} {message : PendingTx} {task : Option SignalTask}
    (hpt : (pt env K clock uniqueId message).run m = (.ok task, m')) :
    m.step env K (.signal clock uniqueId message) = { m' with signalTask := task } := by
  rw [Main.step, if_neg hrunning, Main.handle, hfree]
  dsimp only
  rw [Main.perform, Proc.run_bind_of_ok hpt]
  rfl

/-- What `pt` does with the signal in a state. -/
def smallHandled (m : Main HighProfitSates) :
    Except Error (Option SignalTask) × Main HighProfitSates :=
  (handleSignal smallEnv highProfitSates ⟨fun _ ↦ 300, fun _ ↦ 300⟩ id
    ⟨⟨smallMessage.input⟩, m.blockInfos.blockNum, 5000000000⟩ [⟨"0xA", 7, 18⟩, ⟨"0xB", 7, 18⟩]
    "0x137924d7c36816e0dcaf016eb617cc2c92c05782").run
      { m with
        globals := { m.globals with
          signals := m.globals.signals.setEpoch "0x137924d7c36816e0dcaf016eb617cc2c92c05782"
            (epochOfCtx 5) }
        signalRecv := some ⟨⟨smallMessage.input⟩, m.blockInfos.blockNum, 5000000000⟩ }

/-- The state behind so many signals and their completions. -/
def smallAfter : ℕ → Main HighProfitSates
  | 0 => smallMain
  | k + 1 => { (smallHandled (smallAfter k)).2 with
      signalTask := (smallHandled (smallAfter k)).1.toOption.getD none }.step smallEnv
        highProfitSates .signalDone

theorem smallAfter_zero : smallAfter 0 = smallMain := rfl

private theorem smallAfter_ready : ∀ k ∈ [0, 1],
    ((smallAfter k).globals.signals.setEpoch "0x137924d7c36816e0dcaf016eb617cc2c92c05782"
        (epochOfCtx 5)).noName "0x137924d7c36816e0dcaf016eb617cc2c92c05782" 7
        = .ok ([⟨"0xA", 7, 18⟩, ⟨"0xB", 7, 18⟩], "0x137924d7c36816e0dcaf016eb617cc2c92c05782") ∧
      (smallAfter k).globals.signals.localEpoch "0x137924d7c36816e0dcaf016eb617cc2c92c05782"
        ≤ epochOfCtx 5 ∧
      (smallAfter k).blockInfos.gasPrice = 5000000000 ∧ ¬ (smallAfter k).Stopped ∧
      (smallAfter k).signalTask.isNone = true ∧
      (smallHandled (smallAfter k)).1.toBool = true := by
  decide +kernel

private theorem entries_small {k : ℕ} (hk : k ∈ [0, 1]) :
    (ptEntries smallEnv.ninety (transmitOf 7) (smallAfter k).blockInfos.gasPrice).run
      (smallAfter k).globals.signals = (.ok ([⟨"0xA", 7, 18⟩, ⟨"0xB", 7, 18⟩],
        "0x137924d7c36816e0dcaf016eb617cc2c92c05782"),
      (smallAfter k).globals.signals.setEpoch "0x137924d7c36816e0dcaf016eb617cc2c92c05782"
        (epochOfCtx 5)) := by
  obtain ⟨hentries, hstale, hgas, -⟩ := smallAfter_ready k hk
  have hparsed := run_transmitOf 7 hstale
  have hprice : (((7 : BitVec 192).signExtend 256).toNat : ℤ) = 7 := by decide
  have haddr : (transmitOf 7).toAddr = "0x137924d7c36816e0dcaf016eb617cc2c92c05782" := rfl
  rw [hprice, haddr] at hparsed
  rw [hgas]
  refine (Proc.run_bind_of_ok hparsed).trans ?_
  rw [Proc.run_bind_of_ok (Proc.run_read _), Proc.run_ofExcept]
  exact congrArg (·, _) hentries

private theorem run_pt_small {k : ℕ} (hk : k ∈ [0, 1]) :
    (pt smallEnv highProfitSates ⟨fun _ ↦ 300, fun _ ↦ 300⟩ id smallMessage).run (smallAfter k)
      = smallHandled (smallAfter k) :=
  run_pt_of_entries smallMessage (entries_small hk) recordTx_smallMessage

private theorem returns_small {k : ℕ} (hk : k ∈ [0, 1]) :
    ∃ task, (smallHandled (smallAfter k)).1 = .ok task := by
  obtain ⟨-, -, -, -, -, hok⟩ := smallAfter_ready k hk
  rcases h : (smallHandled (smallAfter k)).1 with e | task
  · rw [h] at hok
    cases hok
  · exact ⟨task, rfl⟩

theorem nobody_forgotten_small :
    let m' := runFrom (Main.step smallEnv highProfitSates) smallMain
      [smallSignal, .idle ⟨300, fun _ ↦ 300⟩ id, .signalDone]
    m'.Fresh highProfitSates 300 "u" ∨ (∃ place, m'.At "u" place) ∨ m'.Stopped := by
  have hfirst : 0 ∈ [0, 1] := List.mem_cons_self
  have haccepted : smallMain.acceptedAggr smallEnv smallMessage
      = some "0x137924d7c36816e0dcaf016eb617cc2c92c05782" := by
    have hentries := entries_small hfirst
    rw [smallAfter_zero] at hentries
    rw [Main.acceptedAggr]
    exact congrArg (fun r ↦ (Except.toOption r.1).map Prod.snd) hentries
  refine nobody_forgotten HighProfitSates.extends_highProfitSates smallMain_atStart [] rfl
    (by decide) rfl haccepted ?_ (by decide) (le_refl 300)
    (fun results hresults ↦ (by cases hresults)) _ ?_ rfl
  · rw [runFrom_nil, ← smallAfter_zero, run_pt_small hfirst]
    exact returns_small hfirst
  · refine List.forall_mem_cons.mpr ⟨fun hf hhf ↦ hhf.ge, List.forall_mem_singleton.mpr ?_⟩
    exact fun hf hhf ↦ hhf.elim

private theorem run_smallAfter {k : ℕ} (hk : k ∈ [0, 1]) :
    runFrom (Main.step smallEnv highProfitSates) (smallAfter k) [smallSignal, .signalDone]
      = smallAfter (k + 1) := by
  obtain ⟨-, -, -, hrunning, hfree, -⟩ := smallAfter_ready k hk
  obtain ⟨task, htask⟩ := returns_small hk
  have hstep : (smallAfter k).step smallEnv highProfitSates smallSignal
      = { (smallHandled (smallAfter k)).2 with signalTask := task } :=
    step_signal hrunning (Option.isNone_iff_eq_none.mp hfree)
      ((run_pt_small hk).trans (Prod.ext htask rfl))
  rw [runFrom_cons, runFrom_singleton, hstep, smallAfter, htask]
  rfl

/-- Behind two signals the last user waits in two batches, and an idle tick takes the first one. -/
private theorem queued_small : (smallAfter 2).usersPending = [["u"], ["u"]] ∧
    (smallAfter 2).signalTask.isNone = true ∧ (smallAfter 2).idleTask.isNone = true ∧
    (((smallAfter 2).step smallEnv highProfitSates (.idle ⟨300, fun _ ↦ 400⟩ id)).step smallEnv
      highProfitSates .idleDone).idleTask.isNone = true := by
  decide +kernel

theorem drained_small :
    let m' := runFrom (Main.step smallEnv highProfitSates) smallMain
      [smallSignal, .signalDone, smallSignal, .signalDone, .idle ⟨300, fun _ ↦ 400⟩ id, .idleDone,
        .idle ⟨300, fun _ ↦ 500⟩ id]
    m'.Fresh highProfitSates 400 "u" ∨ m'.At "u" .idle ∨ m'.Stopped := by
  obtain ⟨hpending, hsignal, hidle, hidle'⟩ := queued_small
  rw [Option.isNone_iff_eq_none] at hsignal
  have hpast : runFrom (Main.step smallEnv highProfitSates) smallMain
      ([smallSignal, .signalDone] ++ [smallSignal, .signalDone]) = smallAfter 2 := by
    rw [runFrom_append, ← smallAfter_zero, run_smallAfter (by decide), run_smallAfter (by decide)]
  have hat : (smallAfter 2).At "u" (.queued 1) :=
    ⟨["u"], congrArg (·[1]?) hpending, List.mem_singleton_self _⟩
  have holder : (smallAfter 2).NoneOlder 400 "u" := by
    refine ⟨fun task htask ↦ ?_, fun results hresults ↦ ?_⟩
    · cases hsignal.symm.trans htask
    · cases (Option.isNone_iff_eq_none.mp hidle).symm.trans hresults
  have hticks : 1 < ticksIn smallEnv highProfitSates (smallAfter 2)
      [.idle ⟨300, fun _ ↦ 400⟩ id, .idleDone, .idle ⟨300, fun _ ↦ 500⟩ id] := by
    have hfirst : (smallAfter 2).ticks (.idle ⟨300, fun _ ↦ 400⟩ id) = true := hidle
    have hlast : (((smallAfter 2).step smallEnv highProfitSates
        (.idle ⟨300, fun _ ↦ 400⟩ id)).step smallEnv highProfitSates .idleDone).ticks
          (.idle ⟨300, fun _ ↦ 500⟩ id) = true := hidle'
    rw [ticksIn, ticksIn, ticksIn, ticksIn, if_pos hfirst, if_pos hlast]
    omega
  have hevents : ∀ e ∈ [Event.idle ⟨300, fun _ ↦ 400⟩ id, .idleDone, .idle ⟨300, fun _ ↦ 500⟩ id],
      e.NotBefore 400 "u" := by
    refine List.forall_mem_cons.mpr ⟨fun hf hhf ↦ hhf.ge, List.forall_mem_cons.mpr
      ⟨fun hf hhf ↦ hhf.elim, List.forall_mem_singleton.mpr fun hf hhf ↦ ?_⟩⟩
    exact le_trans (by decide) hhf.ge
  have hrun := @runFrom_append _ _ (Main.step smallEnv highProfitSates) smallMain
    ([smallSignal, .signalDone] ++ [smallSignal, .signalDone])
    [.idle ⟨300, fun _ ↦ 400⟩ id, .idleDone, .idle ⟨300, fun _ ↦ 500⟩ id]
  rw [hpast] at hrun
  exact drained HighProfitSates.extends_highProfitSates smallMain_atStart _ hpast hat holder _
    hevents hticks hrun.symm

end CompoundLiquidation
