import CompoundLiquidation.Main.Steps
import Mathlib.Logic.Relation

/-!
# Known users

The lists of users at risk, the queue and the tasks that wait only name users; the states are asked
for them later, in `gen_users_with_args`, `write_health_factor` and the insertion, and a user who is
not there would be a `KeyError` that costs the callback one of the few exceptions the program
survives. None of these questions ever fails: whatever the order of the steps, everybody who is
named is in the states, and every aggregator that tokens are mapped to has a list.

Under this invariant a step of the program is a chain of moves of a few kinds. Two callbacks are cut
at their `await`, and a list may be replaced while `pt` waits with the old object.
-/

namespace CompoundLiquidation

open Python

section Known

variable {L : Type} {env : MainEnv L} {S : Type} {K : StatesClass S} {P : Kind}

/-! ## The invariant -/

variable (K) in
/-- Everybody who is named is known. -/
structure Main.Known (m : Main S) : Prop where
  mapped : ∀ token aggr, m.globals.signals.tokenSignalMap.get? token = some aggr →
    aggr ∈ m.globals.usersPreFiltered.keys
  listed : ∀ aggr, m.globals.Proper K (m.globals.listOf aggr)
  queued : ∀ batch ∈ m.usersPending, m.globals.Proper K batch
  signal : ∀ task, m.signalTask = some task → m.globals.Proper K (task.results.map Prod.fst) ∧
    m.globals.Proper K (task.users.users m.globals)
  idle : ∀ results, m.idleTask = some results → m.globals.Proper K (results.map Prod.fst)

/-- The list that `pt` holds. -/
theorem Advances.proper_held {g g' : Globals S} (h : Advances K P g g') {held : HeldList}
    (hproper : g.Proper K (held.users g)) : g'.Proper K (held.users g') := by
  cases held with
  | current aggr => exact h.proper_listOf hproper
  | replaced users => exact h.proper hproper

theorem Main.Known.quiet {m m' : Main S} (hm : m.Known K) (h : Quiet K P m m') : m'.Known K where
  mapped token aggr haggr := by
    rw [h.globals.tokenSignalMap] at haggr
    exact (h.globals.aggrs aggr).mpr (hm.mapped token aggr haggr)
  listed aggr := h.globals.proper_listOf (hm.listed aggr)
  queued batch hbatch := h.globals.proper (hm.queued batch (h.usersPending ▸ hbatch))
  signal task htask := by
    obtain ⟨hresults, husers⟩ := hm.signal task (h.signalTask ▸ htask)
    exact ⟨h.globals.proper hresults, h.globals.proper_held husers⟩
  idle results hresults := h.globals.proper (hm.idle results (h.idleTask ▸ hresults))

theorem Main.Known.popped {m : Main S} (hm : m.Known K) : m.popped.Known K :=
  { hm with queued := fun batch hbatch ↦ hm.queued batch (List.mem_of_mem_tail hbatch) }

theorem Main.Known.next {m : Main S} (hm : m.Known K) :
    m.globals.Proper K (m.usersPending.headD []) := by
  rcases hpending : m.usersPending with _ | ⟨batch, pending⟩
  · exact ⟨List.nodup_nil, fun _ hu ↦ absurd hu List.not_mem_nil⟩
  · exact hm.queued batch (hpending ▸ List.mem_cons_self)

/-! ## Moves -/

variable (K P) in
/-- The parts of a step that take nothing from the queue. -/
inductive Move (m : Main S) : Main S → Prop
  | quiet {m' : Main S} (quiet : Quiet K P m m') : Move m m'
  | signalWaits {aggr : String} {results : List HfResult} {m' : Main S}
    (free : m.signalTask = none) (quiet : Quiet K (fun _ _ ↦ False) m m')
    (users : results.map Prod.fst = (m'.globals.listOf aggr).take 20)
    (stamped : ∀ res ∈ results, P res.1 res.2.1) :
    Move m { m' with signalTask := some ⟨results, .current aggr⟩ }
  | signalDone {task : SignalTask} {g' : Globals S} (held : m.signalTask = some task)
    (written : WrittenBack K task.results m.globals g') :
    Move m { m with
      globals := g'
      usersPending := m.usersPending ++ [(task.users.users m.globals).drop 20]
      signalTask := none }
  | idleDone {results : List HfResult} {g' : Globals S} (held : m.idleTask = some results)
    (written : WrittenBack K results m.globals g') :
    Move m { m with globals := g', idleTask := none }

variable (K P) in
/-- The first part of an idle tick. -/
inductive Tick (m : Main S) : Main S → Prop
  | periodic {m' : Main S} (nobody : m.usersPending.headD [] = []) (quiet : Quiet K P m.popped m') :
    Tick m m'
  | replaces {aggr : String} {users : List String} (nobody : m.usersPending.headD [] = [])
    (proper : m.globals.Proper K users) :
    Tick m { m.popped.detach aggr with
      globals := { m.globals with usersPreFiltered := m.globals.usersPreFiltered.set aggr users }
      prevBlock := m.blockInfos.blockNum }
  | waits {results : List HfResult} {m' : Main S} (free : m.idleTask = none)
    (quiet : Quiet K (fun _ _ ↦ False) m.popped m')
    (users : results.map Prod.fst = m.usersPending.headD [])
    (stamped : ∀ res ∈ results, P res.1 res.2.1) :
    Tick m { m' with idleTask := some results }

/-- What a list object that is replaced held, `pt` still holds. -/
theorem users_detach {m : Main S} {aggr : String} (users : List String) {task : SignalTask}
    (htask : (m.popped.detach aggr).signalTask = some task) :
    ∃ old, m.signalTask = some old ∧ task.results = old.results ∧
      task.users.users { m.globals with
        usersPreFiltered := m.globals.usersPreFiltered.set aggr users }
        = old.users.users m.globals := by
  obtain ⟨⟨results, held⟩, hold, rfl⟩ := Option.map_eq_some_iff.mp htask
  refine ⟨⟨results, held⟩, hold, ?_⟩
  cases held with
  | replaced users => exact ⟨rfl, rfl⟩
  | current aggr' =>
    by_cases haggr : aggr' = aggr
    · dsimp only
      rw [if_pos haggr]
      exact ⟨rfl, rfl⟩
    · dsimp only
      rw [if_neg haggr]
      refine ⟨rfl, ?_⟩
      rw [HeldList.users, Dict.getD_set, if_neg haggr]
      rfl

theorem Main.Known.move {m m' : Main S} (hm : m.Known K) (h : Move K P m m') : m'.Known K := by
  cases h with
  | quiet quiet => exact hm.quiet quiet
  | @signalWaits aggr results m' free quiet users stamped =>
    have hm' := hm.quiet quiet
    refine { hm' with signal := fun task htask ↦ ?_ }
    rw [← Option.some_inj.mp htask, users]
    exact ⟨(hm'.listed aggr).sublist (List.take_sublist 20 _), hm'.listed aggr⟩
  | @signalDone task g' held written =>
    have hquiet : Quiet K (OfResults task.results) m { m with globals := g' } :=
      ⟨written.advances, rfl, rfl, rfl⟩
    have hm' := hm.quiet hquiet
    refine ⟨hm'.mapped, hm'.listed, fun batch hbatch ↦ ?_, fun task htask ↦ ?_, hm'.idle⟩
    · obtain hold | hnew := List.mem_append.mp hbatch
      · exact hm'.queued batch hold
      · rw [List.mem_singleton.mp hnew]
        exact written.advances.proper ((hm.signal task held).2.sublist (List.drop_sublist 20 _))
    · cases htask
  | @idleDone results g' held written =>
    have hquiet : Quiet K (OfResults results) m { m with globals := g' } :=
      ⟨written.advances, rfl, rfl, rfl⟩
    exact { hm.quiet hquiet with idle := fun results' hresults ↦ (by cases hresults) }

theorem Main.Known.moves {m m' : Main S} (hm : m.Known K)
    (h : Relation.ReflTransGen (Move K P) m m') : m'.Known K := by
  induction h with
  | refl => exact hm
  | tail _ hmove ih => exact ih.move hmove

theorem Main.Known.tick {m m' : Main S} (hm : m.Known K) (h : Tick K P m m') : m'.Known K := by
  cases h with
  | periodic nobody quiet => exact hm.popped.quiet quiet
  | @replaces aggr users nobody proper =>
    refine ⟨fun token aggr' haggr ↦ ?_, fun aggr' ↦ ?_, hm.popped.queued, fun task htask ↦ ?_,
      hm.idle⟩
    · exact Dict.mem_keys_set.mpr (.inr (hm.mapped token aggr' haggr))
    · rw [Globals.listOf, Dict.getD_set]
      split_ifs
      · exact proper
      · exact hm.listed aggr'
    · obtain ⟨old, hold, hresults, husers⟩ := users_detach users htask
      rw [hresults, husers]
      exact hm.signal old hold
  | @waits results m' free quiet users stamped =>
    have hm' := hm.popped.quiet quiet
    refine { hm' with idle := fun results' hresults ↦ ?_ }
    rw [← Option.some_inj.mp hresults, users]
    exact quiet.globals.proper hm.next

/-! ## Steps -/

/-- The health factors that a step calculates. -/
def Event.Stamps : Event → Kind
  | .users d => CalculatedAt d.clock.atUser
  | .signal clock _ _ => CalculatedAt clock.atUser
  | .idle clock _ => CalculatedAt clock.atUser
  | _ => fun _ _ ↦ False

/-- An idle tick that is not held up by the one before. -/
def Main.ticks (m : Main S) : Event → Bool
  | .idle _ _ => m.idleTask.isNone
  | _ => false

variable (K P) in
/-- What a step does: a few moves, behind the first part of an idle tick if it is one. A tick may
also raise, and one exception ends the program then. -/
inductive Handled (m : Main S) : Bool → Main S → Prop
  | moves {m' : Main S} (moves : Relation.ReflTransGen (Move K P) m m') : Handled m false m'
  | ticks {m₁ m' : Main S} (tick : Tick K P m m₁)
    (moves : Relation.ReflTransGen (Move K P) m₁ m') : Handled m true m'
  | stops {m' : Main S} (quiet : Quiet K P m.popped m') (stopped : m'.Stopped) : Handled m true m'

theorem Handled.quiet {m m' : Main S} (h : Quiet K P m m') : Handled K P m false m' :=
  .moves (.single (.quiet h))

theorem quiet_fail (task : TaskName) (e : Error) (m : Main S) :
    Quiet K P m (m.fail env task e) := by
  rw [Main.fail]
  split_ifs
  · exact .refl m
  · exact ⟨.refl _, rfl, rfl, rfl⟩

theorem stopped_fail_idle (e : Error) (m : Main S) : (m.fail env .idle e).Stopped := by
  refine ⟨.idle, ?_⟩
  rw [Main.fail, if_neg fun h ↦ TaskName.noConfusion h.1]
  dsimp only
  rw [Function.update_self]
  exact Nat.le_add_left 1 _

theorem handled_perform {task : TaskName} {x : Proc (Main S) Error Unit}
    (h : Proc.Keeps (Quiet K P) x) (m : Main S) : Handled K P m false (m.perform env task x) := by
  have hquiet := h m
  rw [Main.perform]
  rcases hrun : x.run m with ⟨e | _, m'⟩
  · rw [hrun] at hquiet
    exact .quiet (hquiet.trans _ _ _ (quiet_fail task e m'))
  · rw [hrun] at hquiet
    exact .quiet hquiet

theorem quiet_of_false {m m' : Main S} (h : Quiet K (fun _ _ ↦ False) m m') : Quiet K P m m' := by
  refine ⟨{ h.globals with renews := fun u hf hhf ↦ ?_ }, h.usersPending, h.signalTask, h.idleTask⟩
  exact ⟨hf, h.globals.renews.healthFactor_eq hhf, .inl rfl⟩

theorem handled_signal (clock : SignalClock) (uniqueId : String → String) (message : PendingTx)
    {m : Main S} (hm : m.Known K) : Handled K (CalculatedAt clock.atUser) m false
      (m.handle env K (.signal clock uniqueId message)) := by
  rw [Main.handle]
  rcases hfree : m.signalTask with _ | task
  swap
  · exact .moves .refl
  dsimp only
  rw [Main.perform, Proc.run_bind]
  have hrun := ptRun_pt env K clock uniqueId message m
  generalize (pt env K clock uniqueId message).run m = run at hrun
  cases hrun with
  | @raised e m' quiet =>
    exact .quiet ((quiet_of_false quiet).trans _ _ _ (quiet_fail .pending e m'))
  | @skipped m' quiet empty =>
    exact .quiet ⟨(quiet_of_false quiet).globals, quiet.usersPending, hfree.symm, quiet.idleTask⟩
  | @waits aggr results m' quiet accepted calculated =>
    exact .moves (.single (.signalWaits hfree quiet calculated.users calculated.time))
  | @finishes aggr results m' quiet accepted calculated =>
    have hm' := (hm.quiet quiet).listed aggr
    have hwaits : Move K (CalculatedAt clock.atUser) m
        { m' with signalTask := some ⟨results, .current aggr⟩ } :=
      .signalWaits hfree quiet calculated.users calculated.time
    have hknown : ∀ res ∈ results, m'.globals.Knows K res.1 := fun res hres ↦
      hm'.2 res.1 (List.mem_of_mem_take (calculated.mem hres))
    obtain ⟨g', hrun, hwritten⟩ := run_finishSignal ⟨results, .current aggr⟩ hknown
    rw [Proc.run_bind_of_ok hrun]
    exact .moves ((Relation.ReflTransGen.single hwaits).tail (.signalDone rfl hwritten))

theorem with_idleTask {m : Main S} (h : m.idleTask = none) : { m with idleTask := none } = m := by
  rw [← h]

theorem handled_idle (clock : Clock) (uniqueId : String → String) {m : Main S} (hm : m.Known K) :
    Handled K (CalculatedAt clock.atUser) m (m.ticks (.idle clock uniqueId))
      (m.handle env K (.idle clock uniqueId)) := by
  rw [Main.handle, Main.ticks]
  rcases hfree : m.idleTask with _ | results
  swap
  · exact .moves .refl
  rw [Option.isNone_none]
  dsimp only
  rw [Main.perform, Proc.run_bind]
  have hrun := idleRun_liquidationIdle env K clock uniqueId m
  generalize (liquidationIdle env K clock uniqueId).run m = run at hrun
  cases hrun with
  | @raised e m' quiet =>
    exact .stops (quiet.trans _ _ _ (quiet_fail .idle e m')) (stopped_fail_idle e m')
  | @periodic m' nobody quiet =>
    refine .ticks (.periodic nobody ?_) .refl
    exact ⟨quiet.globals, quiet.usersPending, quiet.signalTask, hfree.symm⟩
  | @replaces aggr users nobody listed proper =>
    have htick := @Tick.replaces S K (CalculatedAt clock.atUser) m aggr users nobody proper
    exact .ticks (with_idleTask hfree ▸ htick) .refl
  | @waits results m' quiet calculated =>
    exact .ticks (.waits hfree quiet calculated.users calculated.time) .refl
  | @finishes results m' quiet calculated =>
    have hwaits : Tick K (CalculatedAt clock.atUser) m { m' with idleTask := some results } :=
      .waits hfree quiet calculated.users calculated.time
    have hknown : ∀ res ∈ results, m'.globals.Knows K res.1 := fun res hres ↦
      quiet.globals.knows (hm.next.2 res.1 (calculated.mem hres))
    obtain ⟨g', hrun, hwritten⟩ := run_writeHealthFactor hknown
    have hglobals : (onGlobals (onStates K (States.writeHealthFactor results))).run m'
        = (.ok (), { m' with globals := g' }) := by
      rw [onGlobals, Proc.run_zoom, hrun]
    rw [Proc.run_bind_of_ok hglobals]
    exact .ticks hwaits (.single (.idleDone rfl hwritten))

variable (env) in
/-- **Steps are moves.** -/
theorem handled_handle (hK : K.Extends) {m : Main S} (hm : m.Known K) (e : Event) :
    Handled K e.Stamps m (m.ticks e) (m.handle env K e) := by
  cases e with
  | users d => exact handled_perform (quiet_onGlobals
      (advances_usersSubscribeCallback hK (fun _ _ h ↦ h) d.response)) m
  | comet response =>
    refine handled_perform (quiet_onGlobals fun g ↦ ?_) m
    exact ⟨.refl _, rfl, rfl, fun _ ↦ Iff.rfl, fun _ ↦ .refl _, fun _ ↦ id, fun _ _ ↦ .inl⟩
  | prices response => exact handled_perform (quiet_onGlobals (advances_onMarkets env _)) m
  | header node clock message => exact handled_perform (quiet_onMessage node clock message) m
  | signal clock uniqueId message => exact handled_signal clock uniqueId message hm
  | signalDone =>
    rw [Main.handle]
    rcases htask : m.signalTask with _ | task
    · exact .moves .refl
    have hresults := (hm.signal task htask).1
    obtain ⟨g', hrun, hwritten⟩ := run_finishSignal (m := { m with signalTask := none }) task
      fun res hres ↦ hresults.2 res.1 (List.mem_map_of_mem hres)
    dsimp only
    rw [Main.perform, hrun]
    exact .moves (.single (.signalDone htask hwritten))
  | idle clock uniqueId => exact handled_idle clock uniqueId hm
  | idleDone =>
    rw [Main.handle]
    rcases htask : m.idleTask with _ | results
    · exact .moves .refl
    have hresults := hm.idle results htask
    obtain ⟨g', hrun, hwritten⟩ := run_writeHealthFactor fun res hres ↦
      hresults.2 res.1 (List.mem_map_of_mem hres)
    dsimp only
    rw [Main.perform, onGlobals, Proc.run_zoom, hrun]
    exact .moves (.single (.idleDone htask hwritten))
  | receipts receipts => exact .quiet ⟨.refl _, rfl, rfl, rfl⟩
  | lost task e => exact .quiet (quiet_fail task e m)

/-- Every step keeps the invariant. -/
theorem Main.Known.step (hK : K.Extends) {m : Main S} (hm : m.Known K) (e : Event) :
    (m.step env K e).Known K := by
  rw [Main.step]
  by_cases hstopped : m.Stopped
  · rw [if_pos hstopped]
    exact hm
  rw [if_neg hstopped]
  have hhandled := handled_handle env hK hm e
  generalize m.handle env K e = m', m.ticks e = ticks at hhandled
  cases hhandled with
  | moves moves => exact hm.moves moves
  | ticks tick moves => exact (hm.tick tick).moves moves
  | stops quiet stopped => exact hm.popped.quiet quiet

end Known

end CompoundLiquidation
