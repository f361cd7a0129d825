import CompoundLiquidation.Python.Loop
import CompoundLiquidation.Users.Resume

/-!
# Windows of blocks

`query_events_loop` and `query_events_loop_liq` bring an object up to a block: window by window of
at most two thousand blocks they ask for the logs, give each of them to the `update` of the object,
move `last_update` to the end of the window and call a hook. The two differ in the arguments of the
hook alone.

Here the object is any one with a block number and an `update`. The state of a loop also keeps, in
order, the ranges it asked for and the logs it gave to `update`; the loops read neither. What they
are has to be said of a run that raises as well, since the caller may start again from the
`last_update` that is left.
-/

namespace CompoundLiquidation

open Python

/-! ## The program -/

/-- An object that the loops bring up to date. -/
structure LoggedObject (S R : Type) where
  lastUpdate : S → ℤ
  setLastUpdate : ℤ → S → S
  /-- `update`, which may return `None`. -/
  update : LogReceipt → Proc S Error (Option (Dict String R))
  lastUpdate_setLastUpdate : ∀ block obj, lastUpdate (setLastUpdate block obj) = block

/-- The object and the local variables of a loop, with the calls it has made. -/
structure LoopState (S : Type) where
  obj : S
  counter : ℤ
  /-- The ranges `get_logs` was asked for. -/
  requests : List (ℤ × ℤ)
  /-- The logs `obj.update` was called with. -/
  applied : List LogReceipt

/-- `eth.get_logs` for the first and the last block of a range, with the text of its exception. -/
abbrev GetLogs := ℤ → ℤ → Except String (List LogReceipt)

/-- A hook: what the window changed and the counter. -/
abbrev Hook (S R : Type) := Dict String R → ℤ → Proc S Error ℤ

namespace LoggedObject

variable {S R : Type} (O : LoggedObject S R)

/-- A computation on the object of a loop. -/
def onObj {α : Type} (x : Proc S Error α) : Proc (LoopState S) Error α :=
  Proc.zoom LoopState.obj (fun obj q ↦ { q with obj := obj }) x

/-- The loop over the logs of a window. -/
def applyLogs : List LogReceipt → Dict String R → Proc (LoopState S) Error (Dict String R)
  | [], res => pure res
  | log :: logs, res => do
    Proc.modify fun q ↦ { q with applied := q.applied ++ [log] }
    let temp ← onObj (O.update log)
    match temp with
    | some temp => applyLogs logs (res.update temp)
    | none => applyLogs logs res

/-- The exception of a loop when `get_logs` raised. -/
def getLogsFailed (fromBlock : ℤ) (e : String) : Error :=
  .exception ("get logs failed at " ++ toString fromBlock ++ ": " ++ e)

/-- The body of the loops. -/
def loopBody (getLogs : GetLogs) (targetBlock : ℤ) (hook : Hook S R) :
    Proc (LoopState S) Error Unit := do
  let q ← Proc.read
  let fromBlock := O.lastUpdate q.obj + 1
  let toBlock := StatesClass.windowEnd fromBlock targetBlock
  Proc.modify fun q ↦ { q with requests := q.requests ++ [(fromBlock, toBlock)] }
  let logs ← Proc.ofExcept ((getLogs fromBlock toBlock).mapError (getLogsFailed fromBlock))
  let res ← O.applyLogs logs ∅
  onObj (Proc.modify (O.setLastUpdate toBlock))
  Proc.modify fun q ↦ { q with counter := q.counter + 1 }
  let q ← Proc.read
  let counter ← onObj (hook res q.counter)
  Proc.modify fun q ↦ { q with counter := counter }

/-- The test of the loops. -/
def behind (targetBlock : ℤ) (q : LoopState S) : Bool := decide (O.lastUpdate q.obj < targetBlock)

/-- A loop starts with no calls made. -/
def start (obj : S) : LoopState S := ⟨obj, 0, [], []⟩

/-- `query_events_loop_liq` stops with this outcome. Its hook gets `w3_liq` as well. -/
def QueryEventsLoopLiq {W : Type} (w3Liq : W) (getLogs : GetLogs) (targetBlock : ℤ)
    (hook : W → Hook S R) (obj : S) (out : Except Error Unit × LoopState S) : Prop :=
  Proc.Stops (O.behind targetBlock) (O.loopBody getLogs targetBlock (hook w3Liq)) (start obj) out

end LoggedObject

/-- The windows tile the blocks behind `start` up to `stop`. -/
structure Tiling (start stop : ℤ) (windows : List (ℤ × ℤ)) : Prop where
  nonempty : ∀ w ∈ windows, w.1 ≤ w.2
  short : ∀ w ∈ windows, w.2 - w.1 + 1 ≤ 2000
  contiguous : windows.IsChain fun w w' ↦ w'.1 = w.2 + 1
  disjoint : windows.Pairwise fun w w' ↦ w.2 < w'.1
  union : ∀ block, (∃ w ∈ windows, w.1 ≤ block ∧ block ≤ w.2) ↔ start < block ∧ block ≤ stop
  /-- The last window ends at `stop`. -/
  ends : ∀ w ∈ windows.getLast?, w.2 = stop

theorem Tiling.nil (start : ℤ) : Tiling start start [] where
  nonempty _ h := absurd h List.not_mem_nil
  short _ h := absurd h List.not_mem_nil
  contiguous := .nil
  disjoint := .nil
  union block := by
    constructor
    · rintro ⟨w, hw, -⟩
      exact absurd hw List.not_mem_nil
    · omega
  ends _ h := by cases h

theorem Tiling.le_stop {start stop : ℤ} {windows : List (ℤ × ℤ)} (h : Tiling start stop windows)
    {w : ℤ × ℤ} (hw : w ∈ windows) : w.2 ≤ stop :=
  ((h.union w.2).mp ⟨w, hw, h.nonempty w hw, le_rfl⟩).2

/-- A tiling goes on with a window that starts behind it. -/
theorem Tiling.concat {start stop stop' : ℤ} {windows : List (ℤ × ℤ)}
    (h : Tiling start stop windows) (hstart : start ≤ stop) (hlt : stop < stop')
    (hshort : stop' ≤ stop + 2000) : Tiling start stop' (windows ++ [(stop + 1, stop')]) where
  nonempty w hw := by
    rcases List.mem_append.mp hw with hw | hw
    · exact h.nonempty w hw
    · rw [List.mem_singleton.mp hw]
      exact hlt
  short w hw := by
    rcases List.mem_append.mp hw with hw | hw
    · exact h.short w hw
    · rw [List.mem_singleton.mp hw]
      simp only
      omega
  contiguous := by
    refine List.isChain_append.mpr ⟨h.contiguous, .singleton _, fun w hw w' hw' ↦ ?_⟩
    rw [List.head?_cons, Option.mem_some_iff] at hw'
    rw [← hw', h.ends w hw]
  disjoint := by
    refine List.pairwise_append.mpr ⟨h.disjoint, List.pairwise_singleton _ _, fun w hw w' hw' ↦ ?_⟩
    rw [List.mem_singleton.mp hw']
    exact Int.lt_add_one_of_le (h.le_stop hw)
  union block := by
    simp only [List.mem_append, List.mem_singleton, or_and_right, exists_or, exists_eq_left,
      h.union block]
    omega
  ends w hw := by
    rw [List.getLast?_concat, Option.mem_some_iff] at hw
    rw [← hw]

/-- The logs of a range that is split behind a block. -/
theorem rangeLogs_append (logsOf : ℤ → List LogReceipt) {a b c : ℤ} (hab : a ≤ b + 1)
    (hbc : b ≤ c) : rangeLogs logsOf a b ++ rangeLogs logsOf (b + 1) c = rangeLogs logsOf a c := by
  have hlen : (c + 1 - a).toNat = (b + 1 - a).toNat + (c + 1 - (b + 1)).toNat := by omega
  rw [rangeLogs, rangeLogs, rangeLogs, hlen, List.range_add, List.flatMap_append,
    List.flatMap_map]
  congr 1
  refine List.flatMap_congr fun i _ ↦ ?_
  congr 1
  omega

/-- A range that ends before it starts has no logs. -/
theorem rangeLogs_of_lt (logsOf : ℤ → List LogReceipt) {a b : ℤ} (h : b < a) :
    rangeLogs logsOf a b = [] := by
  rw [rangeLogs, Int.toNat_of_nonpos (by omega)]
  rfl

/-! ## One window -/

section Window

variable {S R : Type} {O : LoggedObject S R} {getLogs : GetLogs} {targetBlock : ℤ} {hook : Hook S R}

/-- Neither `update` nor the hook changes the block number. -/
structure LoggedObject.Steady (O : LoggedObject S R) (hook : Hook S R) : Prop where
  update : ∀ log, Proc.Keeps (fun obj obj' ↦ O.lastUpdate obj' = O.lastUpdate obj) (O.update log)
  hook : ∀ res counter,
    Proc.Keeps (fun obj obj' ↦ O.lastUpdate obj' = O.lastUpdate obj) (hook res counter)

/-- `update` and the hook never raise. -/
structure LoggedObject.Calm (O : LoggedObject S R) (hook : Hook S R) : Prop where
  update : ∀ log obj, ∃ temp, ((O.update log).run obj).1 = .ok temp
  hook : ∀ res counter obj, ∃ counter', ((hook res counter).run obj).1 = .ok counter'

namespace LoggedObject

theorem run_applyLogs_cons (log : LogReceipt) (logs : List LogReceipt) (res : Dict String R)
    (q : LoopState S) :
    (O.applyLogs (log :: logs) res).run q
      = match (O.update log).run q.obj with
        | (.ok temp, obj) => (O.applyLogs logs (temp.elim res res.update)).run
            { q with obj := obj, applied := q.applied ++ [log] }
        | (.error e, obj) => (.error e, { q with obj := obj, applied := q.applied ++ [log] }) := by
  rw [applyLogs, Proc.run_bind, Proc.run_modify]
  simp only
  rw [Proc.run_bind, onObj, Proc.run_zoom]
  rcases (O.update log).run q.obj with ⟨e | temp, obj⟩
  · rfl
  · cases temp with
    | none => rfl
    | some temp => rfl

/-- The logs in front of the one that raises are applied in their order, once each. -/
theorem applyLogs_applied (hsteady : O.Steady hook) (logs : List LogReceipt) :
    ∀ (res : Dict String R) (q : LoopState S),
      ∃ done rest, logs = done ++ rest ∧
        ((O.applyLogs logs res).run q).2.applied = q.applied ++ done ∧
        ((O.applyLogs logs res).run q).2.requests = q.requests ∧
        O.lastUpdate ((O.applyLogs logs res).run q).2.obj = O.lastUpdate q.obj ∧
        ((∃ res', ((O.applyLogs logs res).run q).1 = .ok res') → rest = []) ∧
        (O.Calm hook → ∃ res', ((O.applyLogs logs res).run q).1 = .ok res') := by
  induction logs with
  | nil => exact fun res q ↦ ⟨[], [], rfl, (List.append_nil _).symm, rfl, rfl, fun _ ↦ rfl,
      fun _ ↦ ⟨res, rfl⟩⟩
  | cons log logs ih =>
    intro res q
    rw [run_applyLogs_cons]
    have hlast := hsteady.update log q.obj
    rcases hrun : (O.update log).run q.obj with ⟨e | temp, obj⟩
    · rw [hrun] at hlast
      refine ⟨[log], logs, rfl, rfl, rfl, hlast, ?_, fun hcalm ↦ ?_⟩
      · rintro ⟨_, h⟩
        cases h
      · obtain ⟨temp, htemp⟩ := hcalm.update log q.obj
        rw [hrun] at htemp
        cases htemp
    · rw [hrun] at hlast
      obtain ⟨done, rest, hsplit, happlied, hrequests, hobj, hrest, hok⟩ :=
        ih (temp.elim res res.update) { q with obj := obj, applied := q.applied ++ [log] }
      refine ⟨log :: done, rest, by rw [hsplit, List.cons_append], ?_, hrequests,
        hobj.trans hlast, hrest, hok⟩
      rw [happlied, List.append_assoc, List.singleton_append]

end LoggedObject

/-- What a window has done when it stops. -/
structure WindowDone (O : LoggedObject S R) (getLogs : GetLogs) (targetBlock : ℤ)
    (hook : Hook S R) (q : LoopState S) (out : Except Error Unit × LoopState S) : Prop where
  requests : out.2.requests = q.requests ++ [(O.lastUpdate q.obj + 1,
    StatesClass.windowEnd (O.lastUpdate q.obj + 1) targetBlock)]
  /-- Where `get_logs` raised, nothing else has happened. -/
  failed : ∀ e, getLogs (O.lastUpdate q.obj + 1)
      (StatesClass.windowEnd (O.lastUpdate q.obj + 1) targetBlock) = .error e →
    out.1 = .error (LoggedObject.getLogsFailed (O.lastUpdate q.obj + 1) e) ∧ out.2.obj = q.obj ∧
      out.2.applied = q.applied
  /-- A window that returns has applied its logs and moved the block number. -/
  completed : out.1 = .ok () → ∃ logs, getLogs (O.lastUpdate q.obj + 1)
      (StatesClass.windowEnd (O.lastUpdate q.obj + 1) targetBlock) = .ok logs ∧
    out.2.applied = q.applied ++ logs ∧
    O.lastUpdate out.2.obj = StatesClass.windowEnd (O.lastUpdate q.obj + 1) targetBlock
  /-- Only `get_logs` may raise when `update` and the hook do not. -/
  calm : O.Calm hook → ∀ logs, getLogs (O.lastUpdate q.obj + 1)
      (StatesClass.windowEnd (O.lastUpdate q.obj + 1) targetBlock) = .ok logs → out.1 = .ok ()

/-- The phases of a window: ask, apply, move on, call the hook. -/
theorem LoggedObject.run_loopBody (q : LoopState S) :
    (O.loopBody getLogs targetBlock hook).run q
      = match getLogs (O.lastUpdate q.obj + 1)
          (StatesClass.windowEnd (O.lastUpdate q.obj + 1) targetBlock) with
        | .error e => (.error (getLogsFailed (O.lastUpdate q.obj + 1) e),
            { q with requests := q.requests ++ [(O.lastUpdate q.obj + 1,
              StatesClass.windowEnd (O.lastUpdate q.obj + 1) targetBlock)] })
        | .ok logs => match (O.applyLogs logs ∅).run { q with requests := q.requests ++
              [(O.lastUpdate q.obj + 1,
                StatesClass.windowEnd (O.lastUpdate q.obj + 1) targetBlock)] } with
          | (.error e, q') => (.error e, q')
          | (.ok res, q') => match (hook res (q'.counter + 1)).run (O.setLastUpdate
                (StatesClass.windowEnd (O.lastUpdate q.obj + 1) targetBlock) q'.obj) with
            | (.error e, obj) => (.error e, { q' with obj := obj, counter := q'.counter + 1 })
            | (.ok counter, obj) => (.ok (), { q' with obj := obj, counter := counter }) := by
  rw [loopBody, Proc.run_bind, Proc.run_read]
  simp only [Proc.run_bind, Proc.run_modify, Proc.run_ofExcept]
  rcases getLogs (O.lastUpdate q.obj + 1)
    (StatesClass.windowEnd (O.lastUpdate q.obj + 1) targetBlock) with e | logs
  · rfl
  · simp only [Except.mapError]
    rcases (O.applyLogs logs ∅).run { q with requests := q.requests ++ [(O.lastUpdate q.obj + 1,
      StatesClass.windowEnd (O.lastUpdate q.obj + 1) targetBlock)] } with ⟨e | res, q'⟩
    · rfl
    · simp only [onObj, Proc.run_zoom, Proc.run_modify, Proc.run_read]
      rcases (hook res (q'.counter + 1)).run (O.setLastUpdate
        (StatesClass.windowEnd (O.lastUpdate q.obj + 1) targetBlock) q'.obj) with ⟨e | counter, obj⟩
      · rfl
      · rfl

theorem LoggedObject.Steady.windowDone (hsteady : O.Steady hook) (q : LoopState S) :
    WindowDone O getLogs targetBlock hook q ((O.loopBody getLogs targetBlock hook).run q) := by
  rw [LoggedObject.run_loopBody]
  set toBlock := StatesClass.windowEnd (O.lastUpdate q.obj + 1) targetBlock
  rcases hlogs : getLogs (O.lastUpdate q.obj + 1) toBlock with e | logs
  · refine ⟨rfl, fun e' he' ↦ ?_, fun h ↦ (by cases h), fun _ logs hlogs' ↦ ?_⟩
    · obtain rfl := Except.error.inj (hlogs.symm.trans he')
      exact ⟨rfl, rfl, rfl⟩
    · cases hlogs.symm.trans hlogs'
  simp only
  have hanswered : ∀ e, getLogs (O.lastUpdate q.obj + 1) toBlock ≠ .error e := by
    intro e he
    cases hlogs.symm.trans he
  obtain ⟨done, rest, hsplit, happlied, hrequests, -, hrest, hok⟩ := applyLogs_applied hsteady logs
    ∅ { q with requests := q.requests ++ [(O.lastUpdate q.obj + 1, toBlock)] }
  rcases hrun : (O.applyLogs logs ∅).run
      { q with requests := q.requests ++ [(O.lastUpdate q.obj + 1, toBlock)] } with ⟨e | res, q'⟩
  · rw [hrun] at happlied hrequests hok
    refine ⟨hrequests, fun e he ↦ absurd he (hanswered e), fun h ↦ (by cases h), fun hcalm ↦ ?_⟩
    obtain ⟨res', hres'⟩ := hok hcalm
    cases hres'
  · rw [hrun] at happlied hrequests hrest
    have hdone : done = logs := by rw [hsplit, hrest ⟨res, rfl⟩, List.append_nil]
    have hlast := hsteady.hook res (q'.counter + 1) (O.setLastUpdate toBlock q'.obj)
    simp only
    rcases hhook : (hook res (q'.counter + 1)).run (O.setLastUpdate toBlock q'.obj) with
      ⟨e | counter, obj⟩
    · refine ⟨hrequests, fun e he ↦ absurd he (hanswered e), fun h ↦ (by cases h), fun hcalm ↦ ?_⟩
      obtain ⟨counter', hcounter'⟩ :=
        hcalm.hook res (q'.counter + 1) (O.setLastUpdate toBlock q'.obj)
      rw [hhook] at hcounter'
      cases hcounter'
    · rw [hhook, O.lastUpdate_setLastUpdate] at hlast
      refine ⟨hrequests, fun e he ↦ absurd he (hanswered e), fun _ ↦ ?_, fun _ _ _ ↦ rfl⟩
      exact ⟨logs, hlogs, by rw [← hdone]; exact happlied, hlast⟩

/-! ## The loops -/

/-- The windows so far tile the blocks behind `start`, and their logs have been applied. -/
structure Synced (O : LoggedObject S R) (getLogs : GetLogs) (logsOf : ℤ → List LogReceipt)
    (start targetBlock : ℤ) (q : LoopState S) : Prop where
  start_le : start ≤ O.lastUpdate q.obj
  le_target : O.lastUpdate q.obj ≤ max start targetBlock
  tiling : Tiling start (O.lastUpdate q.obj) q.requests
  applied : q.applied = rangeLogs logsOf (start + 1) (O.lastUpdate q.obj)
  answered : ∀ r ∈ q.requests, ∃ logs, getLogs r.1 r.2 = .ok logs

theorem windowEnd_bounds {lastUpdate targetBlock : ℤ} (h : lastUpdate < targetBlock) :
    lastUpdate < StatesClass.windowEnd (lastUpdate + 1) targetBlock ∧
      StatesClass.windowEnd (lastUpdate + 1) targetBlock ≤ lastUpdate + 2000 ∧
      StatesClass.windowEnd (lastUpdate + 1) targetBlock ≤ targetBlock := by
  rw [StatesClass.windowEnd]
  split_ifs
  · omega
  · omega

variable {logsOf : ℤ → List LogReceipt}

theorem Synced.start (obj : S) :
    Synced O getLogs logsOf (O.lastUpdate obj) targetBlock (LoggedObject.start obj) where
  start_le := le_rfl
  le_target := le_max_left _ _
  tiling := .nil _
  applied := (rangeLogs_of_lt logsOf (Int.lt_add_one_of_le le_rfl)).symm
  answered _ h := absurd h List.not_mem_nil

/-- A window that returns goes on with the tiling. -/
theorem Synced.step (hsteady : O.Steady hook)
    (hexact : ∀ fromBlock toBlock logs, getLogs fromBlock toBlock = .ok logs →
      logs = rangeLogs logsOf fromBlock toBlock) {start : ℤ} {q q' : LoopState S}
    (h : Synced O getLogs logsOf start targetBlock q) (htest : O.behind targetBlock q = true)
    (hrun : (O.loopBody getLogs targetBlock hook).run q = (.ok (), q')) :
    Synced O getLogs logsOf start targetBlock q' := by
  have hdone : WindowDone O getLogs targetBlock hook q (.ok (), q') :=
    hrun ▸ hsteady.windowDone q
  obtain ⟨logs, hlogs, happlied, hlast⟩ := hdone.completed rfl
  obtain ⟨hlt, hshort, htarget⟩ := windowEnd_bounds (of_decide_eq_true htest)
  have hstart := h.start_le
  refine ⟨?_, ?_, ?_, ?_, fun r hr ↦ ?_⟩
  · rw [hlast]
    omega
  · rw [hlast]
    exact htarget.trans (le_max_right _ _)
  · rw [hlast, hdone.requests]
    exact h.tiling.concat hstart hlt hshort
  · rw [happlied, hlast, h.applied, hexact _ _ _ hlogs]
    exact rangeLogs_append logsOf (by omega) (by omega)
  · rw [hdone.requests] at hr
    rcases List.mem_append.mp hr with hr | hr
    · exact h.answered r hr
    · rw [List.mem_singleton.mp hr]
      exact ⟨logs, hlogs⟩

/-- The missing blocks become fewer with every window. -/
theorem exists_stops_loopBody (hsteady : O.Steady hook) (q : LoopState S) :
    ∃ out, Proc.whileFor (O.behind targetBlock) (O.loopBody getLogs targetBlock hook)
      ((targetBlock - O.lastUpdate q.obj).toNat + 1) q = some out := by
  refine Proc.whileFor_isSome (fun q ↦ (targetBlock - O.lastUpdate q.obj).toNat)
    (fun q q' htest hrun ↦ ?_) (Nat.lt_succ_self _)
  have hdone : WindowDone O getLogs targetBlock hook q (.ok (), q') :=
    hrun ▸ hsteady.windowDone q
  obtain ⟨_, _, _, hlast⟩ := hdone.completed rfl
  simp only at hlast
  obtain ⟨hlt, -, htarget⟩ := windowEnd_bounds (of_decide_eq_true htest)
  omega

end Window

/-! ## The states of the users -/

section States

/-- `States` as the object of a loop. -/
def statesObject (lib : EthLibs) : LoggedObject States ChangeType where
  lastUpdate := States.lastUpdate
  setLastUpdate block s := { s with lastUpdate := block }
  update log := do
    let users ← States.update lib log
    return some users
  lastUpdate_setLastUpdate _ _ := rfl

/-- `user_state_extend_hook`. -/
def stateExtendHook (lib : EthLibs) (node : EthNode) : Hook States ChangeType := fun res count ↦ do
  let s ← Proc.read
  plainStates.userStateExtendHook lib (node.getAssetsIn s.lastUpdate) res
  return count

variable {lib : EthLibs} {node : EthNode} {targetBlock : ℤ}

theorem run_stateExtendHook (res : Dict String ChangeType) (count : ℤ) (s : States) :
    (stateExtendHook lib node res count).run s
      = ((plainStates.userStateExtendHook lib (node.getAssetsIn s.lastUpdate) res >>=
          fun _ ↦ pure count) : Proc States Error ℤ).run s := rfl

theorem keeps_lastUpdate_update (log : LogReceipt) :
    Proc.Keeps (fun s s' ↦ (statesObject lib).lastUpdate s' = (statesObject lib).lastUpdate s)
      ((statesObject lib).update log) := fun s ↦
  (Proc.proj_bind States.lastUpdate (fun _ _ ↦ rfl) s).trans (States.lastUpdate_step lib log s)

/-- The loop over the states of the users is of the kind described above. -/
theorem steady_statesObject : (statesObject lib).Steady (stateExtendHook lib node) where
  update := keeps_lastUpdate_update
  hook res counter s := by
    have hstill : Proc.Keeps States.Still
        (plainStates.userStateExtendHook lib (node.getAssetsIn s.lastUpdate) res) :=
      still_userStateExtendHook _ res
    rw [run_stateExtendHook]
    exact (Proc.proj_bind States.lastUpdate (fun _ _ ↦ rfl) s).trans (hstill s).2

/-- Two outcomes with the same states, of which both or none are an exception. -/
def SameOutcome {α β : Type} (out : Except Error α × States)
    (out' : Except Error β × LoopState States) : Prop :=
  out.2 = out'.2.obj ∧ out.1.toBool = out'.1.toBool

private theorem applyLogs_agrees (logs : List LogReceipt) :
    ∀ (res : Dict String ChangeType) (q : LoopState States),
      (((statesObject lib).applyLogs logs res).run q).1
          = ((plainStates.updateAll lib logs res).run q.obj).1 ∧
        (((statesObject lib).applyLogs logs res).run q).2.obj
          = ((plainStates.updateAll lib logs res).run q.obj).2 := by
  induction logs with
  | nil => exact fun _ _ ↦ ⟨rfl, rfl⟩
  | cons log logs ih =>
    intro res q
    have hupdate : ((statesObject lib).update log).run q.obj
        = ((States.update lib log >>= fun users ↦ pure (some users)) :
            Proc States Error (Option (Dict String ChangeType))).run q.obj := rfl
    rw [run_updateAll_cons, LoggedObject.run_applyLogs_cons, hupdate, Proc.run_bind, States.step]
    rcases (States.update lib log).run q.obj with ⟨e | users, s'⟩
    · exact ⟨rfl, rfl⟩
    · exact ih (res.update users) _

/-- The rounds of the two forms. -/
private theorem loopBody_agrees (text : Error → String) (q : LoopState States) :
    SameOutcome ((plainStates.queryWindow lib node targetBlock).run q.obj)
      (((statesObject lib).loopBody (fun a b ↦ (node.getLogs a b).mapError text) targetBlock
        (stateExtendHook lib node)).run q) := by
  have hlast : (statesObject lib).lastUpdate q.obj = q.obj.lastUpdate := rfl
  rw [run_queryWindow, LoggedObject.run_loopBody, hlast]
  generalize StatesClass.windowEnd (q.obj.lastUpdate + 1) targetBlock = toBlock
  rcases node.getLogs (q.obj.lastUpdate + 1) toBlock with e | logs
  · exact ⟨rfl, rfl⟩
  simp only [Except.mapError]
  obtain ⟨hres, hobj⟩ := @applyLogs_agrees lib logs ∅
    { q with requests := q.requests ++ [(q.obj.lastUpdate + 1, toBlock)] }
  rcases hnew : ((statesObject lib).applyLogs logs ∅).run
    { q with requests := q.requests ++ [(q.obj.lastUpdate + 1, toBlock)] } with ⟨res, q'⟩
  rcases hold : (plainStates.updateAll lib logs ∅).run q.obj with ⟨res', s'⟩
  rw [hnew, hold] at hres hobj
  simp only at hres hobj
  subst hres
  rcases res with e | users
  · exact ⟨hobj.symm, rfl⟩
  · have hset : (statesObject lib).setLastUpdate toBlock q'.obj
        = { s' with lastUpdate := toBlock } :=
      congrArg (fun s : States ↦ { s with lastUpdate := toBlock }) hobj
    simp only [hset, run_stateExtendHook, Proc.run_bind]
    rcases (plainStates.userStateExtendHook lib (node.getAssetsIn toBlock) users).run
      { s' with lastUpdate := toBlock } with ⟨e | _, s''⟩
    · exact ⟨rfl, rfl⟩
    · exact ⟨rfl, rfl⟩

private theorem queryEventsLoop_agrees (text : Error → String) (n : ℕ) :
    ∀ {q : LoopState States} {out : Except Error Unit × LoopState States},
      (targetBlock - q.obj.lastUpdate).toNat ≤ n →
      Proc.whileFor ((statesObject lib).behind targetBlock) ((statesObject lib).loopBody
        (fun a b ↦ (node.getLogs a b).mapError text) targetBlock (stateExtendHook lib node))
          (n + 1) q = some out →
      SameOutcome ((plainStates.queryEventsLoop lib node targetBlock n).run q.obj) out := by
  induction n with
  | zero =>
    intro q out hn h
    have hge : ¬ q.obj.lastUpdate < targetBlock := by omega
    have htest : (statesObject lib).behind targetBlock q = false := decide_eq_false hge
    rw [Proc.whileFor_of_not htest, Option.some_inj] at h
    exact h ▸ ⟨rfl, rfl⟩
  | succ n ih =>
    intro q out hn h
    have hread : (plainStates.queryEventsLoop lib node targetBlock (n + 1)).run q.obj
        = ((if q.obj.lastUpdate < targetBlock then
            plainStates.queryWindow lib node targetBlock >>= fun _ ↦
              plainStates.queryEventsLoop lib node targetBlock n
          else pure ()) : Proc States Error Unit).run q.obj := rfl
    rw [hread]
    by_cases hlt : q.obj.lastUpdate < targetBlock
    · have htest : (statesObject lib).behind targetBlock q = true := decide_eq_true hlt
      have hsame : SameOutcome ((plainStates.queryWindow lib node targetBlock).run q.obj) _ :=
        loopBody_agrees text q
      rw [if_pos hlt, Proc.run_bind]
      rcases hnew : ((statesObject lib).loopBody (fun a b ↦ (node.getLogs a b).mapError text)
        targetBlock (stateExtendHook lib node)).run q with ⟨e | _, q'⟩
      · rw [hnew] at hsame
        rcases hold : (plainStates.queryWindow lib node targetBlock).run q.obj with ⟨e' | _, s'⟩
        · rw [hold] at hsame
          rw [Proc.whileFor_of_error htest hnew, Option.some_inj] at h
          exact h ▸ hsame
        · rw [hold] at hsame
          cases hsame.2
      · have hdone : WindowDone (statesObject lib) _ targetBlock _ q (.ok (), q') :=
          hnew ▸ steady_statesObject.windowDone q
        obtain ⟨_, -, -, hlast⟩ := hdone.completed rfl
        have hbounds := windowEnd_bounds hlt
        have hlast' : q'.obj.lastUpdate
            = StatesClass.windowEnd (q.obj.lastUpdate + 1) targetBlock := hlast
        rw [hnew] at hsame
        rcases hold : (plainStates.queryWindow lib node targetBlock).run q.obj with ⟨e' | _, s'⟩
        · rw [hold] at hsame
          cases hsame.2
        · rw [hold] at hsame
          obtain ⟨hobj, -⟩ := hsame
          simp only at hobj
          subst hobj
          rw [Proc.whileFor_of_ok htest hnew] at h
          exact ih (by omega) h
    · have htest : (statesObject lib).behind targetBlock q = false := decide_eq_false hlt
      rw [Proc.whileFor_of_not htest, Option.some_inj] at h
      rw [if_neg hlt]
      exact h ▸ ⟨rfl, rfl⟩

/-- **The same loop.** `query_events_loop_liq` with `user_state_extend_hook` is the loop that
`sync_states` runs. -/
theorem queryEventsLoopLiq_agrees (text : Error → String) {s : States}
    {out : Except Error Unit × LoopState States}
    (h : (statesObject lib).QueryEventsLoopLiq node
      (fun a b ↦ (node.getLogs a b).mapError text) targetBlock (stateExtendHook lib) s out) :
    SameOutcome ((plainStates.queryEventsLoopLiq lib node targetBlock).run s) out := by
  obtain ⟨out', hout'⟩ := @exists_stops_loopBody States ChangeType (statesObject lib)
    (fun a b ↦ (node.getLogs a b).mapError text) targetBlock _ steady_statesObject
    (LoggedObject.start s)
  rw [h.unique ⟨_, hout'⟩]
  exact queryEventsLoop_agrees text _ le_rfl hout'

end States

end CompoundLiquidation
