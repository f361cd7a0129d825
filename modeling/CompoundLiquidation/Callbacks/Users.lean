import CompoundLiquidation.Callbacks.Idle

/-!
# The subscription to users

`users_subscribe_callback` handles a push message of the light node. It applies the logs of the
message, refreshes the flags and the health factors of the users they name, adds users who came
into range to the lists of their aggregators, and at last reads the VAI debts again that the plug-in
collected. A message older than `last_update` is left out.

Only the logs move balances. Everything behind them works on flags, health factors, lists and VAI
debts, and may raise at several points without taking the logs back.
-/

namespace CompoundLiquidation

open Python

/-- What the callback asks the node. -/
structure UsersNode where
  /-- `getAssetsIn`. -/
  getAssetsIn : String → Except Error (List String)
  /-- `query_user_vai_repay`. -/
  queryUserVaiRepay : String → Except Error ℤ

/-- What `time.time()` shows in the callback: at the calculations, then when users are chosen by
their old health factors (`now`), then by their new ones (`later`). Time does not go back, and it is
shown as the integer part of a float. -/
structure UsersClock extends Clock where
  later : ℤ
  isFloat_atUser : ∀ usr, IsFloat (atUser usr)
  atUser_le : ∀ usr, atUser usr ≤ now
  now_le : now ≤ later

/-! ## The program -/

/-- The loop that looks for the place of a user: that of the first one with a larger health
factor, and the front where there is none. -/
def insertIndex (sta : States) (hf : ℚ) : ℕ → List String → Except Error ℕ
  | _, [] => .ok 0
  | i, usr :: users => do
    let states ← sta.usersStates.item usr
    if hf < states.healthFactor.value then return i
    else insertIndex sta hf (i + 1) users

/-- `states.users_states[usr].vai_repay = vai_repay`, for a user who is there. -/
def States.setVaiRepay (usr : String) (vaiRepay : ℤ) (s : States) : States :=
  { s with
    usersStates := s.usersStates.modify usr fun states ↦ { states with vaiRepay := vaiRepay } }

/-- `plug_in.storage.clear()`. -/
def States.clearStorage (s : States) : States :=
  { s with plugIn := s.plugIn.map fun vai ↦ { vai with storage := ∅ } }

section Program

variable {S : Type} (K : StatesClass S)

/-- A method of the states of the main module. -/
def onObject {α : Type} (x : Proc S Error α) : Proc (Globals S) Error α :=
  Proc.zoom Globals.states (fun s g ↦ { g with states := s }) x

/-- The callback up to the new block number: the users that the logs changed. -/
def applyLogs (lib : EthLibs) (response : LogReceiptLight) (logs : List LogReceipt) :
    Proc (Globals S) Error (List String) := do
  let users ← onObject (K.updateAll lib logs ∅)
  onStates K (Proc.modify fun s ↦
    { s with lastUpdate := response.blockNumber, blockHash := response.blockHash })
  return users.keys

/-- New health factors for the users; the result are those who came into range. -/
def rewriteHealthFactors (clock : UsersClock) (usersLst : List String) :
    Proc (Globals S) Error (List String) := do
  let g ← Proc.read
  let results ← Proc.ofExcept (healthFactors clock.atUser g.comet (K.states g.states) usersLst)
  let usersTarget ← Proc.ofExcept
    (usersTrimming toFloat usersLst (K.states g.states) (clock.now + 86400) false)
  onStates K (States.writeHealthFactor results)
  let g ← Proc.read
  Proc.ofExcept (usersTrimming toFloat usersTarget (K.states g.states) (clock.later + 86400) true)

/-- One reserve of a user in range. -/
def addToPreFiltered (usr : String) (hf : ℚ) (ctokenAddr : String) :
    Proc (Globals S) Error Unit := do
  let g ← Proc.read
  match g.signals.tokenSignalMap.get? ctokenAddr with
  | none => pure ()
  | some aggr =>
    let usersPreFilt ← Proc.ofExcept (g.usersPreFiltered.item aggr)
    if usr ∈ usersPreFilt then pure ()
    else
      let index ← Proc.ofExcept (insertIndex (K.states g.states) hf 0 usersPreFilt)
      Proc.modify fun g ↦
        { g with
          usersPreFiltered := g.usersPreFiltered.set aggr (usersPreFilt.insertIdx index usr) }

/-- A user in range goes to the list of every aggregator of the user's reserves. -/
def addUserToPreFiltered (usr : String) : Proc (Globals S) Error Unit := do
  let g ← Proc.read
  let states ← Proc.ofExcept ((K.states g.states).usersStates.item usr)
  Proc.forEach states.reserves.keys (addToPreFiltered K usr states.healthFactor.value)

/-- The VAI debts that have changed. A user who is not in the states is skipped. -/
def flushPlugIn (queryUserVaiRepay : String → Except Error ℤ) : Proc (Globals S) Error Unit := do
  let g ← Proc.read
  match (K.states g.states).plugIn with
  | none => pure ()
  | some plugIn =>
    Proc.forEach plugIn.storage.keys fun usr ↦ do
      let vaiRepay ← Proc.ofExcept (queryUserVaiRepay usr)
      onStates K (Proc.modify (States.setVaiRepay usr vaiRepay))
    onStates K (Proc.modify States.clearStorage)

/-- The callback behind the logs. -/
def followUp (lib : EthLibs) (node : UsersNode) (clock : UsersClock) (usersLst : List String) :
    Proc (Globals S) Error Unit := do
  Proc.forEach usersLst fun usr ↦
    onStates K (States.reloadAndExtendStates lib node.getAssetsIn usr)
  let usersFiltered ← rewriteHealthFactors K clock usersLst
  Proc.forEach usersFiltered (addUserToPreFiltered K)
  flushPlugIn K node.queryUserVaiRepay

/-- `users_subscribe_callback`. -/
def usersSubscribeCallback (lib : EthLibs) (node : UsersNode) (clock : UsersClock)
    (response : LogReceiptLight) : Proc (Globals S) Error Unit := do
  let logs ← Proc.ofExcept (converter lib response)
  let g ← Proc.read
  if response.blockNumber < (K.states g.states).lastUpdate then pure ()
  else
    let usersLst ← applyLogs K lib response logs
    followUp K lib node clock usersLst

end Program

/-! ## What the stages keep -/

section Frame

variable {S : Type} (K : StatesClass S)

/-- A relation between states, for the states of the main module. -/
def AtStates (R : States → States → Prop) (g g' : Globals S) : Prop :=
  R (K.states g.states) (K.states g'.states)

/-- The same, and nothing but the states has changed. -/
def OnStates (R : States → States → Prop) (g g' : Globals S) : Prop :=
  AtStates K R g g' ∧ g' = { g with states := g'.states }

variable {K} {R : States → States → Prop}

theorem onStates_refl (hrefl : ∀ s, R s s) (g : Globals S) : OnStates K R g g := ⟨hrefl _, rfl⟩

theorem onStates_trans (htrans : ∀ s t u, R s t → R t u → R s u) (g g' g'' : Globals S)
    (h : OnStates K R g g') (h' : OnStates K R g' g'') : OnStates K R g g'' := by
  refine ⟨htrans _ _ _ h.1 h'.1, h'.2.trans ?_⟩
  rw [h.2]

theorem OnStates.lists {g g' : Globals S} (h : OnStates K R g g') :
    g'.signals = g.signals ∧ g'.usersPreFiltered = g.usersPreFiltered := by
  rw [h.2]
  exact ⟨rfl, rfl⟩

theorem keeps_onStates {α : Type} {x : Proc States Error α} (h : Proc.Keeps R x) :
    Proc.Keeps (OnStates K R) (onStates K x) := by
  intro g
  refine ⟨?_, rfl⟩
  rw [AtStates, onStates, StatesClass.onBase, Proc.run_zoom, Proc.run_zoom, K.states_setStates]
  exact h (K.states g.states)

/-- A method of the base class that returns has run on the states. -/
theorem onStates_ok {α : Type} {x : Proc States Error α} {a : α} {g g' : Globals S}
    (h : (onStates K x).run g = (.ok a, g')) :
    x.run (K.states g.states) = (.ok a, K.states g'.states) ∧
      g' = { g with states := g'.states } := by
  rw [onStates, StatesClass.onBase, Proc.run_zoom, Proc.run_zoom, Prod.mk.injEq] at h
  obtain ⟨hx, rfl⟩ := h
  exact ⟨Prod.ext hx (K.states_setStates _ _).symm, rfl⟩

section Stages

variable (hrefl : ∀ s, R s s) (htrans : ∀ s t u, R s t → R t u → R s u)

include hrefl

theorem keeps_reloadAndExtendStates (hflags : ∀ usr assets s, R s (s.refreshFlags usr assets))
    (lib : EthLibs) (getAssetsIn : String → Except Error (List String)) (usr : String) :
    Proc.Keeps R (States.reloadAndExtendStates lib getAssetsIn usr) := by
  intro s
  rw [States.run_reloadAndExtendStates]
  rcases lib.toChecksumAddress usr >>= getAssetsIn with e | assets
  · exact hrefl s
  · rcases s.usersStates.get? usr with _ | states
    · exact hrefl s
    · exact hflags usr assets s

include htrans

theorem keeps_reloadUsers (hflags : ∀ usr assets s, R s (s.refreshFlags usr assets))
    (lib : EthLibs) (getAssetsIn : String → Except Error (List String)) (usersLst : List String) :
    Proc.Keeps (OnStates K R) (Proc.forEach usersLst fun usr ↦
      onStates K (States.reloadAndExtendStates lib getAssetsIn usr)) := by
  have hrefl' : ∀ g : Globals S, OnStates K R g g := onStates_refl hrefl
  have htrans' := onStates_trans (K := K) htrans
  refine Proc.keeps_forEach hrefl' htrans' usersLst fun usr _ ↦ ?_
  exact keeps_onStates (keeps_reloadAndExtendStates hrefl hflags lib getAssetsIn usr)

theorem keeps_writeHealthFactor (hhealth : ∀ usr hf s, R s (States.setHealthFactor usr hf s))
    (results : List HfResult) : Proc.Keeps R (States.writeHealthFactor results) := by
  refine Proc.keeps_forEach hrefl htrans results fun res _ ↦ ?_
  refine Proc.keeps_bind htrans (Proc.keeps_read hrefl) fun s ↦ ?_
  refine Proc.keeps_bind htrans (Proc.keeps_ofExcept hrefl _) fun _ ↦ ?_
  exact Proc.keeps_modify (hhealth res.1 res.2.1)

theorem keeps_rewriteHealthFactors (hhealth : ∀ usr hf s, R s (States.setHealthFactor usr hf s))
    (clock : UsersClock) (usersLst : List String) :
    Proc.Keeps (OnStates K R) (rewriteHealthFactors K clock usersLst) := by
  have hrefl' : ∀ g : Globals S, OnStates K R g g := onStates_refl hrefl
  have htrans' := onStates_trans (K := K) htrans
  refine Proc.keeps_bind htrans' (Proc.keeps_read hrefl') fun g ↦ ?_
  refine Proc.keeps_bind htrans' (Proc.keeps_ofExcept hrefl' _) fun results ↦ ?_
  refine Proc.keeps_bind htrans' (Proc.keeps_ofExcept hrefl' _) fun _ ↦ ?_
  refine Proc.keeps_bind htrans'
    (keeps_onStates (keeps_writeHealthFactor hrefl htrans hhealth results)) fun _ ↦ ?_
  refine Proc.keeps_bind htrans' (Proc.keeps_read hrefl') fun g ↦ ?_
  exact Proc.keeps_ofExcept hrefl' _

theorem keeps_flushPlugIn (hvai : ∀ usr v s, R s (States.setVaiRepay usr v s))
    (hclear : ∀ s, R s (States.clearStorage s))
    (queryUserVaiRepay : String → Except Error ℤ) :
    Proc.Keeps (OnStates K R) (flushPlugIn K queryUserVaiRepay) := by
  have hrefl' : ∀ g : Globals S, OnStates K R g g := onStates_refl hrefl
  have htrans' := onStates_trans (K := K) htrans
  refine Proc.keeps_bind htrans' (Proc.keeps_read hrefl') fun g ↦ ?_
  rcases (K.states g.states).plugIn with _ | plugIn
  · exact Proc.keeps_pure hrefl' ()
  · refine Proc.keeps_bind htrans' (Proc.keeps_forEach hrefl' htrans' _ fun usr _ ↦ ?_) fun _ ↦
      keeps_onStates (Proc.keeps_modify hclear)
    exact Proc.keeps_bind htrans' (Proc.keeps_ofExcept hrefl' _) fun v ↦
      keeps_onStates (Proc.keeps_modify (hvai usr v))

end Stages

/-- Everything in the main module is as before, but for the lists of users. -/
def SameButLists (g g' : Globals S) : Prop :=
  g'.states = g.states ∧ g'.comet = g.comet ∧ g'.signals = g.signals

theorem SameButLists.trans (g g' g'' : Globals S) (h : SameButLists g g')
    (h' : SameButLists g' g'') : SameButLists g g'' :=
  ⟨h'.1.trans h.1, h'.2.1.trans h.2.1, h'.2.2.trans h.2.2⟩

theorem keeps_addToPreFiltered (usr : String) (hf : ℚ) (ctokenAddr : String) :
    Proc.Keeps SameButLists (addToPreFiltered K usr hf ctokenAddr) := by
  have hrefl : ∀ g : Globals S, SameButLists g g := fun _ ↦ ⟨rfl, rfl, rfl⟩
  refine Proc.keeps_bind SameButLists.trans (Proc.keeps_read hrefl) fun g ↦ ?_
  rcases g.signals.tokenSignalMap.get? ctokenAddr with _ | aggr
  · exact Proc.keeps_pure hrefl ()
  · refine Proc.keeps_bind SameButLists.trans (Proc.keeps_ofExcept hrefl _) fun users ↦ ?_
    refine Proc.keeps_ite (fun _ ↦ Proc.keeps_pure hrefl ()) fun _ ↦ ?_
    refine Proc.keeps_bind SameButLists.trans (Proc.keeps_ofExcept hrefl _) fun index ↦ ?_
    exact Proc.keeps_modify fun _ ↦ ⟨rfl, rfl, rfl⟩

theorem keeps_addUserToPreFiltered (usr : String) :
    Proc.Keeps SameButLists (addUserToPreFiltered K usr) := by
  have hrefl : ∀ g : Globals S, SameButLists g g := fun _ ↦ ⟨rfl, rfl, rfl⟩
  refine Proc.keeps_bind SameButLists.trans (Proc.keeps_read hrefl) fun g ↦ ?_
  refine Proc.keeps_bind SameButLists.trans (Proc.keeps_ofExcept hrefl _) fun states ↦ ?_
  exact Proc.keeps_forEach hrefl SameButLists.trans _ fun key _ ↦ keeps_addToPreFiltered usr _ key

theorem keeps_addUsersToPreFiltered (users : List String) :
    Proc.Keeps SameButLists (Proc.forEach users (addUserToPreFiltered K)) :=
  Proc.keeps_forEach (fun _ ↦ ⟨rfl, rfl, rfl⟩) SameButLists.trans users fun usr _ ↦
    keeps_addUserToPreFiltered usr

/-- **The frame of the callback.** A relation that each assignment behind the logs keeps is kept
by all of them together, wherever the callback stops. -/
theorem keeps_followUp (hrefl : ∀ s, R s s) (htrans : ∀ s t u, R s t → R t u → R s u)
    (hflags : ∀ usr assets s, R s (s.refreshFlags usr assets))
    (hhealth : ∀ usr hf s, R s (States.setHealthFactor usr hf s))
    (hvai : ∀ usr v s, R s (States.setVaiRepay usr v s)) (hclear : ∀ s, R s (States.clearStorage s))
    (lib : EthLibs) (node : UsersNode) (clock : UsersClock) (usersLst : List String) :
    Proc.Keeps (AtStates K R) (followUp K lib node clock usersLst) := by
  have htrans' : ∀ g g' g'' : Globals S, AtStates K R g g' → AtStates K R g' g'' →
      AtStates K R g g'' := fun _ _ _ ↦ htrans _ _ _
  refine Proc.keeps_bind htrans'
    (fun g ↦ (keeps_reloadUsers hrefl htrans hflags lib _ usersLst g).1) fun _ ↦ ?_
  refine Proc.keeps_bind htrans'
    (fun g ↦ (keeps_rewriteHealthFactors hrefl htrans hhealth clock usersLst g).1) fun users ↦ ?_
  refine Proc.keeps_bind htrans' (fun g ↦ ?_) fun _ g ↦
    (keeps_flushPlugIn hrefl htrans hvai hclear node.queryUserVaiRepay g).1
  rw [AtStates, (keeps_addUsersToPreFiltered users g).1]
  exact hrefl _

end Frame

/-! ## A message that is not out of date -/

section Accepted

variable {S : Type} {K : StatesClass S} {lib : EthLibs} {node : UsersNode} {clock : UsersClock}

/-- The callback is the loop over the logs, and if that goes through, everything behind it. -/
theorem run_usersSubscribeCallback {response : LogReceiptLight} {logs : List LogReceipt}
    {g : Globals S} (hlogs : converter lib response = .ok logs)
    (haccepted : (K.states g.states).lastUpdate ≤ response.blockNumber) :
    (usersSubscribeCallback K lib node clock response).run g
      = match (K.updateAll lib logs ∅).run g.states with
        | (.error e, o) => (.error e, { g with states := o })
        | (.ok users, o) => (followUp K lib node clock users.keys).run
          { g with states := K.setStates { K.states o with
            lastUpdate := response.blockNumber
            blockHash := response.blockHash } o } := by
  have hnew : ¬ response.blockNumber < (K.states g.states).lastUpdate := Int.not_lt.mpr haccepted
  rw [usersSubscribeCallback, hlogs, Proc.run_bind, Proc.run_ofExcept]
  simp only [Proc.run_bind, Proc.run_read, if_neg hnew, applyLogs, onObject, Proc.run_zoom]
  match (K.updateAll lib logs ∅).run g.states with
  | (.error e, o) => rfl
  | (.ok users, o) => rfl

/-- The states before a stage of the callback. -/
structure Stages (K : StatesClass S) (lib : EthLibs) (node : UsersNode) (clock : UsersClock)
    (response : LogReceiptLight) (logs : List LogReceipt) (g g' : Globals S) where
  users : Dict String ChangeType
  updated : S
  reloaded : Globals S
  usersFiltered : List String
  rewritten : Globals S
  extended : Globals S
  update : (K.updateAll lib logs ∅).run g.states = (.ok users, updated)
  reload : (Proc.forEach users.keys fun usr ↦
    onStates K (States.reloadAndExtendStates lib node.getAssetsIn usr)).run
      { g with states := K.setStates { K.states updated with
        lastUpdate := response.blockNumber
        blockHash := response.blockHash } updated } = (.ok (), reloaded)
  rewrite : (rewriteHealthFactors K clock users.keys).run reloaded = (.ok usersFiltered, rewritten)
  extend : (Proc.forEach usersFiltered (addUserToPreFiltered K)).run rewritten = (.ok (), extended)
  flush : (flushPlugIn K node.queryUserVaiRepay).run extended = (.ok (), g')

/-- A message that is not out of date and for which the callback returns has gone through every
stage. -/
theorem stages_of_completed {response : LogReceiptLight} {logs : List LogReceipt}
    {g g' : Globals S} (hlogs : converter lib response = .ok logs)
    (haccepted : (K.states g.states).lastUpdate ≤ response.blockNumber)
    (h : (usersSubscribeCallback K lib node clock response).run g = (.ok (), g')) :
    Nonempty (Stages K lib node clock response logs g g') := by
  rw [run_usersSubscribeCallback hlogs haccepted] at h
  rcases hupdate : (K.updateAll lib logs ∅).run g.states with ⟨e | users, o⟩
  · rw [hupdate] at h
    cases (Prod.mk.inj h).1
  rw [hupdate] at h
  obtain ⟨_, g₂, hreload, h⟩ := Proc.run_bind_ok h
  obtain ⟨filtered, g₃, hrewrite, h⟩ := Proc.run_bind_ok h
  obtain ⟨_, g₄, hextend, hflush⟩ := Proc.run_bind_ok h
  exact ⟨⟨users, o, g₂, filtered, g₃, g₄, hupdate, hreload, hrewrite, hextend, hflush⟩⟩

end Accepted

end CompoundLiquidation
