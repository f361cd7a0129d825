import CompoundLiquidation.Callbacks.HotLists
import CompoundLiquidation.Callbacks.VaiDebt
import CompoundLiquidation.Main.Walks

/-!
# What a callback does to users and lists

Whatever a callback does between two waits, it never removes a user, it puts new health factors of
a known kind in place of old ones, and it changes the lists of users at risk by inserting users it
knows. `Advances` says this of the main module before and after, with the kind of the new health
factors as a parameter, so that one lemma for each callback serves both the question who is known
and the question how old a health factor is. The exception is the periodic task that replaces a
list, which is treated with the invariants.
-/

namespace CompoundLiquidation

open Python

/-! ## Health factors -/

/-- The health factor that is stored with a user. -/
def States.healthFactor? (s : States) (u : String) : Option HealthFactor :=
  (s.account? u).map Prod.fst

theorem States.healthFactor?_eq_some_iff {s : States} {u : String} {hf : HealthFactor} :
    s.healthFactor? u = some hf ↔
      ∃ states, s.usersStates.get? u = some states ∧ states.healthFactor = hf := by
  rw [healthFactor?, account?, Option.map_map, Option.map_eq_some_iff]
  rfl

theorem States.mem_keys_iff_healthFactor? {s : States} {u : String} :
    u ∈ s.usersStates.keys ↔ ∃ hf, s.healthFactor? u = some hf := by
  rw [Dict.mem_keys_iff]
  constructor
  · rintro ⟨states, hstates⟩
    exact ⟨_, healthFactor?_eq_some_iff.mpr ⟨states, hstates, rfl⟩⟩
  · rintro ⟨hf, hhf⟩
    obtain ⟨states, hstates, -⟩ := healthFactor?_eq_some_iff.mp hhf
    exact ⟨states, hstates⟩

/-- A kind of health factors, for each user. -/
abbrev Kind := String → HealthFactor → Prop

/-- Calculated at the time that the clock shows for the user. -/
def CalculatedAt (atUser : String → ℤ) : Kind := fun u hf ↦ hf.lastUpdate = atUser u

/-- Nobody leaves, and where a health factor is another one afterwards it is of the kind. -/
def Renews (P : Kind) (s s' : States) : Prop :=
  ∀ u hf, s.healthFactor? u = some hf →
    ∃ hf', s'.healthFactor? u = some hf' ∧ (hf' = hf ∨ P u hf')

section Renews

variable {P : Kind}

theorem Renews.of_eq {s s' : States} (h : ∀ u, s'.healthFactor? u = s.healthFactor? u) :
    Renews P s s' := fun u hf hhf ↦ ⟨hf, by rw [h, hhf], .inl rfl⟩

theorem Renews.refl (s : States) : Renews P s s := .of_eq fun _ ↦ rfl

theorem Renews.trans (s s' s'' : States) (h : Renews P s s') (h' : Renews P s' s'') :
    Renews P s s'' := by
  intro u hf hhf
  obtain ⟨hf', hhf', hnew⟩ := h u hf hhf
  obtain ⟨hf'', hhf'', hnew'⟩ := h' u hf' hhf'
  refine ⟨hf'', hhf'', ?_⟩
  obtain rfl | hkind := hnew'
  · exact hnew
  · exact .inr hkind

theorem Renews.mem_keys {s s' : States} (h : Renews P s s') {u : String}
    (hu : u ∈ s.usersStates.keys) : u ∈ s'.usersStates.keys := by
  obtain ⟨hf, hhf⟩ := States.mem_keys_iff_healthFactor?.mp hu
  obtain ⟨hf', hhf', -⟩ := h u hf hhf
  exact States.mem_keys_iff_healthFactor?.mpr ⟨hf', hhf'⟩

/-- Where nothing is renewed the health factors are the same. -/
theorem Renews.healthFactor_eq {s s' : States} (h : Renews (fun _ _ ↦ False) s s') {u : String}
    {hf : HealthFactor} (hhf : s.healthFactor? u = some hf) : s'.healthFactor? u = some hf := by
  obtain ⟨hf', hhf', hnew⟩ := h u hf hhf
  rw [hhf', hnew.resolve_right id]

theorem renews_refreshFlags (usr : String) (assets : List String) (s : States) :
    Renews P s (s.refreshFlags usr assets) :=
  .of_eq fun u ↦ congrArg (Option.map Prod.fst) (s.account?_refreshFlags usr assets u)

theorem renews_setVaiRepay (usr : String) (vaiRepay : ℤ) (s : States) :
    Renews P s (s.setVaiRepay usr vaiRepay) := by
  refine .of_eq fun u ↦ ?_
  rw [States.healthFactor?, States.healthFactor?, States.account?, States.account?,
    States.setVaiRepay, Dict.get?_modify]
  split_ifs
  · rcases s.usersStates.get? u with _ | states
    · rfl
    · rfl
  · rfl

theorem healthFactor?_setHealthFactor (usr : String) (hf : HealthFactor) (s : States) (u : String) :
    (s.setHealthFactor usr hf).healthFactor? u
      = if u = usr then (s.healthFactor? u).map fun _ ↦ hf else s.healthFactor? u := by
  rw [States.healthFactor?, States.healthFactor?, States.account?, States.account?,
    States.setHealthFactor, Dict.get?_modify]
  split_ifs
  · rcases s.usersStates.get? u with _ | states
    · rfl
    · rfl
  · rfl

theorem renews_setHealthFactor {usr : String} {new : HealthFactor} (hnew : P usr new) (s : States) :
    Renews P s (s.setHealthFactor usr new) := by
  intro u hf hhf
  rw [healthFactor?_setHealthFactor, hhf]
  by_cases hu : u = usr
  · rw [if_pos hu]
    exact ⟨new, rfl, .inr (hu ▸ hnew)⟩
  · rw [if_neg hu]
    exact ⟨hf, rfl, .inl rfl⟩

/-- Writing results back renews by their health factors, also where it raises. -/
theorem keeps_writeHealthFactor_renews {results : List HfResult}
    (hresults : ∀ res ∈ results, P res.1 res.2.1) :
    Proc.Keeps (Renews P) (States.writeHealthFactor results) := by
  refine Proc.keeps_forEach Renews.refl Renews.trans results fun res hres ↦ ?_
  refine Proc.keeps_bind Renews.trans (Proc.keeps_read Renews.refl) fun s ↦ ?_
  refine Proc.keeps_bind Renews.trans (Proc.keeps_ofExcept Renews.refl _) fun _ ↦ ?_
  exact Proc.keeps_modify (renews_setHealthFactor (hresults res hres))

/-- Results of known users are written back without an exception. -/
theorem writeHealthFactor_returns {results : List HfResult} : ∀ {s : States},
    (∀ res ∈ results, res.1 ∈ s.usersStates.keys) →
    ((States.writeHealthFactor results).run s).1 = .ok () := by
  induction results with
  | nil => exact fun _ ↦ rfl
  | cons res results ih =>
    intro s hknown
    obtain ⟨states, hstates⟩ := Dict.mem_keys_iff.mp (hknown res List.mem_cons_self)
    have hone : (do
        let s ← Proc.read
        let _ ← Proc.ofExcept (s.usersStates.item res.1)
        Proc.modify (States.setHealthFactor res.1 res.2.1) : Proc States Error Unit).run s
          = (.ok (), s.setHealthFactor res.1 res.2.1) := by
      rw [Proc.run_bind, Proc.run_read]
      simp only [Proc.run_bind, Proc.run_ofExcept, Dict.item_eq_ok_iff.mpr hstates,
        Proc.run_modify]
    rw [States.writeHealthFactor, Proc.forEach_cons, Proc.run_bind_of_ok hone]
    refine ih fun r hr ↦ ?_
    rw [States.setHealthFactor, Dict.keys_modify]
    exact hknown r (List.mem_cons_of_mem res hr)

/-- Logs about users leave the health factors alone. -/
theorem renews_updateAll {S : Type} {K : StatesClass S} (hK : K.Extends) (lib : EthLibs)
    (logs : List LogReceipt) (users : Dict String ChangeType) (o : S) :
    Renews P (K.states o) (K.states ((K.updateAll lib logs users).run o).2) := by
  have hbatch := @batched_handledLogs lib S K hK logs users o
  intro u hf hhf
  refine ⟨hf, ?_, .inl rfl⟩
  rw [States.healthFactor?] at hhf ⊢
  by_cases hnamed : ∃ log ∈ handledLogs lib (K.states o) logs, log.names lib u
  · obtain ⟨account, haccount, rfl⟩ := Option.map_eq_some_iff.mp hhf
    rw [hbatch.named u hnamed, haccount]
    rfl
  · rw [hbatch.unnamed u hnamed, hhf]

end Renews

/-! ## Lists -/

section Lists

variable {S : Type} (K : StatesClass S)

/-- The list of an aggregator, and nobody if there is none. -/
def Globals.listOf (g : Globals S) (aggr : String) : List String :=
  g.usersPreFiltered.getD aggr []

/-- The user is in the states of the main module. -/
def Globals.Knows (g : Globals S) (u : String) : Prop := u ∈ (K.states g.states).usersStates.keys

/-- Nobody twice, and nobody who is not known. -/
def Globals.Proper (g : Globals S) (users : List String) : Prop :=
  users.Nodup ∧ ∀ u ∈ users, g.Knows K u

/-- What a callback may do between two waits. -/
structure Advances (P : Kind) (g g' : Globals S) : Prop where
  renews : Renews P (K.states g.states) (K.states g'.states)
  signalTokenMap : g'.signals.signalTokenMap = g.signals.signalTokenMap
  tokenSignalMap : g'.signals.tokenSignalMap = g.signals.tokenSignalMap
  aggrs : ∀ aggr, aggr ∈ g'.usersPreFiltered.keys ↔ aggr ∈ g.usersPreFiltered.keys
  /-- The lists have grown by insertion. -/
  sublist : ∀ aggr, (g.listOf aggr).Sublist (g'.listOf aggr)
  nodup : ∀ aggr, (g.listOf aggr).Nodup → (g'.listOf aggr).Nodup
  known : ∀ aggr, ∀ u ∈ g'.listOf aggr, u ∈ g.listOf aggr ∨ g'.Knows K u

variable {K} {P : Kind}

theorem Globals.Proper.sublist {g : Globals S} {users users' : List String}
    (h : g.Proper K users) (hsub : users'.Sublist users) : g.Proper K users' :=
  ⟨h.1.sublist hsub, fun u hu ↦ h.2 u (hsub.subset hu)⟩

theorem Advances.refl (g : Globals S) : Advances K P g g where
  renews := .refl _
  signalTokenMap := rfl
  tokenSignalMap := rfl
  aggrs _ := Iff.rfl
  sublist _ := .refl _
  nodup _ := id
  known _ _ := .inl

theorem Advances.trans (g g' g'' : Globals S) (h : Advances K P g g') (h' : Advances K P g' g'') :
    Advances K P g g'' where
  renews := h.renews.trans _ _ _ h'.renews
  signalTokenMap := h'.signalTokenMap.trans h.signalTokenMap
  tokenSignalMap := h'.tokenSignalMap.trans h.tokenSignalMap
  aggrs aggr := (h'.aggrs aggr).trans (h.aggrs aggr)
  sublist aggr := (h.sublist aggr).trans (h'.sublist aggr)
  nodup aggr := h'.nodup aggr ∘ h.nodup aggr
  known aggr u hu := by
    obtain hold | hnew := h'.known aggr u hu
    · exact (h.known aggr u hold).imp id h'.renews.mem_keys
    · exact .inr hnew

theorem Advances.knows {g g' : Globals S} (h : Advances K P g g') {u : String} (hu : g.Knows K u) :
    g'.Knows K u := h.renews.mem_keys hu

theorem Advances.proper {g g' : Globals S} (h : Advances K P g g') {users : List String}
    (hproper : g.Proper K users) : g'.Proper K users :=
  ⟨hproper.1, fun u hu ↦ h.knows (hproper.2 u hu)⟩

theorem Advances.proper_listOf {g g' : Globals S} (h : Advances K P g g') {aggr : String}
    (hproper : g.Proper K (g.listOf aggr)) : g'.Proper K (g'.listOf aggr) := by
  refine ⟨h.nodup aggr hproper.1, fun u hu ↦ ?_⟩
  obtain hold | hnew := h.known aggr u hu
  · exact h.knows (hproper.2 u hold)
  · exact hnew

/-- A callback that works on the states only. -/
theorem OnStates.advances {g g' : Globals S} (h : OnStates K (Renews P) g g') :
    Advances K P g g' := by
  obtain ⟨hrenews, hsame⟩ := h
  have hsignals : g'.signals = g.signals := by rw [hsame]
  have hlists : g'.usersPreFiltered = g.usersPreFiltered := by rw [hsame]
  refine ⟨hrenews, by rw [hsignals], by rw [hsignals], fun aggr ↦ by rw [hlists], fun aggr ↦ ?_,
    fun aggr ↦ ?_, fun aggr u hu ↦ .inl ?_⟩
  · rw [Globals.listOf, Globals.listOf, hlists]
  · rw [Globals.listOf, Globals.listOf, hlists]
    exact id
  · rwa [Globals.listOf, hlists] at hu

theorem keeps_onStates_advances {α : Type} {x : Proc States Error α} (h : Proc.Keeps (Renews P) x) :
    Proc.Keeps (Advances K P) (onStates K x) := fun g ↦ (keeps_onStates (K := K) h g).advances

/-! ### Insertion -/

/-- One reserve of a user who is known puts the user into at most one list. -/
theorem advances_addToPreFiltered (usr : String) (hf : ℚ) (ctokenAddr : String) (g : Globals S)
    (hknown : g.Knows K usr) :
    Advances K P g ((addToPreFiltered K usr hf ctokenAddr).run g).2 := by
  rw [addToPreFiltered, Proc.run_bind, Proc.run_read]
  dsimp only
  rcases g.signals.tokenSignalMap.get? ctokenAddr with _ | aggr
  · exact .refl g
  dsimp only
  rw [Proc.run_bind, Proc.run_ofExcept]
  rcases hitem : g.usersPreFiltered.item aggr with e | users
  · exact .refl g
  dsimp only
  by_cases hmem : usr ∈ users
  · rw [if_pos hmem]
    exact .refl g
  rw [if_neg hmem, Proc.run_bind, Proc.run_ofExcept]
  rcases hindex : insertIndex (K.states g.states) hf 0 users with e | index
  · exact .refl g
  have hle : index ≤ users.length := by
    have := insertIndex_le hindex
    omega
  have hget := Dict.item_eq_ok_iff.mp hitem
  have hlist : ∀ aggr', Globals.listOf { g with
      usersPreFiltered := g.usersPreFiltered.set aggr (users.insertIdx index usr) } aggr'
        = if aggr' = aggr then users.insertIdx index usr else g.listOf aggr' :=
    fun aggr' ↦ Dict.getD_set _ _ _ _ _
  have hold : g.listOf aggr = users := Dict.getD_of_get? hget
  change Advances K P g
    { g with usersPreFiltered := g.usersPreFiltered.set aggr (users.insertIdx index usr) }
  refine ⟨.refl _, rfl, rfl, fun aggr' ↦ ?_, fun aggr' ↦ ?_, fun aggr' hnd ↦ ?_,
    fun aggr' u hu ↦ ?_⟩
  · refine Dict.mem_keys_set.trans (or_iff_right_of_imp ?_)
    rintro rfl
    exact Dict.mem_keys_iff.mpr ⟨users, hget⟩
  · refine (hlist aggr').symm ▸ ?_
    by_cases haggr : aggr' = aggr
    · rw [if_pos haggr, haggr, hold]
      exact List.sublist_insertIdx users index usr
    · rw [if_neg haggr]
  · refine (hlist aggr').symm ▸ ?_
    by_cases haggr : aggr' = aggr
    · rw [haggr, hold] at hnd
      rw [if_pos haggr]
      exact (List.perm_insertIdx usr users hle).nodup_iff.mpr (List.nodup_cons.mpr ⟨hmem, hnd⟩)
    · rw [if_neg haggr]
      exact hnd
  · rw [hlist] at hu
    by_cases haggr : aggr' = aggr
    · rw [if_pos haggr, List.mem_insertIdx hle] at hu
      rw [haggr, hold]
      obtain rfl | hu := hu
      · exact .inr hknown
      · exact .inl hu
    · rw [if_neg haggr] at hu
      exact .inl hu

/-- All reserves of a user. -/
theorem advances_addUserToPreFiltered (usr : String) :
    Proc.Keeps (Advances K P) (addUserToPreFiltered K usr) := by
  intro g
  rw [addUserToPreFiltered, Proc.run_bind, Proc.run_read]
  dsimp only
  rw [Proc.run_bind, Proc.run_ofExcept]
  rcases hitem : (K.states g.states).usersStates.item usr with e | states
  · exact .refl g
  have hknown : g.Knows K usr :=
    Dict.mem_keys_iff.mpr ⟨states, Dict.item_eq_ok_iff.mp hitem⟩
  dsimp only
  generalize states.reserves.keys = keys
  clear hitem
  -- the states stay as they are, so that the user is known in every round
  induction keys generalizing g with
  | nil => exact .refl g
  | cons key keys ih =>
    have hone := advances_addToPreFiltered (P := P) usr states.healthFactor.value key g hknown
    rw [Proc.forEach_cons, Proc.run_bind]
    rcases hrun : (addToPreFiltered K usr states.healthFactor.value key).run g with ⟨e | _, g₁⟩
    · rw [hrun] at hone
      exact hone
    · rw [hrun] at hone
      exact hone.trans _ _ _ (ih g₁ (hone.knows hknown))

end Lists

/-! ## Callbacks -/

section Callbacks

variable {S : Type} {K : StatesClass S} {P : Kind}

/-- A computation that reads a value first has to be looked at for this value only. -/
theorem keeps_ofExcept_bind {α β : Type} {R : Globals S → Globals S → Prop}
    (hrefl : ∀ g, R g g) {x : Except Error α} {f : α → Proc (Globals S) Error β}
    (hf : ∀ a, x = .ok a → Proc.Keeps R (f a)) : Proc.Keeps R (Proc.ofExcept x >>= f) := by
  intro g
  rw [Proc.run_bind, Proc.run_ofExcept]
  rcases x with e | a
  · exact hrefl g
  · exact hf a rfl g

/-- What `users_subscribe_callback` renews was calculated in it. -/
theorem advances_usersSubscribeCallback (hK : K.Extends) {lib : EthLibs} {node : UsersNode}
    {clock : UsersClock} (hclock : ∀ u hf, hf.lastUpdate = clock.atUser u → P u hf)
    (response : LogReceiptLight) :
    Proc.Keeps (Advances K P) (usersSubscribeCallback K lib node clock response) := by
  have hrefl : ∀ g : Globals S, Advances K P g g := .refl
  have htrans := Advances.trans (K := K) (P := P)
  have hlift : ∀ {α : Type} {x : Proc (Globals S) Error α}, Proc.Keeps (OnStates K (Renews P)) x →
      Proc.Keeps (Advances K P) x := fun h g ↦ (h g).advances
  refine keeps_ofExcept_bind hrefl fun logs _ ↦ ?_
  refine Proc.keeps_bind htrans (Proc.keeps_read hrefl) fun g ↦ ?_
  refine Proc.keeps_ite (fun _ ↦ Proc.keeps_pure hrefl ()) fun _ ↦ ?_
  refine Proc.keeps_bind htrans (Proc.keeps_bind htrans (fun g ↦ ?_) fun users ↦ ?_) fun users ↦ ?_
  · exact OnStates.advances ⟨renews_updateAll hK lib logs ∅ g.states, rfl⟩
  · refine Proc.keeps_bind htrans (keeps_onStates_advances (Proc.keeps_modify fun s ↦ ?_)) fun _ ↦
      Proc.keeps_pure hrefl _
    exact .of_eq fun _ ↦ rfl
  refine Proc.keeps_bind htrans (hlift (keeps_reloadUsers .refl .trans renews_refreshFlags lib
    node.getAssetsIn users)) fun _ ↦ ?_
  refine Proc.keeps_bind htrans ?_ fun filtered ↦ Proc.keeps_bind htrans (Proc.keeps_forEach hrefl
    htrans filtered fun usr _ ↦ advances_addUserToPreFiltered usr) fun _ ↦
    hlift (keeps_flushPlugIn .refl .trans renews_setVaiRepay (fun _ ↦ .of_eq fun _ ↦ rfl) _)
  -- the new health factors
  intro g
  rw [rewriteHealthFactors, Proc.run_bind, Proc.run_read]
  refine keeps_ofExcept_bind hrefl (fun results hresults ↦ ?_) g
  refine keeps_ofExcept_bind hrefl fun target _ ↦ ?_
  refine Proc.keeps_bind htrans (keeps_onStates_advances (keeps_writeHealthFactor_renews
    fun res hres ↦ hclock _ _ ((healthFactors_ok hresults).2 res hres).2)) fun _ ↦ ?_
  exact Proc.keeps_bind htrans (Proc.keeps_read hrefl) fun g ↦ Proc.keeps_ofExcept hrefl _

/-- Assignments to markets leave the users alone. -/
theorem advances_onMarkets {L : Type} (env : MainEnv L) {α : Type} (x : Proc Markets Error α) :
    Proc.Keeps (Advances K P) (onMarkets env K x) :=
  keeps_onStates_advances fun _ ↦ .of_eq fun _ ↦ rfl

theorem advances_onMarket (token : String) (f : CtokenInfos → CtokenInfos) :
    Proc.Keeps (Advances K P) (onStates K (Proc.modify (States.onMarket token f))) :=
  keeps_onStates_advances (Proc.keeps_modify fun _ ↦ .of_eq fun _ ↦ rfl)

end Callbacks

end CompoundLiquidation
