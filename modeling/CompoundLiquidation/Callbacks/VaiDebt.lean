import CompoundLiquidation.Callbacks.Handover
import CompoundLiquidation.Users.Extends

/-!
# VAI debts

A log of the VAI controller does not carry the debt. The plug-in only stores the user, and at the
end of `users_subscribe_callback` the controller is asked for every stored user who is in the cache;
then the storage is cleared. So a user of the cache either is stored or has the debt of the last
log. What is lost is the debt of a user who is stored while outside the cache, or who had one from
the start: a later log about balances brings such a user into the cache, and only the records are
taken over from the parent.
-/

namespace CompoundLiquidation

open Python

/-- `vai_repay` of a user who is in the states. -/
def States.vaiRepay? (s : States) (u : String) : Option ℤ := (s.account? u).map Prod.snd

theorem States.vaiRepay?_setVaiRepay (usr : String) (v : ℤ) (s : States) (u : String) :
    (s.setVaiRepay usr v).vaiRepay? u
      = if u = usr then (s.vaiRepay? u).map fun _ ↦ v else s.vaiRepay? u := by
  rw [vaiRepay?, vaiRepay?, account?, account?, setVaiRepay, Dict.get?_modify]
  split_ifs
  · rcases s.usersStates.get? u with _ | states
    · rfl
    · rfl
  · rfl

theorem States.vaiRepay?_eq_some_iff {s : States} {u : String} {v : ℤ} :
    s.vaiRepay? u = some v ↔
      ∃ states, s.usersStates.get? u = some states ∧ states.vaiRepay = v := by
  rw [vaiRepay?, account?, Option.map_map, Option.map_eq_some_iff]
  rfl

/-! ## The flush -/

/-- What the loop over the stored users does, wherever it stops. -/
structure Asked (query : String → Except Error ℤ) (users : List String) (s s' : States) : Prop where
  vaiRepay : ∀ u, s'.vaiRepay? u = s.vaiRepay? u ∨ u ∈ users ∧ ∃ v, query u = .ok v ∧
    s'.vaiRepay? u = (s.vaiRepay? u).map fun _ ↦ v
  plugIn : s'.plugIn = s.plugIn

section Flush

variable {S : Type} {K : StatesClass S} {query : String → Except Error ℤ}

theorem Asked.refl (users : List String) (s : States) : Asked query users s s :=
  ⟨fun _ ↦ .inl rfl, rfl⟩

theorem Asked.known {users : List String} {s s' : States} (h : Asked query users s s')
    (u : String) : (s'.vaiRepay? u).isSome = (s.vaiRepay? u).isSome := by
  rcases h.vaiRepay u with hsame | ⟨-, v, -, hset⟩
  · rw [hsame]
  · rw [hset, Option.isSome_map]

theorem Asked.trans {users : List String} (s s' s'' : States) (h : Asked query users s s')
    (h' : Asked query users s' s'') : Asked query users s s'' where
  vaiRepay u := by
    rcases h'.vaiRepay u with hsame | ⟨hu, v, hv, hset⟩
    · rw [hsame]
      exact h.vaiRepay u
    · refine .inr ⟨hu, v, hv, ?_⟩
      rcases h.vaiRepay u with hsame | ⟨-, v', -, hset'⟩
      · rw [hset, hsame]
      · rw [hset, hset', Option.map_map]
        rfl
  plugIn := h'.plugIn.trans h.plugIn

/-- The loop. Once it is through, every user in it has been asked for. -/
theorem asked_loop (users : List String) : ∀ (l : List String), (∀ u ∈ l, u ∈ users) →
    ∀ (g : Globals S) (r : Except Error Unit) (g' : Globals S),
    (Proc.forEach l fun usr ↦ do
      let vaiRepay ← Proc.ofExcept (query usr)
      onStates K (Proc.modify (States.setVaiRepay usr vaiRepay))).run g = (r, g') →
    Asked query users (K.states g.states) (K.states g'.states) ∧
      (r = .ok () → ∀ u ∈ l, ∃ v, query u = .ok v ∧ (K.states g'.states).vaiRepay? u
        = ((K.states g.states).vaiRepay? u).map fun _ ↦ v) := by
  intro l
  induction l with
  | nil =>
    intro _ g r g' h
    obtain ⟨-, rfl⟩ := Prod.mk.inj h
    exact ⟨.refl users _, fun _ u hu ↦ absurd hu List.not_mem_nil⟩
  | cons usr l ih =>
    intro hl g r g' h
    rw [Proc.forEach_cons, Proc.run_bind, Proc.run_bind, Proc.run_ofExcept] at h
    rcases hquery : query usr with e | v
    · rw [hquery] at h
      obtain ⟨rfl, rfl⟩ := Prod.mk.inj h
      exact ⟨.refl users _, fun hr ↦ (by cases hr)⟩
    rw [hquery] at h
    have hrest : (Proc.forEach l fun usr ↦ do
        let vaiRepay ← Proc.ofExcept (query usr)
        onStates K (Proc.modify (States.setVaiRepay usr vaiRepay))).run
        { g with states := K.setStates ((K.states g.states).setVaiRepay usr v) g.states }
          = (r, g') := h
    obtain ⟨hlater, hdone⟩ := ih (fun u hu ↦ hl u (List.mem_cons_of_mem usr hu)) _ r g' hrest
    rw [K.states_setStates] at hlater hdone
    have hfirst : ∀ u, ((K.states g.states).setVaiRepay usr v).vaiRepay? u = _ :=
      (K.states g.states).vaiRepay?_setVaiRepay usr v
    have hone : Asked query users (K.states g.states) ((K.states g.states).setVaiRepay usr v) := by
      refine ⟨fun u ↦ ?_, rfl⟩
      rw [hfirst]
      by_cases hu : u = usr
      · rw [if_pos hu]
        exact .inr ⟨hl u (hu ▸ List.mem_cons_self), v, hu ▸ hquery, rfl⟩
      · rw [if_neg hu]
        exact .inl rfl
    refine ⟨hone.trans _ _ _ hlater, fun hr u hu ↦ ?_⟩
    by_cases hagain : u ∈ l
    · obtain ⟨v', hv', hset'⟩ := hdone hr u hagain
      refine ⟨v', hv', ?_⟩
      rcases hone.vaiRepay u with hsame | ⟨-, w, -, hsame⟩
      · rw [hset', hsame]
      · rw [hset', hsame, Option.map_map]
        rfl
    · have hu' : u = usr := (List.mem_cons.mp hu).resolve_right hagain
      refine ⟨v, hu' ▸ hquery, ?_⟩
      rcases hlater.vaiRepay u with hsame | ⟨-, v', hv', hset'⟩
      · rw [hsame, hfirst, if_pos hu']
      · rw [hset', hfirst, if_pos hu', Option.map_map]
        rw [hu', hquery] at hv'
        rw [← Except.ok.inj hv']
        rfl

/-- What a flush has done, wherever it stops: a stored user is still stored, or has the debt that
the controller reports. -/
structure Flushed (query : String → Except Error ℤ) (s s' : States) : Prop where
  untouched : ∀ u, ¬ s.Pending u → s'.vaiRepay? u = s.vaiRepay? u
  known : ∀ u, (s'.vaiRepay? u).isSome = (s.vaiRepay? u).isSome
  asked : ∀ u, s.Pending u → s'.Pending u ∨ ∃ v, query u = .ok v ∧
    s'.vaiRepay? u = (s.vaiRepay? u).map fun _ ↦ v
  pending : ∀ u, s'.Pending u → s.Pending u
  plugged : s'.plugIn.isSome = s.plugIn.isSome

/-- Debts and storage are the same. -/
def SameVai (s s' : States) : Prop :=
  (∀ u, s'.vaiRepay? u = s.vaiRepay? u) ∧ s'.plugIn = s.plugIn

theorem SameVai.refl (s : States) : SameVai s s := ⟨fun _ ↦ rfl, rfl⟩

theorem SameVai.trans (s s' s'' : States) (h : SameVai s s') (h' : SameVai s' s'') :
    SameVai s s'' := ⟨fun u ↦ (h'.1 u).trans (h.1 u), h'.2.trans h.2⟩

theorem SameVai.pending_iff {s s' : States} (h : SameVai s s') (u : String) :
    s'.Pending u ↔ s.Pending u := by
  rw [States.Pending, States.Pending, h.2]

theorem sameVai_refreshFlags (usr : String) (assets : List String) (s : States) :
    SameVai s (s.refreshFlags usr assets) :=
  ⟨fun u ↦ congrArg (Option.map Prod.snd) (s.account?_refreshFlags usr assets u), rfl⟩

theorem sameVai_setHealthFactor (usr : String) (hf : HealthFactor) (s : States) :
    SameVai s (s.setHealthFactor usr hf) := by
  refine ⟨fun u ↦ ?_, rfl⟩
  rw [States.vaiRepay?, States.vaiRepay?, States.account?, States.account?,
    States.setHealthFactor, Dict.get?_modify]
  split_ifs
  · rcases s.usersStates.get? u with _ | states
    · rfl
    · rfl
  · rfl

theorem SameVai.flushed {s s' : States} (h : SameVai s s') : Flushed query s s' where
  untouched u _ := h.1 u
  known u := by rw [h.1]
  asked u hu := .inl ((h.pending_iff u).mpr hu)
  pending u hu := (h.pending_iff u).mp hu
  plugged := by rw [h.2]

theorem Flushed.of_sameVai {s s' s'' : States} (h : SameVai s s') (h' : Flushed query s' s'') :
    Flushed query s s'' where
  untouched u hu := by rw [h'.untouched u (mt (h.pending_iff u).mp hu), h.1]
  known u := by rw [h'.known, h.1]
  asked u hu := by
    have hasked := h'.asked u ((h.pending_iff u).mpr hu)
    rwa [h.1] at hasked
  pending u hu := (h.pending_iff u).mp (h'.pending u hu)
  plugged := by rw [h'.plugged, h.2]

/-- **The flush.** When it returns, nobody is stored any more. -/
theorem flushed_flushPlugIn {g g' : Globals S} {r : Except Error Unit}
    (h : (flushPlugIn K query).run g = (r, g')) :
    Flushed query (K.states g.states) (K.states g'.states) ∧
      (r = .ok () → ∀ u, ¬ (K.states g'.states).Pending u) := by
  rw [flushPlugIn, Proc.run_bind, Proc.run_read] at h
  rcases hplug : (K.states g.states).plugIn with _ | plugIn
  · simp only [hplug] at h
    obtain ⟨-, rfl⟩ := Prod.mk.inj h
    refine ⟨(SameVai.refl _).flushed, fun _ u ⟨vai, hvai, _⟩ ↦ ?_⟩
    exact absurd (hplug.symm.trans hvai) (Option.some_ne_none vai).symm
  simp only [hplug, Proc.run_bind] at h
  have hstored : ∀ u, (K.states g.states).Pending u ↔ u ∈ plugIn.storage.keys := by
    intro u
    rw [States.Pending, hplug]
    simp
  rcases hloop : (Proc.forEach plugIn.storage.keys fun usr ↦ do
      let vaiRepay ← Proc.ofExcept (query usr)
      onStates K (Proc.modify (States.setVaiRepay usr vaiRepay))).run g with ⟨e | _, g₁⟩
  · rw [hloop] at h
    obtain ⟨rfl, rfl⟩ := Prod.mk.inj h
    obtain ⟨hasked, -⟩ := asked_loop _ _ (fun _ hu ↦ hu) g _ g₁ hloop
    have hpending : ∀ u, (K.states g₁.states).Pending u ↔ (K.states g.states).Pending u := by
      intro u
      rw [States.Pending, States.Pending, hasked.plugIn]
    refine ⟨⟨fun u hu ↦ ?_, hasked.known, fun u hu ↦ .inl ((hpending u).mpr hu),
      fun u hu ↦ (hpending u).mp hu, by rw [hasked.plugIn]⟩, fun hr ↦ (by cases hr)⟩
    exact (hasked.vaiRepay u).resolve_right fun h ↦ hu ((hstored u).mpr h.1)
  · rw [hloop] at h
    obtain ⟨hasked, hdone⟩ := asked_loop _ _ (fun _ hu ↦ hu) g _ g₁ hloop
    have hclear : K.states g'.states = (K.states g₁.states).clearStorage := by
      obtain ⟨-, rfl⟩ := Prod.mk.inj h
      exact K.states_setStates _ _
    have hvai : ∀ u, (K.states g'.states).vaiRepay? u = (K.states g₁.states).vaiRepay? u := by
      rw [hclear]
      exact fun _ ↦ rfl
    have hempty : (K.states g'.states).plugIn = some { plugIn with storage := ∅ } := by
      rw [hclear, States.clearStorage, hasked.plugIn, hplug]
      rfl
    have hnobody : ∀ u, ¬ (K.states g'.states).Pending u := by
      rintro u ⟨vai, hvai', hu⟩
      rw [hempty, Option.some_inj] at hvai'
      exact absurd hu (hvai' ▸ List.not_mem_nil)
    refine ⟨⟨fun u hu ↦ ?_, fun u ↦ ?_, fun u hu ↦ .inr ?_, fun u hu ↦ absurd hu (hnobody u), ?_⟩,
      fun _ ↦ hnobody⟩
    · rw [hvai]
      exact (hasked.vaiRepay u).resolve_right fun h ↦ hu ((hstored u).mpr h.1)
    · rw [hvai, hasked.known]
    · rw [hvai]
      exact hdone rfl u ((hstored u).mp hu)
    · rw [hempty, hplug]
      rfl

/-- Behind the logs, the debts change by the flush only. -/
theorem keeps_followUp_flushed (lib : EthLibs) (node : UsersNode) (clock : UsersClock)
    (usersLst : List String) : Proc.Keeps
      (fun g g' : Globals S ↦
        Flushed node.queryUserVaiRepay (K.states g.states) (K.states g'.states))
      (followUp K lib node clock usersLst) := by
  have hraise : ∀ g g' : Globals S, SameVai (K.states g.states) (K.states g'.states) →
      Flushed node.queryUserVaiRepay (K.states g.states) (K.states g'.states) :=
    fun _ _ ↦ SameVai.flushed
  have hthen : ∀ g g' g'' : Globals S, SameVai (K.states g.states) (K.states g'.states) →
      Flushed node.queryUserVaiRepay (K.states g'.states) (K.states g''.states) →
      Flushed node.queryUserVaiRepay (K.states g.states) (K.states g''.states) :=
    fun _ _ _ ↦ Flushed.of_sameVai
  refine Proc.keeps_then hthen hraise (fun g ↦ (keeps_reloadUsers SameVai.refl SameVai.trans
    sameVai_refreshFlags lib node.getAssetsIn usersLst g).1) fun _ ↦ ?_
  refine Proc.keeps_then hthen hraise (fun g ↦ (keeps_rewriteHealthFactors SameVai.refl
    SameVai.trans sameVai_setHealthFactor clock usersLst g).1) fun users ↦ ?_
  refine Proc.keeps_then hthen hraise (fun g ↦ ?_) fun _ g ↦ (flushed_flushPlugIn rfl).1
  have hsame := (keeps_addUsersToPreFiltered (K := K) users g).1
  simp only [hsame]
  exact .refl _

end Flush

/-! ## One message -/

/-- The main module with a cache after a message, also where the callback raised. -/
def Globals.receive (lib : EthLibs) (g : Globals HighProfitSates) (d : Delivery) :
    Globals HighProfitSates :=
  ((usersSubscribeCallback highProfitSates lib d.node d.clock d.response).run g).2

/-- The logs of a message that are handed to `update`. -/
def Delivery.updates (lib : EthLibs) (s : States) (d : Delivery) : List LogReceipt :=
  match converter lib d.response with
  | .error _ => []
  | .ok logs => if d.blockNum < s.lastUpdate then [] else handledLogs lib s logs

section Message

variable {lib : EthLibs}

/-- A message is a batch of updates and a flush, each as far as it comes. -/
theorem receive_eq_batch_flush (d : Delivery) (g : Globals HighProfitSates) : ∃ s₁ : States,
    Batched lib (d.updates lib g.states.toStates) g.states.toStates s₁ ∧
      Flushed d.node.queryUserVaiRepay s₁ (g.receive lib d).states.toStates := by
  rw [Globals.receive, Delivery.updates]
  rcases hlogs : converter lib d.response with e | logs
  · rw [usersSubscribeCallback, hlogs]
    exact ⟨g.states.toStates, .refl lib _, (SameVai.refl _).flushed⟩
  by_cases hold : d.blockNum < g.states.lastUpdate
  · have hold' : d.response.blockNumber < (highProfitSates.states g.states).lastUpdate := hold
    rw [usersSubscribeCallback, hlogs, Proc.run_bind, Proc.run_ofExcept]
    simp only [Proc.run_bind, Proc.run_read, if_pos hold, if_pos hold']
    exact ⟨g.states.toStates, .refl lib _, (SameVai.refl _).flushed⟩
  have hbatch := @batched_handledLogs lib _ _ HighProfitSates.extends_highProfitSates logs ∅
    g.states
  have haccepted : (highProfitSates.states g.states).lastUpdate ≤ d.response.blockNumber :=
    Int.not_lt.mp hold
  rw [run_usersSubscribeCallback hlogs haccepted]
  simp only [if_neg hold]
  refine ⟨_, hbatch, ?_⟩
  rcases (highProfitSates.updateAll lib logs ∅).run g.states with ⟨e | users, h₁⟩
  · exact (SameVai.refl _).flushed
  · have hrest := keeps_followUp_flushed (K := highProfitSates) lib d.node d.clock users.keys
      { g with states := highProfitSates.setStates { h₁.toStates with
        lastUpdate := d.response.blockNumber
        blockHash := d.response.blockHash } h₁ }
    have hset : SameVai h₁.toStates { h₁.toStates with
        lastUpdate := d.response.blockNumber
        blockHash := d.response.blockHash } := ⟨fun _ ↦ rfl, rfl⟩
    exact Flushed.of_sameVai hset hrest

/-- After a callback that returns nobody is stored. -/
theorem not_pending_of_completed {d : Delivery} {g g' : Globals HighProfitSates}
    {logs : List LogReceipt} (hlogs : converter lib d.response = .ok logs)
    (haccepted : g.states.lastUpdate ≤ d.blockNum)
    (hreturns : (usersSubscribeCallback highProfitSates lib d.node d.clock d.response).run g
      = (.ok (), g')) (u : String) : ¬ g'.states.Pending u := by
  obtain ⟨stages⟩ := stages_of_completed hlogs haccepted hreturns
  exact (flushed_flushPlugIn stages.flush).2 rfl u

end Message

/-! ## The debts a run should lead to -/

/-- How many of the logs are about the VAI debt of a user. -/
def vaiLogs (lib : EthLibs) (logs : List LogReceipt) (u : String) : ℕ :=
  logs.countP fun log ↦ decide (log.namesVai lib u)

/-- The debt after the logs of a run that starts with the cache `h₀`. The controller reports
`owed u k` for a user after the `k`th log about the user, until there is another one. A user who is
stored from the start has had a log before. -/
def wantedVai (lib : EthLibs) (owed : String → ℕ → ℤ) (h₀ : HighProfitSates)
    (logs : List LogReceipt) (u : String) : ℤ :=
  if vaiLogs lib logs u = 0 ∧ ¬ h₀.Pending u then
    (h₀.parentUsers.getD u newUserStates).vaiRepay
  else owed u (vaiLogs lib logs u)

/-- The logs that a run of messages has handed to `update`. -/
def Globals.updatedLogs (lib : EthLibs) (g : Globals HighProfitSates) :
    List Delivery → List LogReceipt
  | [] => []
  | d :: ds => d.updates lib g.states.toStates ++ (g.receive lib d).updatedLogs lib ds

/-- No user comes into the cache with a debt that nothing will read again. -/
def Delivery.EntersRight (lib : EthLibs) (owed : String → ℕ → ℤ) (h₀ : HighProfitSates)
    (past : List LogReceipt) (h : HighProfitSates) (d : Delivery) : Prop :=
  ∀ u, h.usersStates.get? u = none → (∃ log ∈ d.updates lib h.toStates, log.names lib u) →
    h.Pending u ∨ (∃ log ∈ d.updates lib h.toStates, log.namesVai lib u) ∨
      wantedVai lib owed h₀ past u = 0

/-- Every user in the cache has the debt the user should have. -/
def VaiRight (lib : EthLibs) (owed : String → ℕ → ℤ) (h₀ : HighProfitSates)
    (past : List LogReceipt) (h : HighProfitSates) : Prop :=
  ∀ u states, h.usersStates.get? u = some states →
    states.vaiRepay = wantedVai lib owed h₀ past u

/-- The message is accepted and the callback returns. -/
def Delivery.Completes (lib : EthLibs) (g : Globals HighProfitSates) (d : Delivery) : Prop :=
  (∃ logs, converter lib d.response = .ok logs) ∧ g.states.lastUpdate ≤ d.blockNum ∧
    ((usersSubscribeCallback highProfitSates lib d.node d.clock d.response).run g).1 = .ok ()

/-- What holds of the cache all along a run. -/
structure VaiKept (lib : EthLibs) (owed : String → ℕ → ℤ) (h₀ : HighProfitSates)
    (past : List LogReceipt) (s : States) : Prop where
  plugged : s.plugIn.isSome
  right : ∀ u v, s.vaiRepay? u = some v → s.Pending u ∨ v = wantedVai lib owed h₀ past u
  pending : ∀ u, s.Pending u → h₀.Pending u ∨ 0 < vaiLogs lib past u

section Run

variable {lib : EthLibs} {owed : String → ℕ → ℤ} {h₀ : HighProfitSates}

theorem vaiLogs_append (past logs : List LogReceipt) (u : String) :
    vaiLogs lib (past ++ logs) u = vaiLogs lib past u + vaiLogs lib logs u :=
  List.countP_append

theorem vaiLogs_pos_iff {logs : List LogReceipt} {u : String} :
    0 < vaiLogs lib logs u ↔ ∃ log ∈ logs, log.namesVai lib u := by
  rw [vaiLogs, List.countP_pos_iff]
  simp only [decide_eq_true_eq]

/-- Without a log about the user the debt is the one of before. -/
theorem wantedVai_append_of_unnamed {past logs : List LogReceipt} {u : String}
    (h : ¬ ∃ log ∈ logs, log.namesVai lib u) :
    wantedVai lib owed h₀ (past ++ logs) u = wantedVai lib owed h₀ past u := by
  have hzero : vaiLogs lib logs u = 0 := by
    rw [← vaiLogs_pos_iff] at h
    omega
  rw [wantedVai, wantedVai, vaiLogs_append, hzero, add_zero]

/-- For a user who has had a log the controller decides. -/
theorem wantedVai_of_named {logs : List LogReceipt} {u : String}
    (h : h₀.Pending u ∨ 0 < vaiLogs lib logs u) :
    wantedVai lib owed h₀ logs u = owed u (vaiLogs lib logs u) := by
  rw [wantedVai, if_neg]
  rintro ⟨hzero, hpending⟩
  rcases h with h | h
  · exact hpending h
  · omega

/-- A cache that has just been built has the debts of the parent. -/
theorem vaiKept_new {fullStates : States} (profitThres : ℚ) (hplug : fullStates.plugIn.isSome) :
    VaiKept lib owed (.new fullStates profitThres) []
      (HighProfitSates.new fullStates profitThres).toStates where
  plugged := hplug
  right u v h := by
    obtain ⟨states, hstates, rfl⟩ := States.vaiRepay?_eq_some_iff.mp h
    by_cases hpending : (HighProfitSates.new fullStates profitThres).Pending u
    · exact .inl hpending
    · have hfull : (HighProfitSates.new fullStates profitThres).parentUsers.get? u
          = some states := by
        rw [HighProfitSates.new, States.new, filterStates, Dict.get?_filter,
          Option.filter_eq_some_iff] at hstates
        exact hstates.1
      rw [wantedVai, if_pos ⟨rfl, hpending⟩, Dict.getD_of_get? hfull]
      exact .inr rfl
  pending u h := .inl h

/-- The logs of a message keep it, if users enter right. -/
theorem VaiKept.batch {past logs : List LogReceipt} {s s₁ : States}
    (h : VaiKept lib owed h₀ past s) (hbatch : Batched lib logs s s₁)
    (henters : ∀ u, s.usersStates.get? u = none → (∃ log ∈ logs, log.names lib u) →
      s.Pending u ∨ (∃ log ∈ logs, log.namesVai lib u) ∨ wantedVai lib owed h₀ past u = 0) :
    VaiKept lib owed h₀ (past ++ logs) s₁ where
  plugged := hbatch.plugged.trans h.plugged
  pending u hu := by
    rw [vaiLogs_append]
    rcases (hbatch.pending u).mp hu with hu | ⟨-, hu⟩
    · rcases h.pending u hu with hu | hu
      · exact .inl hu
      · exact .inr (by omega)
    · rw [← vaiLogs_pos_iff] at hu
      exact .inr (by omega)
  right u v hv := by
    by_cases hvai : ∃ log ∈ logs, log.namesVai lib u
    · exact .inl ((hbatch.pending u).mpr (.inr ⟨h.plugged, hvai⟩))
    rw [wantedVai_append_of_unnamed hvai]
    rcases hs : s.usersStates.get? u with _ | states
    · -- a user who was not in the cache and is there now
      have hnone : s.account? u = none := by rw [States.account?, hs]; rfl
      have hnamed : ∃ log ∈ logs, log.names lib u := by
        by_contra hunnamed
        rw [States.vaiRepay?, hbatch.unnamed u hunnamed, hnone] at hv
        exact absurd hv (Option.some_ne_none v).symm
      have hzero : v = 0 := by
        rw [States.vaiRepay?, hbatch.named u hnamed, hnone] at hv
        exact (Option.some_inj.mp hv).symm
      rcases henters u hs hnamed with hu | hu | hu
      · exact .inl ((hbatch.pending u).mpr (.inl hu))
      · exact absurd hu hvai
      · exact .inr (hzero.trans hu.symm)
    · -- a user who was
      have hsome : s.account? u = some states.account := by rw [States.account?, hs]; rfl
      have hsame : s₁.account? u = s.account? u := by
        by_cases hnamed : ∃ log ∈ logs, log.names lib u
        · rw [hbatch.named u hnamed, hsome, Option.getD_some]
        · exact hbatch.unnamed u hnamed
      rw [States.vaiRepay?, hsame] at hv
      exact (h.right u v hv).imp_left fun hu ↦ (hbatch.pending u).mpr (.inl hu)

/-- A flush keeps it, if the controller reports what it should. -/
theorem VaiKept.flush {past : List LogReceipt} {s s' : States} {query : String → Except Error ℤ}
    (h : VaiKept lib owed h₀ past s) (hflush : Flushed query s s')
    (hreports : ∀ u v, query u = .ok v → v = owed u (vaiLogs lib past u)) :
    VaiKept lib owed h₀ past s' where
  plugged := hflush.plugged.trans h.plugged
  pending u hu := h.pending u (hflush.pending u hu)
  right u v hv := by
    by_cases hu : s.Pending u
    · rcases hflush.asked u hu with hu' | ⟨w, hw, hset⟩
      · exact .inl hu'
      · rw [hset] at hv
        obtain ⟨-, -, rfl⟩ := Option.map_eq_some_iff.mp hv
        rw [wantedVai_of_named (h.pending u hu)]
        exact .inr (hreports u w hw)
    · rw [hflush.untouched u hu] at hv
      exact .inr ((h.right u v hv).resolve_left hu)

theorem VaiKept.vaiRight {past : List LogReceipt} {h : HighProfitSates}
    (hkept : VaiKept lib owed h₀ past h.toStates) (hnobody : ∀ u, ¬ h.Pending u) :
    VaiRight lib owed h₀ past h := by
  intro u states hstates
  have hv := States.vaiRepay?_eq_some_iff.mpr ⟨states, hstates, rfl⟩
  exact (hkept.right u _ hv).resolve_left (hnobody u)

/-- What the controller reports while a message is handled is the debt after the logs of the
message. -/
def Delivery.ReportsVai (lib : EthLibs) (owed : String → ℕ → ℤ) (past : List LogReceipt)
    (d : Delivery) : Prop :=
  ∀ u v, d.node.queryUserVaiRepay u = .ok v → v = owed u (vaiLogs lib past u)

theorem VaiKept.receive {past : List LogReceipt} {g : Globals HighProfitSates} {d : Delivery}
    (h : VaiKept lib owed h₀ past g.states.toStates)
    (hreports : d.ReportsVai lib owed (past ++ d.updates lib g.states.toStates))
    (henters : d.EntersRight lib owed h₀ past g.states) :
    VaiKept lib owed h₀ (past ++ d.updates lib g.states.toStates)
      (g.receive lib d).states.toStates := by
  obtain ⟨s₁, hbatch, hflush⟩ := @receive_eq_batch_flush lib d g
  exact (h.batch hbatch henters).flush hflush hreports

theorem not_pending_receive {g : Globals HighProfitSates} {d : Delivery}
    (hcompletes : d.Completes lib g) (u : String) : ¬ (g.receive lib d).states.Pending u := by
  obtain ⟨⟨logs, hlogs⟩, haccepted, hreturns⟩ := hcompletes
  exact not_pending_of_completed hlogs haccepted (Prod.ext hreturns rfl) u

/-- A user who enters wrong is wrong when the callback returns. -/
theorem entersRight_of_vaiRight {past : List LogReceipt} {g : Globals HighProfitSates}
    {d : Delivery} (hright : VaiRight lib owed h₀ (past ++ d.updates lib g.states.toStates)
      (g.receive lib d).states) :
    d.EntersRight lib owed h₀ past g.states := by
  intro u hnew hnamed
  obtain ⟨s₁, hbatch, hflush⟩ := @receive_eq_batch_flush lib d g
  by_cases hpending : g.states.Pending u
  · exact .inl hpending
  by_cases hvai : ∃ log ∈ d.updates lib g.states.toStates, log.namesVai lib u
  · exact .inr (.inl hvai)
  have hnone : g.states.account? u = none := by rw [States.account?, hnew]; rfl
  have hentered : s₁.vaiRepay? u = some 0 := by
    rw [States.vaiRepay?, hbatch.named u hnamed, hnone]
    rfl
  have hidle : ¬ s₁.Pending u := fun h ↦
    ((hbatch.pending u).mp h).elim hpending fun h ↦ hvai h.2
  rw [← hflush.untouched u hidle] at hentered
  obtain ⟨states, hstates, hzero⟩ := States.vaiRepay?_eq_some_iff.mp hentered
  have hwanted := hright u states hstates
  rw [hzero, wantedVai_append_of_unnamed hvai] at hwanted
  exact .inr (.inr hwanted.symm)

theorem updatedLogs_concat (d : Delivery) (ds : List Delivery) : ∀ g : Globals HighProfitSates,
    g.updatedLogs lib (ds ++ [d]) = g.updatedLogs lib ds
      ++ d.updates lib (runFrom (Globals.receive lib) g ds).states.toStates := by
  induction ds with
  | nil =>
    intro g
    exact List.append_nil _
  | cons d' ds ih =>
    intro g
    rw [List.cons_append, Globals.updatedLogs, ih, Globals.updatedLogs, List.append_assoc]
    rfl

/-- Whenever a callback of the run has returned, every user in the cache has the right debt. -/
def RightAfterCallbacks (lib : EthLibs) (owed : String → ℕ → ℤ) (g : Globals HighProfitSates)
    (deliveries : List Delivery) : Prop :=
  ∀ past d, past ++ [d] <+: deliveries → d.Completes lib (runFrom (Globals.receive lib) g past) →
    VaiRight lib owed g.states (g.updatedLogs lib (past ++ [d]))
      (runFrom (Globals.receive lib) g (past ++ [d])).states

/-- **VAI debts.** In a run of messages whose users all enter right, every user in the cache has the
right debt whenever a callback has returned. If all callbacks return, this takes that all users
enter right. -/
theorem vaiRight_of_entersRight {g : Globals HighProfitSates} {fullStates : States}
    {profitThres : ℚ} (hstart : g.states = .new fullStates profitThres)
    (hplug : fullStates.plugIn.isSome) {deliveries : List Delivery}
    (hreports : ∀ past d, past ++ [d] <+: deliveries →
      d.ReportsVai lib owed (g.updatedLogs lib (past ++ [d]))) :
    ((∀ past d, past ++ [d] <+: deliveries → d.EntersRight lib owed g.states
        (g.updatedLogs lib past) (runFrom (Globals.receive lib) g past).states) →
      RightAfterCallbacks lib owed g deliveries) ∧
    ((∀ past d, past ++ [d] <+: deliveries →
        d.Completes lib (runFrom (Globals.receive lib) g past)) →
      RightAfterCallbacks lib owed g deliveries →
      ∀ past d, past ++ [d] <+: deliveries → d.EntersRight lib owed g.states
        (g.updatedLogs lib past) (runFrom (Globals.receive lib) g past).states) := by
  constructor
  · intro henters past d hpre hcompletes
    have hinit : VaiKept lib owed g.states [] g.states.toStates := by
      rw [hstart]
      exact vaiKept_new profitThres hplug
    have hkept := forall_prefix (P := fun past ↦ VaiKept lib owed g.states
      (g.updatedLogs lib past) (runFrom (Globals.receive lib) g past).states.toStates)
      deliveries hinit fun past d hpre h ↦ by
        have hreports' := hreports past d hpre
        rw [updatedLogs_concat] at hreports' ⊢
        rw [runFrom_concat]
        exact h.receive hreports' (henters past d hpre)
    refine (hkept _ hpre).vaiRight fun u ↦ ?_
    rw [runFrom_concat]
    exact not_pending_receive hcompletes u
  · intro hcompletes hright past d hpre
    have hafter := hright past d hpre (hcompletes past d hpre)
    rw [updatedLogs_concat, runFrom_concat] at hafter
    exact entersRight_of_vaiRight hafter

end Run

/-! ## A debt only the parent knows -/

/-- A user without balances, but with a VAI debt of seven. -/
def indebtedStates : States :=
  { States.new (Dict.set ∅ "0x9109358674f1c9a1a945a1d9880fb7ef1ddc43a3"
      { newUserStates with vaiRepay := 7 })
      (Dict.set ∅ "0xA07c5b74C9B40447a954e1466938b865b6BBea36" unitMarket) 100 "" with
    plugIn := some ⟨∅⟩ }

def indebtedGlobals : Globals HighProfitSates where
  states := .new indebtedStates 0
  comet := ⟨0, 0, Dict.set ∅ "0xA07c5b74C9B40447a954e1466938b865b6BBea36" (10 ^ 18), 0⟩
  signals := .init ∅
  usersPreFiltered := ∅

/-- A mint for the user, while the controller reports the debt. -/
def indebtedDelivery : Delivery :=
  { mintDelivery with node := { mintDelivery.node with queryUserVaiRepay := fun _ ↦ .ok 7 } }

theorem completes_indebtedDelivery : indebtedDelivery.Completes mintLibs indebtedGlobals := by
  refine ⟨⟨_, converter_mintDelivery⟩, by decide, ?_⟩
  have hconverter : converter mintLibs indebtedDelivery.response = .ok [mintLog] :=
    converter_mintDelivery
  rw [run_usersSubscribeCallback hconverter (by decide), updateAll_mintLog]
  decide +kernel

theorem reports_indebtedDelivery : ∀ past d, past ++ [d] <+: [indebtedDelivery] →
    d.ReportsVai mintLibs (fun _ _ ↦ 7) (indebtedGlobals.updatedLogs mintLibs (past ++ [d])) := by
  intro past d hpre u v hv
  have hd := hpre.subset (List.mem_append_right past (List.mem_singleton_self d))
  rw [List.mem_singleton.mp hd] at hv
  exact (Except.ok.inj hv).symm

theorem vaiRight_of_entersRight_indebted :
    ((∀ past d, past ++ [d] <+: [indebtedDelivery] → d.EntersRight mintLibs (fun _ _ ↦ 7)
        indebtedGlobals.states (indebtedGlobals.updatedLogs mintLibs past)
        (runFrom (Globals.receive mintLibs) indebtedGlobals past).states) →
      RightAfterCallbacks mintLibs (fun _ _ ↦ 7) indebtedGlobals [indebtedDelivery]) ∧
    ((∀ past d, past ++ [d] <+: [indebtedDelivery] →
        d.Completes mintLibs (runFrom (Globals.receive mintLibs) indebtedGlobals past)) →
      RightAfterCallbacks mintLibs (fun _ _ ↦ 7) indebtedGlobals [indebtedDelivery] →
      ∀ past d, past ++ [d] <+: [indebtedDelivery] → d.EntersRight mintLibs (fun _ _ ↦ 7)
        indebtedGlobals.states (indebtedGlobals.updatedLogs mintLibs past)
        (runFrom (Globals.receive mintLibs) indebtedGlobals past).states) :=
  vaiRight_of_entersRight rfl rfl reports_indebtedDelivery

/-- The mint brings the user into the cache, and the debt is not taken over. -/
theorem not_rightAfterCallbacks_indebted :
    indebtedGlobals.states = .new indebtedStates 0 ∧ indebtedStates.plugIn.isSome ∧
    (∀ past d, past ++ [d] <+: [indebtedDelivery] →
      d.ReportsVai mintLibs (fun _ _ ↦ 7) (indebtedGlobals.updatedLogs mintLibs (past ++ [d]))) ∧
    indebtedDelivery.Completes mintLibs indebtedGlobals ∧
    ¬ RightAfterCallbacks mintLibs (fun _ _ ↦ 7) indebtedGlobals [indebtedDelivery] := by
  refine ⟨rfl, rfl, reports_indebtedDelivery, completes_indebtedDelivery, fun hright ↦ ?_⟩
  have hafter := hright [] indebtedDelivery (List.prefix_refl _) completes_indebtedDelivery
  rw [updatedLogs_concat, runFrom_concat] at hafter
  have hlogs : indebtedDelivery.updates mintLibs indebtedGlobals.states.toStates = [mintLog] := by
    have hconverter : converter mintLibs indebtedDelivery.response = .ok [mintLog] :=
      converter_mintDelivery
    have hnew : ¬ indebtedDelivery.blockNum < indebtedGlobals.states.lastUpdate := by decide
    rw [Delivery.updates, hconverter]
    simp only [hnew, if_false, handledLogs, ite_self]
  have hnone : indebtedGlobals.states.usersStates.get? "0x9109358674f1c9a1a945a1d9880fb7ef1ddc43a3"
      = none := by decide +kernel
  have henters := entersRight_of_vaiRight hafter "0x9109358674f1c9a1a945a1d9880fb7ef1ddc43a3" hnone
  have hstart : (runFrom (Globals.receive mintLibs) indebtedGlobals []).states
      = indebtedGlobals.states := rfl
  rw [hstart, hlogs] at henters
  rcases henters names_mintLog with hpending | hvai | hzero
  · exact absurd hpending (by decide)
  · obtain ⟨log, hlog, hnames⟩ := hvai
    rw [List.mem_singleton.mp hlog, LogReceipt.namesVai,
      States.vaiChange_of_usersChange usersChange_mintLibs] at hnames
    exact absurd (Except.ok.inj hnames) (Option.some_ne_none _).symm
  · exact absurd hzero (by decide)

end CompoundLiquidation
