import CompoundLiquidation.Main.Known

/-!
# No lookup fails

The start of the program establishes the invariant: each aggregator gets a list, all users come out
of the states, and the last synchronisation removes nobody. So from there on no question to the
states about a user can fail, at any point of any run.
-/

namespace CompoundLiquidation

open Python

/-! ## The inverse map -/

private theorem aggr_of_inverse (entries : List (String × List AggregatorInfos))
    {token aggr : String} :
    ∀ {acc : Dict String String}, (entries.foldl (fun acc kd ↦
      kd.2.foldl (fun acc data ↦ acc.set data.token kd.1) acc) acc).get? token = some aggr →
    acc.get? token = some aggr ∨ aggr ∈ entries.map Prod.fst := by
  have hone : ∀ (datas : List AggregatorInfos) (name : String) {acc : Dict String String},
      (datas.foldl (fun acc data ↦ acc.set data.token name) acc).get? token = some aggr →
      acc.get? token = some aggr ∨ aggr = name := by
    intro datas name
    induction datas with
    | nil => exact .inl
    | cons data datas ih =>
      intro acc h
      obtain hacc | hname := ih h
      · rw [Dict.get?_set] at hacc
        split_ifs at hacc with htoken
        · exact .inr (Option.some_inj.mp hacc).symm
        · exact .inl hacc
      · exact .inr hname
  induction entries with
  | nil => exact .inl
  | cons entry entries ih =>
    intro acc h
    obtain hacc | hmem := ih h
    · refine (hone entry.2 entry.1 hacc).imp id ?_
      rintro rfl
      exact List.mem_cons_self
    · exact .inr (List.mem_cons_of_mem entry.1 hmem)

/-- Tokens are mapped to aggregators. -/
theorem mem_keys_of_signalTokenInverse {signalTokenMap : Dict String (List AggregatorInfos)}
    {token aggr : String}
    (h : (Signals.signalTokenInverse signalTokenMap).get? token = some aggr) :
    aggr ∈ signalTokenMap.keys := by
  obtain hnone | hmem := aggr_of_inverse signalTokenMap.entries h
  · cases hnone
  · exact hmem

section Start

variable {L : Type} {env : MainEnv L} {S : Type} {K : StatesClass S} {P : Kind}

/-! ## The start -/

theorem prefilter_ok {currentTime : ℤ} {aggr : String} {g g' : Globals S}
    (h : (prefilter K currentTime aggr).run g = (.ok (), g')) : ∃ users, g.Proper K users ∧
      g' = { g with usersPreFiltered := g.usersPreFiltered.set aggr users } := by
  rw [prefilter, Proc.run_bind, Proc.run_read] at h
  dsimp only at h
  obtain ⟨⟨tokensAddr, _⟩, _, htokens, h⟩ := Proc.run_bind_ok h
  obtain ⟨-, rfl⟩ := Prod.mk.inj htokens
  obtain ⟨users, _, htrim, h⟩ := Proc.run_bind_ok h
  obtain ⟨husers, rfl⟩ := Prod.mk.inj htrim
  exact ⟨users, proper_usersTrimming husers (nodup_usersFiltering _ _), (Prod.mk.inj h).2.symm⟩

/-- The loop over the aggregators gives each of them a list. -/
theorem prefilters_ok {clock : String → ℤ} {aggrs : List String} : ∀ {g g' : Globals S},
    (Proc.forEach aggrs fun aggr ↦ prefilter K (clock aggr) aggr).run g = (.ok (), g') →
    (∀ aggr, g.Proper K (g.listOf aggr)) →
    g'.signals = g.signals ∧ (∀ aggr, g'.Proper K (g'.listOf aggr)) ∧
      ∀ aggr, aggr ∈ aggrs ∨ aggr ∈ g.usersPreFiltered.keys → aggr ∈ g'.usersPreFiltered.keys := by
  induction aggrs with
  | nil =>
    intro g g' h hproper
    rw [← (Prod.mk.inj h).2]
    exact ⟨rfl, hproper, fun _ haggr ↦ haggr.resolve_left List.not_mem_nil⟩
  | cons aggr aggrs ih =>
    intro g g' h hproper
    obtain ⟨_, g₁, hone, h⟩ := Proc.run_bind_ok h
    obtain ⟨users, husers, rfl⟩ := prefilter_ok hone
    obtain ⟨hsignals, hlists, hkeys⟩ := ih h fun aggr' ↦ by
      rw [Globals.listOf, Dict.getD_set]
      split_ifs
      · exact husers
      · exact hproper aggr'
    refine ⟨hsignals, hlists, fun aggr' haggr ↦ hkeys aggr' ?_⟩
    obtain hmem | hmem := haggr
    · obtain rfl | hmem := List.mem_cons.mp hmem
      · exact .inr (Dict.mem_keys_set.mpr (.inl rfl))
      · exact .inl hmem
    · exact .inr (Dict.mem_keys_set.mpr (.inr hmem))

/-- A list that comes out in order. -/
theorem usersTrimming_of_sorted {sta : States} {currentTime : ℤ} {users : List String}
    {filtered : List (ℚ × String)}
    (h : usersFiltered toFloat sta currentTime true users = .ok filtered)
    (hsorted : filtered.Pairwise fun a b ↦ hfUserLe a b = true) :
    usersTrimming toFloat users sta currentTime true = .ok (filtered.map Prod.snd) := by
  rw [usersTrimming, h, ok_bind, if_pos rfl, List.mergeSort_of_pairwise hsorted]
  rfl

/-- What the loop leaves when all of its questions are answered. -/
theorem run_prefilters {clock : String → ℤ} (lists : String → List String) {aggrs : List String} :
    ∀ {g : Globals S}, (∀ aggr ∈ aggrs, ∃ tokensAddr a,
      g.signals.getTokensFromAggr aggr = .ok (tokensAddr, a) ∧
      usersTrimming toFloat ((K.states g.states).usersFiltering tokensAddr) (K.states g.states)
        (clock aggr + 1200) true = .ok (lists aggr)) →
    (Proc.forEach aggrs fun aggr ↦ prefilter K (clock aggr) aggr).run g = (.ok (), { g with
      usersPreFiltered :=
        aggrs.foldl (fun d aggr ↦ d.set aggr (lists aggr)) g.usersPreFiltered }) := by
  induction aggrs with
  | nil => exact fun _ ↦ rfl
  | cons aggr aggrs ih =>
    intro g h
    obtain ⟨⟨tokensAddr, a, htokens, htrim⟩, hrest⟩ := List.forall_mem_cons.mp h
    have hone : (prefilter K (clock aggr) aggr).run g = (.ok (), { g with
        usersPreFiltered := g.usersPreFiltered.set aggr (lists aggr) }) := by
      rw [prefilter, Proc.run_bind_of_ok (Proc.run_read _), Proc.run_bind, Proc.run_ofExcept,
        htokens]
      dsimp only
      rw [Proc.run_bind, Proc.run_ofExcept, htrim]
      rfl
    rw [Proc.forEach_cons, Proc.run_bind_of_ok hone]
    exact ih hrest

/-! ### Synchronising -/

section Sync

variable {R : States → States → Prop} (hrefl : ∀ s, R s s)
  (htrans : ∀ s s' s'', R s s' → R s' s'' → R s s'')

theorem keeps_onBase {x : Proc States Error Unit} (h : Proc.Keeps R x) :
    Proc.Keeps (fun o o' : S ↦ R (K.states o) (K.states o')) (K.onBase x) := by
  intro o
  rw [StatesClass.onBase, Proc.run_zoom]
  dsimp only
  rw [K.states_setStates]
  exact h (K.states o)

include hrefl htrans

/-- What the logs of any list keep, and what does not depend on the last block and on the flags of
the users, is kept by a synchronisation. -/
theorem keeps_syncStates {lib : EthLibs}
    (hupdate : ∀ logs users (o : S),
      R (K.states o) (K.states ((K.updateAll lib logs users).run o).2))
    (hblock : ∀ s blockNumber, R s { s with lastUpdate := blockNumber })
    (hflags : ∀ usr assets s, R s (s.refreshFlags usr assets)) (node : EthNode) (delay : ℤ) :
    Proc.Keeps (fun o o' : S ↦ R (K.states o) (K.states o')) (K.syncStates lib node delay) := by
  have hreflS : ∀ o : S, R (K.states o) (K.states o) := fun o ↦ hrefl (K.states o)
  have htransS : ∀ o o' o'' : S, R (K.states o) (K.states o') → R (K.states o') (K.states o'') →
      R (K.states o) (K.states o'') := fun _ _ _ ↦ htrans _ _ _
  have hwindow : ∀ targetBlock, Proc.Keeps (fun o o' : S ↦ R (K.states o) (K.states o'))
      (K.queryWindow lib node targetBlock) := by
    intro targetBlock
    refine Proc.keeps_bind htransS (Proc.keeps_read hreflS) fun s ↦ ?_
    refine Proc.keeps_bind htransS (Proc.keeps_ofExcept hreflS _) fun logs ↦ ?_
    refine Proc.keeps_bind htransS (fun o ↦ hupdate logs ∅ o) fun res ↦ ?_
    refine Proc.keeps_bind htransS (keeps_onBase (Proc.keeps_modify fun s ↦ hblock s _))
      fun _ ↦ ?_
    exact Proc.keeps_forEach hreflS htransS _ fun usr _ ↦ keeps_onBase
      (keeps_reloadAndExtendStates hrefl hflags lib _ usr)
  have hloop : ∀ targetBlock n, Proc.Keeps (fun o o' : S ↦ R (K.states o) (K.states o'))
      (K.queryEventsLoop lib node targetBlock n) := by
    intro targetBlock n
    induction n with
    | zero => exact Proc.keeps_pure hreflS ()
    | succ n ih =>
      refine Proc.keeps_bind htransS (Proc.keeps_read hreflS) fun s ↦ ?_
      exact Proc.keeps_ite (fun _ ↦ Proc.keeps_bind htransS (hwindow targetBlock) fun _ ↦ ih)
        fun _ ↦ Proc.keeps_pure hreflS ()
  refine Proc.keeps_bind htransS (Proc.keeps_ofExcept hreflS _) fun blockNumber ↦ ?_
  exact Proc.keeps_bind htransS (Proc.keeps_read hreflS) fun s ↦ hloop _ _

end Sync

variable (K P) in
/-- `Renews` for the states of an object. -/
def RenewsBase (o o' : S) : Prop := Renews P (K.states o) (K.states o')

/-- A synchronisation removes nobody and renews no health factor. -/
theorem renews_syncStates (hK : K.Extends) (lib : EthLibs) (node : EthNode) (delay : ℤ) :
    Proc.Keeps (RenewsBase K P) (K.syncStates lib node delay) :=
  keeps_syncStates Renews.refl Renews.trans (renews_updateAll hK lib)
    (fun _ _ ↦ .of_eq fun _ ↦ rfl) renews_refreshFlags node delay

variable (env K) in
/-- The start has gone through, and the tasks have not done anything yet. -/
structure Main.AtStart (m : Main S) : Prop where
  globals : ∃ (sourceTokenMap : Dict String (List AggregatorInfos)) (g : Globals S)
    (clock : String → ℤ) (node : EthNode), g.signals = Signals.init sourceTokenMap ∧
      (startUp env K clock node).run g = (.ok (), m.globals)
  usersPending : m.usersPending = []
  signalTask : m.signalTask = none
  idleTask : m.idleTask = none

/-- The lists are those of the aggregators, and what comes behind them leaves them alone. -/
theorem startUp_ok (hK : K.Extends) {clock : String → ℤ} {node : EthNode} {g g' : Globals S}
    (h : (startUp env K clock node).run g = (.ok (), g')) :
    g'.signals = g.signals ∧ (∀ aggr, g'.Proper K (g'.listOf aggr)) ∧
      ∀ aggr ∈ g.signals.signalTokenMap.keys, aggr ∈ g'.usersPreFiltered.keys := by
  rw [startUp, Proc.run_bind, Proc.run_modify] at h
  dsimp only at h
  rw [Proc.run_bind, Proc.run_read] at h
  dsimp only at h
  obtain ⟨_, g₁, hloop, hsync⟩ := Proc.run_bind_ok h
  obtain ⟨hsignals, hlists, hkeys⟩ := prefilters_ok hloop fun aggr ↦
    ⟨List.nodup_nil, fun _ hu ↦ absurd hu List.not_mem_nil⟩
  have hrenews := renews_syncStates (P := fun _ _ ↦ False) hK env.lib node 0 g₁.states
  have hglobals : g' = { g₁ with
      states := ((K.syncStates env.lib node 0).run g₁.states).2 } := (Prod.mk.inj hsync).2.symm
  have hadvances : Advances K (fun _ _ ↦ False) g₁ g' := by
    rw [hglobals]
    exact OnStates.advances ⟨hrenews, rfl⟩
  refine ⟨by rw [hglobals, hsignals], fun aggr ↦ hadvances.proper_listOf (hlists aggr),
    fun aggr haggr ↦ (hadvances.aggrs aggr).mpr (hkeys aggr (.inl haggr))⟩

/-- A start whose questions are answered. -/
theorem run_startUp {clock : String → ℤ} {node : EthNode} (lists : String → List String)
    {g : Globals S} (hlists : ∀ aggr ∈ g.signals.signalTokenMap.keys, ∃ tokensAddr a,
      g.signals.getTokensFromAggr aggr = .ok (tokensAddr, a) ∧
      usersTrimming toFloat ((K.states g.states).usersFiltering tokensAddr) (K.states g.states)
        (clock aggr + 1200) true = .ok (lists aggr)) {states : S}
    (hsync : (K.syncStates env.lib node 0).run g.states = (.ok (), states)) :
    (startUp env K clock node).run g = (.ok (), { g with
      states := states
      usersPreFiltered :=
        g.signals.signalTokenMap.keys.foldl (fun d aggr ↦ d.set aggr (lists aggr)) ∅ }) := by
  have hloop := run_prefilters lists (g := { g with usersPreFiltered := ∅ }) hlists
  rw [startUp, Proc.run_bind_of_ok (Proc.run_modify _ _), Proc.run_bind_of_ok (Proc.run_read _),
    Proc.run_bind_of_ok hloop, Proc.run_zoom]
  dsimp only
  rw [hsync]

/-- Every aggregator has a list. -/
theorem Main.AtStart.listed (hK : K.Extends) {m : Main S} (h : m.AtStart env K) :
    ∀ aggr ∈ m.globals.signals.signalTokenMap.keys, aggr ∈ m.globals.usersPreFiltered.keys := by
  obtain ⟨_, _, _, _, -, hrun⟩ := h.globals
  obtain ⟨hsignals, -, hkeys⟩ := startUp_ok hK hrun
  rw [hsignals]
  exact hkeys

/-- The start establishes the invariant. -/
theorem Main.AtStart.known (hK : K.Extends) {m : Main S} (h : m.AtStart env K) : m.Known K := by
  obtain ⟨sourceTokenMap, g, clock, node, hinit, hrun⟩ := h.globals
  obtain ⟨hsignals, hlists, -⟩ := startUp_ok hK hrun
  refine ⟨fun token aggr haggr ↦ h.listed hK aggr ?_, hlists, fun batch hbatch ↦ ?_,
    fun task htask ↦ ?_, fun results hresults ↦ ?_⟩
  · rw [hsignals, hinit] at haggr ⊢
    exact mem_keys_of_signalTokenInverse haggr
  · rw [h.usersPending] at hbatch
    exact absurd hbatch List.not_mem_nil
  · rw [h.signalTask] at htask
    cases htask
  · rw [h.idleTask] at hresults
    cases hresults

/-! ## Questions to the states -/

theorem insertIndex_ok {sta : States} {hf : ℚ} {users : List String}
    (h : ∀ u ∈ users, u ∈ sta.usersStates.keys) : ∀ i,
    ∃ index, insertIndex sta hf i users = .ok index := by
  induction users with
  | nil => exact fun i ↦ ⟨0, rfl⟩
  | cons usr users ih =>
    intro i
    obtain ⟨states, hstates⟩ := Dict.mem_keys_iff.mp (h usr List.mem_cons_self)
    rw [insertIndex, Dict.item_eq_ok_iff.mpr hstates, ok_bind]
    split_ifs
    · exact ⟨i, rfl⟩
    · exact ih (fun u hu ↦ h u (List.mem_cons_of_mem usr hu)) (i + 1)

/-- The insertion of a known user returns. -/
theorem addUserToPreFiltered_returns {g : Globals S} {u : String} (hu : g.Knows K u)
    (hmapped : ∀ token aggr, g.signals.tokenSignalMap.get? token = some aggr →
      aggr ∈ g.usersPreFiltered.keys)
    (hlisted : ∀ aggr, g.Proper K (g.listOf aggr)) :
    ((addUserToPreFiltered K u).run g).1 = .ok () := by
  obtain ⟨states, hstates⟩ := Dict.mem_keys_iff.mp hu
  rw [addUserToPreFiltered, Proc.run_bind, Proc.run_read]
  dsimp only
  rw [Proc.run_bind, Proc.run_ofExcept, Dict.item_eq_ok_iff.mpr hstates]
  dsimp only
  generalize states.reserves.keys = keys
  clear hstates
  -- one reserve changes at most one list, so that the next one finds the same
  induction keys generalizing g with
  | nil => rfl
  | cons key keys ih =>
    have hadvances := advances_addToPreFiltered (P := fun _ _ ↦ False) u states.healthFactor.value
      key g hu
    have hone : ((addToPreFiltered K u states.healthFactor.value key).run g).1 = .ok () := by
      rw [addToPreFiltered, Proc.run_bind, Proc.run_read]
      dsimp only
      rcases haggr : g.signals.tokenSignalMap.get? key with _ | aggr
      · rfl
      obtain ⟨users, husers⟩ := Dict.mem_keys_iff.mp (hmapped key aggr haggr)
      dsimp only
      rw [Proc.run_bind, Proc.run_ofExcept, Dict.item_eq_ok_iff.mpr husers]
      dsimp only
      by_cases hmem : u ∈ users
      · rw [if_pos hmem]
        rfl
      have hproper := (hlisted aggr).2
      rw [Globals.listOf, Dict.getD_of_get? husers] at hproper
      obtain ⟨index, hindex⟩ := @insertIndex_ok _ states.healthFactor.value _ hproper 0
      rw [if_neg hmem, Proc.run_bind, Proc.run_ofExcept, hindex]
      rfl
    rcases hrun : (addToPreFiltered K u states.healthFactor.value key).run g with ⟨out, g₁⟩
    rw [hrun] at hone hadvances
    dsimp only at hone
    subst hone
    rw [Proc.forEach_cons, Proc.run_bind_of_ok hrun]
    refine ih (hadvances.knows hu) (fun token aggr haggr ↦ ?_) fun aggr ↦
      hadvances.proper_listOf (hlisted aggr)
    rw [hadvances.tokenSignalMap] at haggr
    exact (hadvances.aggrs aggr).mpr (hmapped token aggr haggr)

variable (K) in
/-- What the callbacks ask the states about users, they are told. -/
structure Main.Answers (m : Main S) : Prop where
  /-- A signal asks for the first users of a list. -/
  listed : ∀ aggr, ∃ args, genUsersWithArgs (K.states m.globals.states)
    ((m.globals.listOf aggr).take 20) = .ok args
  /-- An idle tick asks for the users of a batch. -/
  queued : ∀ batch ∈ m.usersPending, ∃ args,
    genUsersWithArgs (K.states m.globals.states) batch = .ok args
  /-- The tasks that wait write their results back. -/
  signal : ∀ task, m.signalTask = some task → ((finishSignal K task).run m).1 = .ok ()
  idle : ∀ results, m.idleTask = some results →
    ((onGlobals (onStates K (States.writeHealthFactor results))).run m).1 = .ok ()
  /-- A user who came into range is inserted. -/
  inserted : ∀ u, m.globals.Knows K u → ((addUserToPreFiltered K u).run m.globals).1 = .ok ()

theorem Main.Known.answers {m : Main S} (h : m.Known K) : m.Answers K where
  listed aggr := genUsersWithArgs_ok ((h.listed aggr).sublist (List.take_sublist 20 _)).2
  queued batch hbatch := genUsersWithArgs_ok (h.queued batch hbatch).2
  signal task htask := by
    obtain ⟨g', hrun, -⟩ := run_finishSignal (K := K) (m := m) task fun res hres ↦
      (h.signal task htask).1.2 res.1 (List.mem_map_of_mem hres)
    rw [hrun]
  idle results hresults := by
    obtain ⟨g', hrun, -⟩ := run_writeHealthFactor (K := K) (g := m.globals) fun res hres ↦
      (h.idle results hresults).2 res.1 (List.mem_map_of_mem hres)
    rw [onGlobals, Proc.run_zoom, hrun]
  inserted u hu := addUserToPreFiltered_returns hu h.mapped h.listed

/-- The invariant holds at every point of every run. -/
theorem known_run (hK : K.Extends) {m : Main S} (hm : m.Known K) (events : List Event) :
    (runFrom (Main.step env K) m events).Known K :=
  runFrom_invariant (fun _ e hm ↦ hm.step hK e) hm events

/-- **No lookup fails.** After the start, whatever the order of the steps, everybody who is in a
list, in the queue or with a waiting task is known to the states, and the questions that the
callbacks ask about users are answered. -/
theorem answers_run (hK : K.Extends) {m : Main S} (hstart : m.AtStart env K)
    (events : List Event) :
    let m' := runFrom (Main.step env K) m events
    m'.Known K ∧ m'.Answers K := by
  intro m'
  have hknown : m'.Known K := known_run hK (hstart.known hK) events
  exact ⟨hknown, hknown.answers⟩

end Start

/-! ## A small program -/

/-- The surroundings of a program with two markets that share an aggregator. Where a transaction is
encoded, its input stands for it. -/
def smallEnv : MainEnv Unit where
  toLiqEnv := testLiqEnv
  lib := staticLibs []
  cls := .compVenues
  ninety := exactNinety
  reservesInit := ["0xA", "0xB"]
  configs _ := ⟨18, 0, 0⟩
  underlying _ := wbnb
  pools := ∅
  swapFunc _ _ _ := .error .valueError
  sendType := testSendType
  rawTransaction := inputOf
  address key := key
  bnb48Address := "0xFC030e374112103C889D0c9b6DBe2b9c6fC94614"
  connectionLost _ := false

/-- The users of the small program, all of them in range of liquidation. -/
def smallUsers : List String :=
  ["a", "b", "c", "d", "e", "f", "g", "h", "i", "j", "k", "l", "m", "n", "o", "p", "q", "r", "s",
    "t", "u"]

/-- 105 units of collateral for 100 units of debt. -/
def smallHealth : HealthFactor := ⟨toFloat (21 / 20), 100, 0⟩

/-- The program before its start. -/
def smallGlobals : Globals HighProfitSates where
  states := HighProfitSates.new (States.new (smallUsers.foldl (fun users usr ↦ users.set usr
    ⟨Dict.set ∅ "0xA" ⟨105, 1, 100, 10 ^ 18⟩, smallHealth, 0⟩) ∅)
    ((Dict.set ∅ "0xA" unitMarket).set "0xB" unitMarket) 100 "") 0
  comet := ⟨0, 0, (Dict.set ∅ "0xA" (10 ^ 18)).set "0xB" (10 ^ 18), 0⟩
  signals := twoTokens
  usersPreFiltered := ∅

/-- A node without logs at block 100. -/
def smallNode : EthNode := ⟨.ok 100, fun _ _ ↦ .ok [], fun _ _ ↦ .ok []⟩

/-- The program after its start. -/
def smallMain : Main HighProfitSates where
  globals := { smallGlobals with
    usersPreFiltered := Dict.set ∅ "0x137924d7c36816e0dcaf016eb617cc2c92c05782" smallUsers }
  blockInfos := ⟨⟨0, 5000000000⟩, 100, 300⟩
  trading := ⟨⟨∅, []⟩, []⟩
  sender := .init 0 (10 ^ 18) (5 * 10 ^ 9) (300 * 10 ^ 18)
  signalRecv := none
  usersPending := []
  prevBlock := 0
  signalTask := none
  idleTask := none
  failures _ := 0

theorem usersTrimming_small : usersTrimming toFloat
    (smallGlobals.states.toStates.usersFiltering ["0xA", "0xB"]) smallGlobals.states.toStates
    (0 + 1200) true = .ok smallUsers := by
  have hkept : smallHealth.Kept toFloat (0 + 1200) true := by
    decide +kernel
  have hfiltered : ∀ users ⊆ smallUsers, usersFiltered toFloat smallGlobals.states.toStates
      (0 + 1200) true users = .ok (users.map fun usr ↦ (smallHealth.norm toFloat, usr)) := by
    intro users
    induction users with
    | nil => exact fun _ ↦ rfl
    | cons usr users ih =>
      intro hsub
      have hitem : smallGlobals.states.usersStates.item usr
          = .ok ⟨Dict.set ∅ "0xA" ⟨105, 1, 100, 10 ^ 18⟩, smallHealth, 0⟩ := by
        have hall : ∀ usr ∈ smallUsers, smallGlobals.states.usersStates.item usr
            = .ok ⟨Dict.set ∅ "0xA" ⟨105, 1, 100, 10 ^ 18⟩, smallHealth, 0⟩ := by
          decide +kernel
        exact hall usr (hsub List.mem_cons_self)
      rw [usersFiltered, hitem, ok_bind, ih fun u hu ↦ hsub (List.mem_cons_of_mem usr hu), ok_bind,
        if_pos hkept]
      rfl
  have hsorted : (smallUsers.map fun usr ↦ (smallHealth.norm toFloat, usr)).Pairwise
      fun a b ↦ hfUserLe a b = true := by
    decide +kernel
  have husers : smallGlobals.states.toStates.usersFiltering ["0xA", "0xB"] = smallUsers := by
    decide +kernel
  rw [husers, usersTrimming_of_sorted (hfiltered _ (List.Subset.refl _)) hsorted, List.map_map]
  exact congrArg Except.ok (List.map_id smallUsers)

theorem smallMain_atStart : smallMain.AtStart smallEnv highProfitSates := by
  have haggrs : smallGlobals.signals.signalTokenMap.keys
      = ["0x137924d7c36816e0dcaf016eb617cc2c92c05782"] := by
    decide
  have htokens : smallGlobals.signals.getTokensFromAggr "0x137924d7c36816e0dcaf016eb617cc2c92c05782"
      = .ok (["0xA", "0xB"], "0x137924d7c36816e0dcaf016eb617cc2c92c05782") := by
    decide
  have hsync : (highProfitSates.syncStates smallEnv.lib smallNode 0).run smallGlobals.states
      = (.ok (), smallGlobals.states) := by
    decide +kernel
  have hlists : ∀ aggr ∈ smallGlobals.signals.signalTokenMap.keys, ∃ tokensAddr a,
      smallGlobals.signals.getTokensFromAggr aggr = .ok (tokensAddr, a) ∧
      usersTrimming toFloat (smallGlobals.states.toStates.usersFiltering tokensAddr)
        smallGlobals.states.toStates (0 + 1200) true = .ok smallUsers := by
    rw [haggrs]
    exact List.forall_mem_singleton.mpr ⟨_, _, htokens, usersTrimming_small⟩
  refine ⟨⟨_, smallGlobals, fun _ ↦ 0, smallNode, rfl, ?_⟩, rfl, rfl, rfl⟩
  rw [run_startUp (fun _ ↦ smallUsers) hlists hsync, haggrs]
  rfl

/-- A signal for both markets. -/
def smallSignal : Event := .signal ⟨fun _ ↦ 300, fun _ ↦ 300⟩ id smallMessage

theorem answers_run_small :
    let m' := runFrom (Main.step smallEnv highProfitSates) smallMain
      [smallSignal, .idle ⟨300, fun _ ↦ 300⟩ id, .signalDone]
    m'.Known highProfitSates ∧ m'.Answers highProfitSates :=
  answers_run HighProfitSates.extends_highProfitSates smallMain_atStart _

end CompoundLiquidation
