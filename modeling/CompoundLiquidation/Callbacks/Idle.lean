import CompoundLiquidation.Callbacks.Health
import Mathlib.Data.Finset.Card
import Mathlib.Data.Finset.Range
import Mathlib.Data.Int.GCD
import Mathlib.Data.Nat.ModEq

/-!
# The periodic tasks

When no users are waiting, `liquidation_idle_callback` does periodic work that depends on the block
number alone. With `num` blocks in a minute, the block with remainder one refreshes the health
factors of a slice of the users, and the block with remainder three replaces the list of one
aggregator. Slice and aggregator are both chosen by the raw block number, which advances by `num`
from one of these blocks to the next.

What task 3 is going to assign is an `IdleUpdate`; the callback then performs it. The comment of the
callback promises a round in ten blocks of the first kind for the users, and in as many blocks of
the second kind as there are aggregators for the lists.
-/

namespace CompoundLiquidation

open Python

/-- The objects of the main module that the callbacks share. -/
structure Globals (S : Type) where
  states : S
  comet : CometConfigs
  signals : Signals
  usersPreFiltered : Dict String (List String)

/-- What `time.time()` shows: when users are chosen, and at the calculation for each user. -/
structure Clock where
  now : ℤ
  atUser : String → ℤ

/-! ## The program -/

/-- `get_users_sampling`. The slice length is `math.ceil(l / intervals)`. -/
def States.getUsersSampling (sta : States) (index intervals : ℕ) : List String :=
  let array := sta.usersStates.keys
  let l := array.length
  let length := (l + intervals - 1) / intervals
  let left := length * index
  let left := if left > l then left % l else left
  let right := left + length
  let right := if right > l then l else right
  slice array left right

/-- `get_tokens_from_aggr`. -/
def Signals.getTokensFromAggr (sig : Signals) (signal : String) :
    Except Error (List String × String) := do
  let tokensInfos ← sig.signalTokenMap.item signal
  return (tokensInfos.map AggregatorInfos.token, signal)

/-- `get_tokens_from_aggr_index`. -/
def Signals.getTokensFromAggrIndex (sig : Signals) (index : ℕ) :
    Except Error (List String × String) := do
  let aggrLst := sig.signalTokenMap.keys
  if aggrLst.length = 0 then .error .zeroDivisionError
  else
    let aggr ← okOr aggrLst[index % aggrLst.length]? .indexError
    sig.getTokensFromAggr aggr

/-- What task 3 assigns. -/
inductive IdleUpdate where
  | nothing
  | healthFactors (results : List HfResult)
  | preFiltered (aggr : String) (users : List String)

/-- `60 // INTVL`. -/
def blocksPerMinute (net : Network) : ℕ := (60 / intvl net).toNat

section Callback

variable {S : Type} (K : StatesClass S) (net : Network)

/-- Task 3 of `liquidation_idle_callback` up to its assignments. -/
def idleUpdate (clock : Clock) (blockNum : ℕ) (g : Globals S) : Except Error IdleUpdate := do
  let sta := K.states g.states
  let num := blocksPerMinute net
  let switch := blockNum % num
  let index := blockNum
  if switch = 1 then
    let users := sta.getUsersSampling index 10
    let usersTrim ← usersTrimming toFloat users sta clock.now false
    let results ← healthFactors clock.atUser g.comet sta usersTrim
    return .healthFactors results
  else if switch = 3 then
    let (tokensAddr, aggr) ← g.signals.getTokensFromAggrIndex index
    let users := sta.usersFiltering tokensAddr
    let usersTrim ← usersTrimming toFloat users sta (clock.now + 1200) true
    return .preFiltered aggr usersTrim
  else return .nothing

/-- A method of the base class on the states of the main module. -/
def onStates {α : Type} (x : Proc States Error α) : Proc (Globals S) Error α :=
  Proc.zoom Globals.states (fun s g ↦ { g with states := s }) (K.onBase x)

/-- The assignments of task 3. -/
def performUpdate : IdleUpdate → Proc (Globals S) Error Unit
  | .nothing => pure ()
  | .healthFactors results => onStates K (States.writeHealthFactor results)
  | .preFiltered aggr users => Proc.modify fun g ↦
      { g with usersPreFiltered := g.usersPreFiltered.set aggr users }

/-- `liquidation_idle_callback` when no users are waiting. -/
def liquidationIdleCallback (clock : Clock) (blockNum prevBlock : ℕ) :
    Proc (Globals S) Error ℕ := do
  if blockNum ≤ prevBlock then return prevBlock
  let g ← Proc.read
  let update ← Proc.ofExcept (idleUpdate K net clock blockNum g)
  performUpdate K update
  return blockNum

end Callback

/-- At a block with remainder one the callback works on the users of the slice. -/
theorem idleUpdate_of_switch_one {S : Type} {K : StatesClass S} {net : Network} {clock : Clock}
    {blockNum : ℕ} {g : Globals S} (h : blockNum % blocksPerMinute net = 1)
    {update : IdleUpdate} (hupdate : idleUpdate K net clock blockNum g = .ok update) :
    ∃ users results, usersTrimming toFloat ((K.states g.states).getUsersSampling blockNum 10)
        (K.states g.states) clock.now false = .ok users ∧
      healthFactors clock.atUser g.comet (K.states g.states) users = .ok results ∧
      update = .healthFactors results := by
  rw [idleUpdate] at hupdate
  simp only [h, if_true] at hupdate
  rcases husers : usersTrimming toFloat ((K.states g.states).getUsersSampling blockNum 10)
      (K.states g.states) clock.now false with e | users
  · rw [husers] at hupdate
    cases hupdate
  rw [husers, ok_bind] at hupdate
  rcases hresults : healthFactors clock.atUser g.comet (K.states g.states) users with e | results
  · rw [hresults] at hupdate
    cases hupdate
  rw [hresults, ok_bind] at hupdate
  exact ⟨users, results, rfl, hresults, (Except.ok.inj hupdate).symm⟩

/-! ## Replacing the lists -/

section Rotation

variable {S : Type} {K : StatesClass S} {net : Network}

theorem Signals.getTokensFromAggrIndex_eq {sig : Signals} {index : ℕ} {aggr : String}
    (h : sig.signalTokenMap.keys[index % sig.signalTokenMap.keys.length]? = some aggr) :
    ∃ tokens, sig.getTokensFromAggrIndex index = .ok (tokens, aggr) := by
  have hne : ¬ sig.signalTokenMap.keys.length = 0 := by
    intro hlen
    rw [List.length_eq_zero_iff.mp hlen] at h
    cases h
  obtain ⟨infos, hinfos⟩ := Dict.mem_keys_iff.mp (List.mem_of_getElem? h)
  refine ⟨infos.map AggregatorInfos.token, ?_⟩
  rw [Signals.getTokensFromAggrIndex]
  simp only [if_neg hne]
  rw [h, okOr_some, ok_bind, Signals.getTokensFromAggr, Dict.item, hinfos]
  rfl

theorem mem_usersFiltering {sta : States} {tokensAddr : List String} {u : String}
    (h : u ∈ sta.usersFiltering tokensAddr) : u ∈ sta.usersStates.keys := by
  obtain ⟨states, hstates⟩ := Dict.mem_keys_iff.mp h
  rw [Dict.get?_filter, Option.filter_eq_some_iff] at hstates
  exact Dict.mem_keys_iff.mpr ⟨states, hstates.1⟩

/-- The block at which the callback replaces the list of an aggregator. -/
def Replaces (K : StatesClass S) (net : Network) (clock : Clock) (blockNum : ℕ) (g : Globals S)
    (aggr : String) : Prop :=
  ∃ users, idleUpdate K net clock blockNum g = .ok (.preFiltered aggr users)

theorem Replaces.run {clock : Clock} {blockNum prevBlock : ℕ} {g : Globals S} {aggr : String}
    (h : Replaces K net clock blockNum g aggr) (hprev : prevBlock < blockNum) :
    ∃ users, (liquidationIdleCallback K net clock blockNum prevBlock).run g
      = (.ok blockNum, { g with usersPreFiltered := g.usersPreFiltered.set aggr users }) := by
  obtain ⟨users, husers⟩ := h
  refine ⟨users, ?_⟩
  rw [liquidationIdleCallback, if_neg (Nat.not_le.mpr hprev), Proc.run_bind, Proc.run_read]
  simp only
  rw [Proc.run_bind, Proc.run_ofExcept, husers]
  rfl

/-- At a block with remainder three the callback replaces the list of the aggregator at the block
number modulo the number of aggregators, and no other one. -/
theorem replaces_iff {clock : Clock} {blockNum : ℕ} {g : Globals S}
    (h : blockNum % blocksPerMinute net = 3) {aggr' : String}
    (haggr' : g.signals.signalTokenMap.keys[blockNum % g.signals.signalTokenMap.keys.length]?
      = some aggr') (aggr : String) :
    Replaces K net clock blockNum g aggr ↔ aggr = aggr' := by
  obtain ⟨tokens, htokens⟩ := Signals.getTokensFromAggrIndex_eq haggr'
  have hknown : ∀ u ∈ (K.states g.states).usersFiltering tokens,
      u ∈ (K.states g.states).usersStates.keys := fun _ hu ↦ mem_usersFiltering hu
  obtain ⟨users, husers⟩ := usersTrimming_ok toFloat hknown (clock.now + 1200) true
  have hupdate : idleUpdate K net clock blockNum g = .ok (.preFiltered aggr' users) := by
    have hone : ¬ (3 : ℕ) = 1 := by decide
    rw [idleUpdate]
    simp only [h, if_neg hone, if_true, htokens, ok_bind, husers]
    rfl
  rw [Replaces, hupdate]
  constructor
  · rintro ⟨users', husers'⟩
    rw [Except.ok.injEq, IdleUpdate.preFiltered.injEq] at husers'
    exact husers'.1.symm
  · rintro rfl
    exact ⟨users, rfl⟩

/-- A walk around `k` places in steps of `num` comes to every place once in `k` steps iff `num` and
`k` have no common divisor. -/
theorem existsUnique_add_mul_mod_iff (b num : ℕ) {k : ℕ} (hk : 0 < k) :
    (∀ i < k, ∃! j, j < k ∧ (b + num * j) % k = i) ↔ num.Coprime k := by
  constructor
  · intro h
    -- with a common divisor the first place comes up again before the round is over
    by_contra hcop
    have hd : 1 < num.gcd k := by
      have hpos : 0 < num.gcd k := Nat.gcd_pos_of_pos_right num hk
      rw [Nat.coprime_iff_gcd_eq_one] at hcop
      omega
    obtain ⟨j, -, hj⟩ := h (b % k) (Nat.mod_lt _ hk)
    have hfirst : 0 = j := hj 0 ⟨hk, by rw [Nat.mul_zero, Nat.add_zero]⟩
    obtain ⟨n, hn⟩ := Nat.gcd_dvd_left num k
    obtain ⟨m, hm⟩ := Nat.gcd_dvd_right num k
    have hm_pos : 0 < m := by
      rcases Nat.eq_zero_or_pos m with rfl | hpos
      · omega
      · exact hpos
    have hm_lt : m < k := by
      calc m = 1 * m := (Nat.one_mul m).symm
        _ < num.gcd k * m := Nat.mul_lt_mul_of_pos_right hd hm_pos
        _ = k := hm.symm
    have hround : num * m = k * n := by
      calc num * m = num.gcd k * n * m := congrArg (· * m) hn
        _ = num.gcd k * m * n := Nat.mul_right_comm _ _ _
        _ = k * n := congrArg (· * n) hm.symm
    have hback : m = j := hj m ⟨hm_lt, by rw [hround, Nat.add_mul_mod_self_left]⟩
    omega
  · intro hcop i hi
    have hinj : Set.InjOn (fun j ↦ (b + num * j) % k) (Finset.range k) := by
      intro j hj j' hj' heq
      have hmod : num * j ≡ num * j' [MOD k] := Nat.ModEq.add_left_cancel' b heq
      have hmod' : j ≡ j' [MOD k] := hmod.cancel_left_of_coprime (Nat.coprime_comm.mp hcop)
      rwa [Nat.ModEq, Nat.mod_eq_of_lt (Finset.mem_range.mp hj),
        Nat.mod_eq_of_lt (Finset.mem_range.mp hj')] at hmod'
    have hmaps : Set.MapsTo (fun j ↦ (b + num * j) % k) (Finset.range k) (Finset.range k) :=
      fun j _ ↦ Finset.mem_coe.mpr (Finset.mem_range.mpr (Nat.mod_lt _ hk))
    have hsurj := Finset.surjOn_of_injOn_of_card_le _ hmaps hinj le_rfl
    obtain ⟨j, hj, hji⟩ := hsurj (Finset.mem_coe.mpr (Finset.mem_range.mpr hi))
    refine ⟨j, ⟨Finset.mem_range.mp hj, hji⟩, fun j' hj' ↦ ?_⟩
    exact hinj (Finset.mem_coe.mpr (Finset.mem_range.mpr hj'.1)) hj (hj'.2.trans hji.symm)

/-- **The rounds of the lists.** Over `k` successive blocks of the second kind, for `k` aggregators,
the callback replaces every list exactly once iff the blocks per minute and `k` have no common
divisor. -/
theorem replaces_once_iff {sourceTokenMap : Dict String (List AggregatorInfos)}
    (hk : 0 < sourceTokenMap.keys.length) {b : ℕ} (hb : b % blocksPerMinute net = 3)
    (clock : ℕ → Clock) (g : ℕ → Globals S)
    (hg : ∀ j, (g j).signals.signalTokenMap = sourceTokenMap) :
    (∀ aggr ∈ sourceTokenMap.keys, ∃! j, j < sourceTokenMap.keys.length ∧
        Replaces K net (clock j) (b + blocksPerMinute net * j) (g j) aggr)
      ↔ (blocksPerMinute net).Coprime sourceTokenMap.keys.length := by
  have htick : ∀ i, (hi : i < sourceTokenMap.keys.length) → ∀ j,
      Replaces K net (clock j) (b + blocksPerMinute net * j) (g j) sourceTokenMap.keys[i]
        ↔ (b + blocksPerMinute net * j) % sourceTokenMap.keys.length = i := by
    intro i hi j
    have hlt : (b + blocksPerMinute net * j) % sourceTokenMap.keys.length
        < sourceTokenMap.keys.length := Nat.mod_lt _ hk
    have hswitch : (b + blocksPerMinute net * j) % blocksPerMinute net = 3 := by
      rw [Nat.add_mul_mod_self_left, hb]
    rw [replaces_iff hswitch (by rw [hg, List.getElem?_eq_getElem hlt]),
      sourceTokenMap.nodup_keys'.getElem_inj_iff, eq_comm]
  rw [← existsUnique_add_mul_mod_iff b (blocksPerMinute net) hk]
  constructor
  · intro h i hi
    obtain ⟨j, ⟨hj, hrep⟩, huniq⟩ := h _ (List.getElem_mem hi)
    exact ⟨j, ⟨hj, (htick i hi j).mp hrep⟩, fun j' hj' ↦
      huniq j' ⟨hj'.1, (htick i hi j').mpr hj'.2⟩⟩
  · intro h aggr haggr
    obtain ⟨i, hi, rfl⟩ := List.getElem_of_mem haggr
    obtain ⟨j, ⟨hj, hrep⟩, huniq⟩ := h i hi
    exact ⟨j, ⟨hj, (htick i hi j).mpr hrep⟩, fun j' hj' ↦
      huniq j' ⟨hj'.1, (htick i hi j').mp hj'.2⟩⟩

end Rotation

/-- A source map of aggregators without tokens. -/
def aggregators (aggrs : List String) : Dict String (List AggregatorInfos) :=
  aggrs.foldl (fun acc aggr ↦ acc.set aggr []) ∅

/-- A program without users. -/
def idleGlobals (aggrs : List String) : Globals States where
  states := States.new ∅ ∅ 0 ""
  comet := ⟨0, 0, ∅, 0⟩
  signals := .init (aggregators aggrs)
  usersPreFiltered := ∅

theorem replaces_once_three :
    (aggregators ["0xa", "0xb", "0xc"]).keys = ["0xa", "0xb", "0xc"] ∧
    ∀ aggr ∈ (aggregators ["0xa", "0xb", "0xc"]).keys,
      ∃! j, j < (aggregators ["0xa", "0xb", "0xc"]).keys.length ∧
        Replaces plainStates .bsc ⟨0, fun _ ↦ 0⟩ (3 + blocksPerMinute .bsc * j)
          (idleGlobals ["0xa", "0xb", "0xc"]) aggr :=
  ⟨by decide, (replaces_once_iff (by decide) (by decide) (fun _ ↦ ⟨0, fun _ ↦ 0⟩)
    (fun _ ↦ idleGlobals ["0xa", "0xb", "0xc"]) fun _ ↦ rfl).mpr (by decide)⟩

/-- With two aggregators and twenty blocks a minute the list of the first one is never replaced. -/
theorem not_replaces_once_two :
    ¬ ∀ aggr ∈ (aggregators ["0xa", "0xb"]).keys, ∃! j, j < 2 ∧
      Replaces plainStates .bsc ⟨0, fun _ ↦ 0⟩ (3 + 20 * j) (idleGlobals ["0xa", "0xb"]) aggr := by
  intro h
  obtain ⟨j, ⟨hj, hrep⟩, -⟩ := h "0xa" (by decide)
  have hodd : (3 + 20 * j) % 2 = 1 := by omega
  have hkey : (idleGlobals ["0xa", "0xb"]).signals.signalTokenMap.keys[(3 + 20 * j) %
      (idleGlobals ["0xa", "0xb"]).signals.signalTokenMap.keys.length]? = some "0xb" := by
    have hlen : (idleGlobals ["0xa", "0xb"]).signals.signalTokenMap.keys.length = 2 := by decide
    rw [hlen, hodd]
    decide
  have hswitch : (3 + 20 * j) % blocksPerMinute .bsc = 3 := by
    have hnum : blocksPerMinute .bsc = 20 := by decide
    rw [hnum]
    omega
  rw [replaces_iff hswitch hkey] at hrep
  exact absurd hrep (by decide)

end CompoundLiquidation
