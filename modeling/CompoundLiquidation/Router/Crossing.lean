import CompoundLiquidation.Router.Search

/-!
# Pools that a route crosses

A pair of the second version is locked while it calls back, and the quotes of a route all assume the
reserves of the start. So a route must not use a pool twice. With different ends all tokens of a
route are different, and so are its pools. With equal ends the route goes out and comes back, which
uses the same pool twice as soon as there is just one token in between. `RoutsCompV2` refuses equal
ends for a list of tokens; nothing else does.
-/

namespace CompoundLiquidation

open Python

/-! ## Hops of a route -/

/-- The hops of a route from `tokenOut` along the tokens: what goes in with what comes out. -/
def hops (tokenOut : Token) : List Token → List (Token × Token)
  | [] => []
  | tokenIn :: path => (tokenIn, tokenOut) :: hops tokenIn path

/-- Two hops between the same tokens. -/
def SamePair (h h' : Token × Token) : Prop := (h.1 = h'.1 ∧ h.2 = h'.2) ∨ (h.1 = h'.2 ∧ h.2 = h'.1)

theorem mem_of_mem_hops {path : List Token} : ∀ {t : Token} {h : Token × Token}, h ∈ hops t path →
    h.1 ∈ t :: path ∧ h.2 ∈ t :: path := by
  induction path with
  | nil => exact fun h ↦ absurd h List.not_mem_nil
  | cons tokenIn path ih =>
    intro t h hmem
    rcases List.mem_cons.mp hmem with rfl | hmem
    · exact ⟨List.mem_cons_of_mem t List.mem_cons_self, List.mem_cons_self⟩
    · exact ⟨List.mem_cons_of_mem t (ih hmem).1, List.mem_cons_of_mem t (ih hmem).2⟩

/-- A route of different tokens does not come back to a pair. -/
theorem hops_pairwise {path : List Token} : ∀ {t : Token}, (t :: path).Nodup →
    (hops t path).Pairwise fun h h' ↦ ¬ SamePair h h' := by
  induction path with
  | nil => exact fun _ ↦ List.Pairwise.nil
  | cons tokenIn path ih =>
    intro t hnodup
    obtain ⟨hnotin, hrest⟩ := List.nodup_cons.mp hnodup
    refine List.pairwise_cons.mpr ⟨fun h hmem hsame ↦ ?_, ih hrest⟩
    obtain ⟨hfst, hsnd⟩ := mem_of_mem_hops hmem
    rcases hsame with ⟨-, rfl⟩ | ⟨-, rfl⟩
    · exact hnotin hsnd
    · exact hnotin hfst

/-- Nor does one that ends where it started, with two tokens or more in between. -/
theorem hops_pairwise_loop {t t₁ t₂ : Token} {res : List Token} (hnodup : (t₁ :: t₂ :: res).Nodup)
    (hnotin : t ∉ t₁ :: t₂ :: res) :
    (hops t (t₁ :: t₂ :: res ++ [t])).Pairwise fun h h' ↦ ¬ SamePair h h' := by
  have hne₁ : t ≠ t₁ := List.ne_of_not_mem_cons hnotin
  have hne₂ : t ≠ t₂ := List.ne_of_not_mem_cons (List.not_mem_of_not_mem_cons hnotin)
  have hback : (t₁ :: (t₂ :: res ++ [t])).Nodup := by
    rw [← List.cons_append, ← List.concat_eq_append, List.nodup_concat]
    exact ⟨hnotin, hnodup⟩
  refine List.pairwise_cons.mpr ⟨fun h hmem hsame ↦ ?_, hops_pairwise hback⟩
  obtain ⟨hfirst, -⟩ := List.nodup_cons.mp hback
  rcases List.mem_cons.mp hmem with rfl | hmem
  · -- the second hop does not touch the start
    rcases hsame with ⟨-, heq⟩ | ⟨-, heq⟩
    · exact hne₁ heq
    · exact hne₂ heq
  · -- the later ones do not touch the first token
    obtain ⟨hfst, hsnd⟩ := mem_of_mem_hops hmem
    rcases hsame with ⟨rfl, -⟩ | ⟨rfl, -⟩
    · exact hfirst hfst
    · exact hfirst hsnd

/-! ## Addresses -/

section Addresses

variable {L : Type}

/-- The factory gives distinct pairs distinct addresses. -/
def DistinctAddresses (calls : List (AddLiqPoolCall L)) : Prop :=
  ∀ call ∈ calls, ∀ call' ∈ calls, ∀ pool pool',
    call.queryMaxLiqPool (sortedPair call.pair.1 call.pair.2) = .ok (some pool) →
    call'.queryMaxLiqPool (sortedPair call'.pair.1 call'.pair.2) = .ok (some pool') →
    pool.poolAddr = pool'.poolAddr →
    sortedPair call.pair.1 call.pair.2 = sortedPair call'.pair.1 call'.pair.2

theorem samePair_of_sortedPair_eq {h h' : Token × Token}
    (heq : sortedPair h.1 h.2 = sortedPair h'.1 h'.2) : SamePair h h' := by
  have hkey : (genPoolKey h.1 h.2).1 = (genPoolKey h'.1 h'.2).1 := by
    rw [genPoolKey_fst, genPoolKey_fst, heq]
  exact genPoolKey_inj hkey

variable {calls : List (AddLiqPoolCall L)}

/-- Pools with one address are for the same tokens. -/
theorem samePair_of_poolAddr (haddr : DistinctAddresses calls) {h h' : Token × Token}
    {pool pool' : Pool L} (hpool : poolOf (poolsBuilt calls) h.1 h.2 = some pool)
    (hpool' : poolOf (poolsBuilt calls) h'.1 h'.2 = some pool')
    (heq : pool.poolAddr = pool'.poolAddr) : SamePair h h' := by
  rw [poolOf] at hpool hpool'
  obtain ⟨call, hmem, hkey, hquery⟩ := exists_call_of_mem (Option.join_eq_some_iff.mp hpool)
  obtain ⟨call', hmem', hkey', hquery'⟩ := exists_call_of_mem (Option.join_eq_some_iff.mp hpool')
  have hsorted := haddr call hmem call' hmem' pool pool' hquery hquery' heq
  rw [← sortedPair_eq_of_key hkey, ← sortedPair_eq_of_key hkey'] at hsorted
  exact samePair_of_sortedPair_eq hsorted

variable {swapSimulation : Pool L → ℤ → ℕ → Except Error ℤ}

/-- The paths of a route are in the pools of its hops. -/
theorem Follows.forall₂ {pools : Dict String (Option (Pool L))} {path : List Token} :
    ∀ {amountOut : ℤ} {tokenOut : Token} {paths : List Path} {cost : ℤ},
    Follows pools swapSimulation amountOut tokenOut path paths cost →
    List.Forall₂ (fun h p ↦ ∃ pool, poolOf pools h.1 h.2 = some pool ∧
      p.poolAddr = pool.poolAddr) (hops tokenOut path) paths := by
  induction path with
  | nil =>
    rintro amountOut tokenOut paths cost ⟨rfl, -⟩
    exact List.Forall₂.nil
  | cons tokenIn path ih =>
    rintro amountOut tokenOut paths cost ⟨first, rest, amountIn, rfl, hhop, hrest⟩
    obtain ⟨pool, hpool, haddr, -⟩ := hhop.quote
    exact List.Forall₂.cons ⟨pool, hpool, haddr⟩ (ih hrest)

private theorem exists_of_forall₂ {α β : Type} {R : α → β → Prop} {l : List α} {l' : List β}
    (h : List.Forall₂ R l l') {b : β} (hb : b ∈ l') : ∃ a ∈ l, R a b := by
  induction h with
  | nil => exact absurd hb List.not_mem_nil
  | @cons a b' l l' hhead htail ih =>
    rcases List.mem_cons.mp hb with rfl | hb
    · exact ⟨a, List.mem_cons_self, hhead⟩
    · obtain ⟨a', ha', hR⟩ := ih hb
      exact ⟨a', List.mem_cons_of_mem a ha', hR⟩

/-- Hops between different pairs use different pools. -/
theorem nodup_poolAddr (haddr : DistinctAddresses calls) {hs : List (Token × Token)}
    {paths : List Path} (hin : List.Forall₂ (fun h p ↦ ∃ pool,
      poolOf (poolsBuilt calls) h.1 h.2 = some pool ∧ p.poolAddr = pool.poolAddr) hs paths)
    (hpairs : hs.Pairwise fun h h' ↦ ¬ SamePair h h') : (paths.map Path.poolAddr).Nodup := by
  induction hin with
  | nil => exact List.nodup_nil
  | @cons h p hs paths hhead htail ih =>
    obtain ⟨hfirst, hrest⟩ := List.pairwise_cons.mp hpairs
    refine List.nodup_cons.mpr ⟨fun hmem ↦ ?_, ih hrest⟩
    obtain ⟨p', hp', heq⟩ := List.mem_map.mp hmem
    obtain ⟨pool, hpool, hp⟩ := hhead
    obtain ⟨h', hh', pool', hpool', hpaddr'⟩ := exists_of_forall₂ htail hp'
    exact hfirst h' hh' (samePair_of_poolAddr haddr hpool hpool' (by rw [← hp, ← heq, hpaddr']))

end Addresses

/-! ## The winner of a search -/

/-- Shorter arrangements are tried first. -/
theorem pairwise_arrangements {routTokens : List Token} (hnodup : routTokens.Nodup) :
    (arrangements routTokens).Pairwise fun res res' ↦ res.length ≤ res'.length := by
  have hlength {k : ℕ} {res : List Token} (h : res ∈ permutations k routTokens) : res.length = k :=
    ((mem_permutations_iff hnodup).mp h).2.2
  refine List.pairwise_flatMap.mpr ⟨fun k _ ↦ ?_, ?_⟩
  · refine List.pairwise_of_forall_mem_list fun res hres res' hres' ↦ ?_
    rw [hlength hres, hlength hres']
  · refine List.pairwise_lt_range.imp fun hlt res hres res' hres' ↦ ?_
    rw [hlength hres, hlength hres']
    exact hlt.le

section Winner

variable {L : Type} (pools : Dict String (Option (Pool L)))
  (swapSimulation : Pool L → ℤ → ℕ → Except Error ℤ) (r : Routs) (finalOut : ℤ)
  (routTokens : List Token)

/-- Through a single token is cheaper than directly, and as cheap as any selection. -/
def SingleWins : Prop :=
  ∃ t ∈ routTokens, ∃ cost, selectionCost pools swapSimulation r finalOut [t] = some cost ∧
    (∀ cost', selectionCost pools swapSimulation r finalOut [] = some cost' → cost < cost') ∧
    ∀ res, IsSelection routTokens res → ∀ cost',
      selectionCost pools swapSimulation r finalOut res = some cost' → cost ≤ cost'

variable {pools swapSimulation r finalOut routTokens}

/-- The first of the cheapest arrangements has one token exactly if a single token wins. -/
theorem length_eq_one_iff_singleWins (hnodup : routTokens.Nodup) {front back : List (List Token)}
    {res : List Token} {cost : ℤ} (hsplit : arrangements routTokens = front ++ res :: back)
    (hfirst : FirstCheapest (selectionCost pools swapSimulation r finalOut) front res back cost) :
    res.length = 1 ↔ SingleWins pools swapSimulation r finalOut routTokens := by
  have hle {res' : List Token} (hres' : IsSelection routTokens res') {cost' : ℤ}
      (hcost' : selectionCost pools swapSimulation r finalOut res' = some cost') : cost ≤ cost' :=
    hfirst.le (hsplit ▸ (mem_arrangements_iff hnodup).mpr hres') hcost'
  -- a shorter one stands in front
  have hfront {res' : List Token} (hres' : IsSelection routTokens res')
      (hlt : res'.length < res.length) : res' ∈ front := by
    have hmem : res' ∈ front ++ res :: back := hsplit ▸ (mem_arrangements_iff hnodup).mpr hres'
    have hsorted := pairwise_arrangements hnodup
    rw [hsplit] at hsorted
    rcases List.mem_append.mp hmem with hmem | hmem
    · exact hmem
    rcases List.mem_cons.mp hmem with rfl | hmem
    · exact absurd hlt (lt_irrefl _)
    · have hback := (List.pairwise_cons.mp (List.pairwise_append.mp hsorted).2.1).1 res' hmem
      exact absurd hlt (not_lt.mpr hback)
  have hempty : IsSelection routTokens [] := ⟨List.nodup_nil, fun _ h ↦ absurd h List.not_mem_nil⟩
  constructor
  · intro hone
    obtain ⟨t, rfl⟩ := List.length_eq_one_iff.mp hone
    have hres : IsSelection routTokens [t] := by
      rw [← mem_arrangements_iff hnodup, hsplit]
      exact List.mem_append_right front List.mem_cons_self
    refine ⟨t, hres.2 t (List.mem_singleton_self t), cost, hfirst.cost_eq, fun cost' hcost' ↦ ?_,
      fun res' hres' cost' hcost' ↦ hle hres' hcost'⟩
    exact hfirst.lt_of_front [] (hfront hempty Nat.zero_lt_one) cost' hcost'
  · rintro ⟨t, ht, single, hsingle, hdirect, hall⟩
    have ht' : IsSelection routTokens [t] :=
      ⟨List.nodup_singleton t, fun _ h ↦ List.mem_singleton.mp h ▸ ht⟩
    have hres : IsSelection routTokens res := by
      rw [← mem_arrangements_iff hnodup, hsplit]
      exact List.mem_append_right front List.mem_cons_self
    have hcost : single ≤ cost := hall res hres cost hfirst.cost_eq
    -- a longer one would come behind the single token, and would have to be cheaper
    rcases Nat.lt_trichotomy res.length 1 with hlt | hone | hgt
    · rw [Nat.lt_one_iff, List.length_eq_zero_iff] at hlt
      subst hlt
      exact absurd (hdirect cost hfirst.cost_eq) (not_lt.mpr (hle ht' hsingle))
    · exact hone
    · exact absurd (hfirst.lt_of_front [t] (hfront ht' hgt) single hsingle) (not_lt.mpr hcost)

end Winner

/-! ## The pools of the result -/

section Result

variable {L : Type} {calls : List (AddLiqPoolCall L)}
  {swapSimulation : Pool L → ℤ → ℕ → Except Error ℤ}

/-- Out and back through one token crosses its pool twice. -/
theorem not_nodup_of_round_trip {amountOut cost : ℤ} {t token : Token} {paths : List Path}
    (hfollows : Follows (poolsBuilt calls) swapSimulation amountOut token [t, token] paths cost) :
    ¬ (paths.map Path.poolAddr).Nodup := by
  obtain ⟨first, paths', amountIn, rfl, hfirst, hrest⟩ := hfollows
  obtain ⟨second, rest, cost', rfl, hsecond, rfl, -⟩ := hrest
  obtain ⟨pool, hpool, haddr, -⟩ := hfirst.quote
  obtain ⟨pool', hpool', haddr', -⟩ := hsecond.quote
  rw [poolOf, genPoolKey_fst_comm, ← poolOf, hpool', Option.some_inj] at hpool
  intro hnodup
  refine (List.nodup_cons.mp hnodup).1 (List.mem_singleton.mpr ?_)
  rw [haddr, haddr', hpool]

/-- The pools along a selection, when it is not such a round trip. -/
theorem nodup_of_selection (haddr : DistinctAddresses calls) {amountOut cost : ℤ}
    {tokenIn tokenOut : Token} {routTokens res : List Token} (hin : tokenIn ∉ routTokens)
    (hout : tokenOut ∉ routTokens) (hres : IsSelection routTokens res) {paths : List Path}
    (hfollows : Follows (poolsBuilt calls) swapSimulation amountOut tokenOut (res ++ [tokenIn])
      paths cost)
    (hne : ¬ (tokenIn = tokenOut ∧ res.length = 1)) : (paths.map Path.poolAddr).Nodup := by
  obtain ⟨hnodup, hsub⟩ := hres
  refine nodup_poolAddr haddr hfollows.forall₂ ?_
  rcases eq_or_ne tokenIn tokenOut with rfl | hends
  -- back at the start: one hop, two hops through the same pool, or more
  · rcases res with _ | ⟨t₁, _ | ⟨t₂, res⟩⟩
    · exact List.pairwise_singleton _ _
    · exact absurd ⟨rfl, rfl⟩ hne
    · exact hops_pairwise_loop hnodup fun h ↦ hin (hsub _ h)
  · refine hops_pairwise (List.nodup_cons.mpr ⟨fun h ↦ ?_, ?_⟩)
    · rcases List.mem_append.mp h with h | h
      · exact hout (hsub _ h)
      · exact hends (List.mem_singleton.mp h).symm
    · rw [← List.concat_eq_append, List.nodup_concat]
      exact ⟨fun h ↦ hin (hsub _ h), hnodup⟩

/-- **When a route crosses no pool twice.** It crosses one twice exactly if both ends are the same
token, the search does not refuse that token, and the cheapest way is out and back through one other
token. -/
theorem nodup_findRouts_iff {net : Network} {sel : Selector}
    (hcalls : ∀ call ∈ calls, call.KeepsPair) (haddr : DistinctAddresses calls)
    (swapSimulation : Pool L → ℤ → ℕ → Except Error ℤ) {tokens : List Token}
    (hnodup : tokens.Nodup) (tokenIn tokenOut : Token) (finalOut : ℤ) :
    ((findRouts (poolsBuilt calls) swapSimulation net
          (genNewRouts net sel tokenIn tokenOut tokens).2
          (genNewRouts net sel tokenIn tokenOut tokens).1 finalOut).2.map Path.poolAddr).Nodup ↔
      ¬ (tokenIn = tokenOut ∧
        sameCompToken net (genNewRouts net sel tokenIn tokenOut tokens).1 = false ∧
        SingleWins (poolsBuilt calls) swapSimulation
          (genNewRouts net sel tokenIn tokenOut tokens).1 finalOut
          (genNewRouts net sel tokenIn tokenOut tokens).2) := by
  rw [findRouts]
  rcases hsame : sameCompToken net (genNewRouts net sel tokenIn tokenOut tokens).1 with _ | _
  swap
  -- a route that is refused has no paths
  · rw [if_pos rfl]
    exact iff_of_true List.nodup_nil fun h ↦ by cases h.2.1
  rw [if_neg Bool.false_ne_true]
  have hrest : (genNewRouts net sel tokenIn tokenOut tokens).2
      = tokens.filter fun t ↦ t ≠ tokenIn ∧ t ≠ tokenOut :=
    removeEnds_eq_filter hnodup tokenIn tokenOut
  have hrest_nodup : (genNewRouts net sel tokenIn tokenOut tokens).2.Nodup :=
    hrest ▸ hnodup.filter _
  have hin : tokenIn ∉ (genNewRouts net sel tokenIn tokenOut tokens).2 := by
    rw [hrest, List.mem_filter, decide_eq_true_eq]
    exact fun h ↦ h.2.1 rfl
  have hout : tokenOut ∉ (genNewRouts net sel tokenIn tokenOut tokens).2 := by
    rw [hrest, List.mem_filter, decide_eq_true_eq]
    exact fun h ↦ h.2.2 rfl
  rcases findRoutsBase_spec (poolsKeyed_poolsBuilt hcalls) _ with
    ⟨hnone, hall⟩ | ⟨front, res, back, cost, paths, hsplit, hfirst, -, hresult, hfollows⟩
  -- no selection can be made, not even a single token
  · rw [hnone]
    refine iff_of_true List.nodup_nil ?_
    rintro ⟨-, -, t, ht, single, hsingle, -⟩
    have ht' := (mem_arrangements_iff hrest_nodup).mpr
      ⟨List.nodup_singleton t, fun _ h ↦ List.mem_singleton.mp h ▸ ht⟩
    exact absurd ((hall _ ht').symm.trans hsingle) (Option.some_ne_none _).symm
  · have hres : IsSelection (genNewRouts net sel tokenIn tokenOut tokens).2 res := by
      rw [← mem_arrangements_iff hrest_nodup, hsplit]
      exact List.mem_append_right front List.mem_cons_self
    rw [hresult, ← length_eq_one_iff_singleWins hrest_nodup hsplit hfirst]
    constructor
    · rintro hpools ⟨rfl, -, hone⟩
      obtain ⟨t, rfl⟩ := List.length_eq_one_iff.mp hone
      exact not_nodup_of_round_trip hfollows hpools
    · exact fun hne ↦ nodup_of_selection haddr hin hout hres hfollows fun h ↦ hne ⟨h.1, rfl, h.2⟩

end Result

/-! ### LINK for LINK -/

theorem distinctAddresses_wbnbCalls : DistinctAddresses wbnbCalls := by
  have hlink : SwapV2.queryMaxLiqPool wbnbChain 25 (sortedPair wbnb link)
      = .ok (some ⟨(link.text, wbnb.text), "0x824eb9faDFb377394430d2744fa7C42916DE3eCe",
        ⟨100000, 4000000⟩, 25⟩) := by decide +kernel
  have hbusd : SwapV2.queryMaxLiqPool wbnbChain 25 (sortedPair busd wbnb)
      = .ok (some ⟨(wbnb.text, busd.text), "0x58F876857a02D6762E0101bb5C46A8c1ED44Dc16",
        ⟨100000, 30000000⟩, 25⟩) := by decide +kernel
  intro call hcall call' hcall' pool pool' hpool hpool' heq
  rw [wbnbCalls, List.mem_cons, List.mem_singleton] at hcall hcall'
  rcases hcall with rfl | rfl <;> rcases hcall' with rfl | rfl
  · rfl
  · have h := Option.some_inj.mp (Except.ok.inj (hlink.symm.trans hpool))
    have h' := Option.some_inj.mp (Except.ok.inj (hbusd.symm.trans hpool'))
    rw [← h, ← h'] at heq
    exact absurd heq (by decide +kernel)
  · have h := Option.some_inj.mp (Except.ok.inj (hbusd.symm.trans hpool))
    have h' := Option.some_inj.mp (Except.ok.inj (hlink.symm.trans hpool'))
    rw [← h, ← h'] at heq
    exact absurd heq (by decide +kernel)
  · rfl

/-- Different ends. -/
theorem nodup_findRouts_iff_busd :
    ((findRouts (poolsBuilt wbnbCalls) SwapV2.swapSimulation .bsc
      (genNewRouts .bsc .venus busd link [wbnb, busd, usdt]).2
      (genNewRouts .bsc .venus busd link [wbnb, busd, usdt]).1 1000).2.map Path.poolAddr).Nodup :=
  (nodup_findRouts_iff keepsPair_wbnbCalls distinctAddresses_wbnbCalls SwapV2.swapSimulation
    (by decide +kernel) busd link 1000).mpr fun h ↦ absurd h.1 (by decide +kernel)

/-- The factory gives the two pairs different addresses, and the route still crosses the pool of
LINK and WBNB twice. -/
theorem not_nodup_findRouts_link : DistinctAddresses wbnbCalls ∧
    ¬ ((findRouts (poolsBuilt wbnbCalls) SwapV2.swapSimulation .bsc
      (genNewRouts .bsc .venus link link [wbnb, busd, usdt]).2
      (genNewRouts .bsc .venus link link [wbnb, busd, usdt]).1 1000).2.map Path.poolAddr).Nodup :=
  ⟨distinctAddresses_wbnbCalls, by decide +kernel⟩

end CompoundLiquidation
