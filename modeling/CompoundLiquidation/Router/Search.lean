import CompoundLiquidation.Python.Cheapest
import CompoundLiquidation.Python.Run
import CompoundLiquidation.Router.History
import CompoundLiquidation.Router.Swap

/-!
# What a route search finds

`find_routs` tries every arrangement of the intermediate tokens, lets each hop ask for the amount
that the next one has to deliver, and keeps the cheapest arrangement. The amount `-1` means that
there is none. As a route with the amount `-1` is passed over, the number never gets into a
comparison of costs, and the search is a loop that keeps the cheapest element, with its paths.

Costs are composed here hop by hop from the end the tokens come out of, without the paths; the paths
of a route are a list that follows its tokens.
-/

namespace CompoundLiquidation

open Python

section Routes

variable {L : Type} (pools : Dict String (Option (Pool L)))
  (swapSimulation : Pool L → ℤ → ℕ → Except Error ℤ)

/-! ## Costs -/

/-- The pool of two tokens. -/
def poolOf (tokenIn tokenOut : Token) : Option (Pool L) :=
  (pools.get? (genPoolKey tokenIn tokenOut).1).join

/-- The index of the token that comes out. -/
def tokenOutIndex (tokenIn tokenOut : Token) : ℕ := 1 - (genPoolKey tokenIn tokenOut).2

/-- What has to be paid of one token for an amount of the other. -/
def hopCost (tokenIn tokenOut : Token) (amountOut : ℤ) : Option ℤ :=
  match poolOf pools tokenIn tokenOut with
  | none => none
  | some pool =>
    match swapSimulation pool amountOut (tokenOutIndex tokenIn tokenOut) with
    | .error _ => none
    | .ok amountIn => if amountIn = -1 then none else some amountIn

/-- The cost of a route from `tokenOut` along the tokens, hop by hop. -/
def composedCost (amountOut : ℤ) (tokenOut : Token) : List Token → Option ℤ
  | [] => some amountOut
  | tokenIn :: path => (hopCost pools swapSimulation tokenIn tokenOut amountOut).bind
      fun amountIn ↦ composedCost amountIn tokenIn path

/-- The cost of a selection of intermediate tokens. -/
def selectionCost (r : Routs) (finalOut : ℤ) (res : List Token) : Option ℤ :=
  composedCost pools swapSimulation finalOut r.tokenOut (res ++ [r.tokenIn])

/-- An ordered selection without repetition. -/
def IsSelection (routTokens res : List Token) : Prop := res.Nodup ∧ ∀ t ∈ res, t ∈ routTokens

/-! ## Paths -/

/-- The path is that of a hop between the tokens, in the pool of the two, and the pool quotes
`amountIn` for the amount that the path has to deliver. -/
structure IsHop (tokenIn tokenOut : Token) (amountOut : ℤ) (path : Path) (amountIn : ℤ) : Prop where
  amountOut_eq : path.amountOut = amountOut
  tokens : (path.isZeroForOne = 0 ∧ path.token0 = tokenOut.text ∧ path.token1 = tokenIn.text) ∨
    (path.isZeroForOne = 1 ∧ path.token0 = tokenIn.text ∧ path.token1 = tokenOut.text)
  quote : ∃ pool, poolOf pools tokenIn tokenOut = some pool ∧ path.poolAddr = pool.poolAddr ∧
    path.fee = pool.fee ∧ swapSimulation pool amountOut path.isZeroForOne = .ok amountIn

/-- The paths lead from `tokenOut` along the tokens: each one delivers what the one before it has to
be paid, and the last one is paid the cost. -/
def Follows (amountOut : ℤ) (tokenOut : Token) : List Token → List Path → ℤ → Prop
  | [], paths, cost => paths = [] ∧ cost = amountOut
  | tokenIn :: rest, paths, cost => ∃ path paths' amountIn, paths = path :: paths' ∧
      IsHop pools swapSimulation tokenIn tokenOut amountOut path amountIn ∧
      Follows amountIn tokenIn rest paths' cost

/-- The pair of each pool holds the two tokens of its key, in the order of the key. -/
def PoolsKeyed : Prop :=
  ∀ a b : Token, ∀ pool, poolOf pools a b = some pool → pool.pair = sortedPair a b

end Routes

/-! ## Maps that `add_liq_pool` builds -/

section Built

variable {L : Type}

/-- A call of `add_liq_pool`, with what the node answers then. -/
structure AddLiqPoolCall (L : Type) where
  queryMaxLiqPool : String × String → Except Error (Option (Pool L))
  pair : Token × Token

/-- The map after calls from the empty one; a call that raises changes nothing. -/
def poolsBuilt (calls : List (AddLiqPoolCall L)) : Dict String (Option (Pool L)) :=
  runFrom (fun pools call ↦ ((addLiqPool call.queryMaxLiqPool call.pair).run pools).2) ∅ calls

/-- A pool is created with the pair it was asked for. -/
def AddLiqPoolCall.KeepsPair (call : AddLiqPoolCall L) : Prop :=
  ∀ pair pool, call.queryMaxLiqPool pair = .ok (some pool) → pool.pair = pair

theorem SwapV2.keepsPair (chain : V2Chain) (fee : ℤ) (pair : Token × Token) :
    AddLiqPoolCall.KeepsPair ⟨queryMaxLiqPool chain fee, pair⟩ := by
  intro p pool h
  obtain ⟨-, -, -, hpair⟩ := queryMaxLiqPool_eq_some h
  exact hpair

/-- A stored pool comes from a call. -/
theorem exists_call_of_mem {calls : List (AddLiqPoolCall L)} {key : String} {pool : Pool L}
    (h : (poolsBuilt calls).get? key = some (some pool)) :
    ∃ call ∈ calls, key = (genPoolKey call.pair.1 call.pair.2).1 ∧
      call.queryMaxLiqPool (sortedPair call.pair.1 call.pair.2) = .ok (some pool) := by
  -- the last call decides, unless it raises or is about another key
  induction calls using List.reverseRecOn with
  | nil => exact absurd h (Option.some_ne_none _).symm
  | append_singleton calls call ih =>
    rw [poolsBuilt, runFrom_concat, ← poolsBuilt, addLiqPool, Proc.run_bind,
      Proc.run_ofExcept] at h
    rcases hquery : call.queryMaxLiqPool (sortedPair call.pair.1 call.pair.2) with e | answer
    · rw [hquery] at h
      obtain ⟨earlier, hmem, hrest⟩ := ih h
      exact ⟨earlier, List.mem_append_left _ hmem, hrest⟩
    · simp only [hquery, Proc.run_modify, Dict.get?_set] at h
      by_cases hkey : key = (genPoolKey call.pair.1 call.pair.2).1
      · rw [if_pos hkey, Option.some_inj] at h
        exact ⟨call, List.mem_append_right _ (List.mem_singleton_self call), hkey, h ▸ hquery⟩
      · rw [if_neg hkey] at h
        obtain ⟨earlier, hmem, hrest⟩ := ih h
        exact ⟨earlier, List.mem_append_left _ hmem, hrest⟩

theorem sortedPair_of_lt {a b : Token} (h : a.text < b.text) :
    sortedPair a b = (a.text, b.text) := by
  rw [sortedPair, genPoolKey, if_pos h, if_pos rfl]

theorem sortedPair_of_not_lt {a b : Token} (h : ¬ a.text < b.text) :
    sortedPair a b = (b.text, a.text) := by
  rw [sortedPair, genPoolKey, if_neg h, if_neg Nat.one_ne_zero]

theorem genPoolKey_fst (a b : Token) :
    (genPoolKey a b).1 = (sortedPair a b).1 ++ (sortedPair a b).2 := by
  by_cases h : a.text < b.text
  · rw [sortedPair_of_lt h, genPoolKey, if_pos h]
  · rw [sortedPair_of_not_lt h, genPoolKey, if_neg h]

theorem genPoolKey_fst_comm (a b : Token) : (genPoolKey a b).1 = (genPoolKey b a).1 := by
  rw [genPoolKey, genPoolKey]
  by_cases hab : a.text < b.text
  · rw [if_pos hab, if_neg (String.lt_asymm hab)]
  · by_cases hba : b.text < a.text
    · rw [if_neg hab, if_pos hba]
    · have heq : a.text = b.text := String.le_antisymm (String.not_lt.mp hba) (String.not_lt.mp hab)
      rw [heq]

/-- Tokens with the same key are the same pair. -/
theorem sortedPair_eq_of_key {a b c d : Token} (h : (genPoolKey a b).1 = (genPoolKey c d).1) :
    sortedPair a b = sortedPair c d := by
  rcases genPoolKey_inj h with ⟨rfl, rfl⟩ | ⟨rfl, rfl⟩
  · rfl
  · by_cases hab : a.text < b.text
    · rw [sortedPair_of_lt hab, sortedPair_of_not_lt (String.lt_asymm hab)]
    · by_cases hba : b.text < a.text
      · rw [sortedPair_of_not_lt hab, sortedPair_of_lt hba]
      · rw [sortedPair_of_not_lt hab, sortedPair_of_not_lt hba]
        have heq : a.text = b.text :=
          String.le_antisymm (String.not_lt.mp hba) (String.not_lt.mp hab)
        rw [heq]

theorem poolsKeyed_poolsBuilt {calls : List (AddLiqPoolCall L)}
    (hcalls : ∀ call ∈ calls, call.KeepsPair) : PoolsKeyed (poolsBuilt calls) := by
  intro a b pool hpool
  rw [poolOf] at hpool
  obtain ⟨call, hmem, hkey, hquery⟩ := exists_call_of_mem (Option.join_eq_some_iff.mp hpool)
  rw [hcalls call hmem _ pool hquery, sortedPair_eq_of_key hkey]

end Built

/-! ## One route -/

section Walk

variable {L : Type} {pools : Dict String (Option (Pool L))}
  {swapSimulation : Pool L → ℤ → ℕ → Except Error ℤ}

theorem genPoolKey_snd (a b : Token) : (genPoolKey a b).2 = 0 ∨ (genPoolKey a b).2 = 1 := by
  rw [genPoolKey]
  split_ifs
  · exact .inl rfl
  · exact .inr rfl

/-- A hop that cannot be made. -/
theorem singleRoutSimulation_of_none {tokenIn tokenOut : Token} {amountOut : ℤ}
    (h : hopCost pools swapSimulation tokenIn tokenOut amountOut = none) :
    (singleRoutSimulation pools swapSimulation tokenIn tokenOut amountOut).1 = -1 := by
  rw [hopCost, poolOf, tokenOutIndex] at h
  simp only [singleRoutSimulation]
  rcases hpool : (pools.get? (genPoolKey tokenIn tokenOut).1).join with _ | pool
  · rfl
  · simp only [hpool] at h
    rcases hquote : swapSimulation pool amountOut (1 - (genPoolKey tokenIn tokenOut).2)
      with e | amountIn
    · simp only [hquote]
    · simp only [hquote, ite_eq_left_iff, reduceCtorEq, imp_false, not_not] at h
      simp only [hquote, h]

/-- A hop that can be made, and its path. -/
theorem singleRoutSimulation_of_some (hkeyed : PoolsKeyed pools) {tokenIn tokenOut : Token}
    {amountOut amountIn : ℤ}
    (h : hopCost pools swapSimulation tokenIn tokenOut amountOut = some amountIn) :
    amountIn ≠ -1 ∧ ∃ path,
      singleRoutSimulation pools swapSimulation tokenIn tokenOut amountOut = (amountIn, some path) ∧
      IsHop pools swapSimulation tokenIn tokenOut amountOut path amountIn := by
  rw [hopCost] at h
  rcases hpool : poolOf pools tokenIn tokenOut with _ | pool
  · simp [hpool] at h
  rcases hquote : swapSimulation pool amountOut (tokenOutIndex tokenIn tokenOut) with e | amount
  · simp [hpool, hquote] at h
  simp only [hpool, hquote] at h
  by_cases hnone : amount = -1
  · simp [hnone] at h
  rw [if_neg hnone, Option.some_inj] at h
  subst h
  refine ⟨hnone, ⟨pool.poolAddr, pool.fee, tokenOutIndex tokenIn tokenOut, pool.pair.1, pool.pair.2,
    amountOut⟩, ?_, rfl, ?_, pool, hpool, rfl, rfl, hquote⟩
  · rw [poolOf] at hpool
    rw [tokenOutIndex] at hquote
    simp only [singleRoutSimulation, hpool, hquote, tokenOutIndex]
  -- the index of the token that comes out is 1 where the pair begins with the other token
  · have hpair := hkeyed tokenIn tokenOut pool hpool
    rcases genPoolKey_snd tokenIn tokenOut with hindex | hindex
    · rw [sortedPair, hindex, if_pos rfl] at hpair
      exact .inr ⟨by rw [tokenOutIndex, hindex], by rw [hpair], by rw [hpair]⟩
    · rw [sortedPair, hindex, if_neg (by decide)] at hpair
      exact .inl ⟨by rw [tokenOutIndex, hindex], by rw [hpair], by rw [hpair]⟩

/-- The inner loop calculates the composed cost, and collects paths that follow the tokens. -/
theorem walk_eq (hkeyed : PoolsKeyed pools) (path : List Token) :
    ∀ (amountOut : ℤ) (pathsTemp : List Path) (tokenOut : Token),
      match composedCost pools swapSimulation amountOut tokenOut path with
      | none => (walk pools swapSimulation amountOut pathsTemp tokenOut path).1 = -1
      | some cost => (path ≠ [] → cost ≠ -1) ∧ ∃ paths,
          walk pools swapSimulation amountOut pathsTemp tokenOut path
            = (cost, pathsTemp ++ paths) ∧
          Follows pools swapSimulation amountOut tokenOut path paths cost := by
  -- for any amount and any paths so far: the loop carries both from hop to hop
  induction path with
  | nil =>
    intro amountOut pathsTemp tokenOut
    exact ⟨fun h ↦ absurd rfl h, [], by rw [walk, List.append_nil], rfl, rfl⟩
  | cons tokenIn path ih =>
    intro amountOut pathsTemp tokenOut
    rw [composedCost, walk]
    rcases hcost : hopCost pools swapSimulation tokenIn tokenOut amountOut with _ | amountIn
    · -- the hop fails, and the loop ends with its amount
      rw [Option.bind_none]
      have hfail := singleRoutSimulation_of_none hcost
      rcases hhop : singleRoutSimulation pools swapSimulation tokenIn tokenOut amountOut
        with ⟨amount, _ | pathInfos⟩
      · rw [hhop] at hfail
        exact hfail
      · rw [hhop] at hfail
        simp only [if_pos hfail]
        exact hfail
    · obtain ⟨hne, pathInfos, hhop, hishop⟩ := singleRoutSimulation_of_some hkeyed hcost
      simp only [Option.bind_some, hhop, if_neg hne]
      have hrest := ih amountIn (pathsTemp ++ [pathInfos]) tokenIn
      rcases hcomposed : composedCost pools swapSimulation amountIn tokenIn path with _ | cost
      · rw [hcomposed] at hrest
        exact hrest
      · rw [hcomposed] at hrest
        obtain ⟨hcost_ne, paths, hwalk, hfollows⟩ := hrest
        refine ⟨fun _ ↦ ?_, pathInfos :: paths, ?_, pathInfos, paths, amountIn, rfl, hishop,
          hfollows⟩
        -- the cost is that of the last hop, here the only one or a later one
        · rcases path with _ | ⟨token, path⟩
          · rw [composedCost, Option.some_inj] at hcomposed
            exact hcomposed ▸ hne
          · exact hcost_ne (List.cons_ne_nil token path)
        · rw [hwalk, List.append_assoc, List.singleton_append]

end Walk

/-! ## All routes -/

section Search

variable {L : Type} {pools : Dict String (Option (Pool L))}
  {swapSimulation : Pool L → ℤ → ℕ → Except Error ℤ} {r : Routs} {finalOut : ℤ}

/-- A selection has its cost, and one without a cost is given up. -/
theorem walk_selection (hkeyed : PoolsKeyed pools) (res : List Token) :
    match selectionCost pools swapSimulation r finalOut res with
    | none => (walk pools swapSimulation finalOut [] r.tokenOut (res ++ [r.tokenIn])).1 = -1
    | some cost => cost ≠ -1 ∧ ∃ paths,
        walk pools swapSimulation finalOut [] r.tokenOut (res ++ [r.tokenIn]) = (cost, paths) ∧
        Follows pools swapSimulation finalOut r.tokenOut (res ++ [r.tokenIn]) paths cost := by
  have hwalk := @walk_eq L pools swapSimulation hkeyed (res ++ [r.tokenIn]) finalOut [] r.tokenOut
  rw [← selectionCost] at hwalk
  rcases hcost : selectionCost pools swapSimulation r finalOut res with _ | cost
  · rw [hcost] at hwalk
    exact hwalk
  · rw [hcost] at hwalk
    obtain ⟨hne, paths, hpaths, hfollows⟩ := hwalk
    exact ⟨hne (List.append_ne_nil_of_right_ne_nil res (List.cons_ne_nil _ _)), paths, hpaths,
      hfollows⟩

variable (pools swapSimulation r finalOut) in
/-- What the search holds for the best selection so far. -/
def holding (best : Option (ℤ × List Token)) : ℤ × List Path :=
  match best with
  | none => (-1, [])
  | some (cost, res) =>
    (cost, (walk pools swapSimulation finalOut [] r.tokenOut (res ++ [r.tokenIn])).2)

/-- One arrangement, for a best cost that is a cost. -/
private theorem tryRout_holding (hkeyed : PoolsKeyed pools) {best : Option (ℤ × List Token)}
    (hbest : ∀ held, best = some held → held.1 ≠ -1) (res : List Token) :
    tryRout pools swapSimulation r finalOut (holding pools swapSimulation r finalOut best) res
        = holding pools swapSimulation r finalOut
          (keepCheaper (selectionCost pools swapSimulation r finalOut) best res) ∧
      ∀ held, keepCheaper (selectionCost pools swapSimulation r finalOut) best res = some held →
        held.1 ≠ -1 := by
  have hwalk := @walk_selection L pools swapSimulation r finalOut hkeyed res
  rcases hcost : selectionCost pools swapSimulation r finalOut res with _ | cost
  · rw [hcost] at hwalk
    simp only [keepCheaper, hcost, tryRout, hwalk]
    exact ⟨if_neg fun h ↦ h.1 rfl, hbest⟩
  · rw [hcost] at hwalk
    obtain ⟨hne, paths, hpaths, -⟩ := hwalk
    -- a first cost is taken, as `-1` is held so far
    rcases best with _ | ⟨heldCost, heldRes⟩
    · simp only [keepCheaper, hcost, tryRout, hpaths, holding]
      refine ⟨if_pos ⟨hne, .inr trivial⟩, fun held hheld ↦ ?_⟩
      rw [← Option.some_inj.mp hheld]
      exact hne
    · have hheld := hbest _ rfl
      simp only [keepCheaper, hcost, tryRout, hpaths, holding]
      by_cases hlt : cost < heldCost
      · rw [if_pos ⟨hne, .inl hlt⟩, if_pos hlt]
        refine ⟨by simp only [hpaths], fun held hheld' ↦ ?_⟩
        rw [← Option.some_inj.mp hheld']
        exact hne
      · rw [if_neg (fun h ↦ h.2.elim hlt hheld), if_neg hlt]
        exact ⟨rfl, hbest⟩

/-- The search keeps the first of the cheapest arrangements. -/
theorem foldl_tryRout (hkeyed : PoolsKeyed pools) (tried : List (List Token)) :
    tried.foldl (tryRout pools swapSimulation r finalOut) (-1, [])
      = holding pools swapSimulation r finalOut
        (tried.foldl (keepCheaper (selectionCost pools swapSimulation r finalOut)) none) := by
  have hboth : tried.foldl (tryRout pools swapSimulation r finalOut) (-1, [])
        = holding pools swapSimulation r finalOut
          (tried.foldl (keepCheaper (selectionCost pools swapSimulation r finalOut)) none) ∧
      ∀ held, tried.foldl (keepCheaper (selectionCost pools swapSimulation r finalOut)) none
        = some held → held.1 ≠ -1 := by
    -- once there is something, what is held is no `-1`: the test for `-1` asks just for the start
    induction tried using List.reverseRecOn with
    | nil => exact ⟨rfl, fun _ h ↦ absurd h.symm (Option.some_ne_none _)⟩
    | append_singleton tried res ih =>
      simp only [List.foldl_append, List.foldl_cons, List.foldl_nil, ih.1]
      exact tryRout_holding hkeyed ih.2 res
  exact hboth.1

/-- The arrangements are the selections. -/
theorem mem_arrangements_iff {routTokens res : List Token} (hnodup : routTokens.Nodup) :
    res ∈ arrangements routTokens ↔ IsSelection routTokens res := by
  rw [arrangements, List.mem_flatMap]
  constructor
  · rintro ⟨insert, -, hres⟩
    obtain ⟨hres', hsub, -⟩ := (mem_permutations_iff hnodup).mp hres
    exact ⟨hres', hsub⟩
  · rintro ⟨hres, hsub⟩
    refine ⟨res.length, List.mem_range.mpr ?_, (mem_permutations_iff hnodup).mpr ⟨hres, hsub, rfl⟩⟩
    exact Nat.lt_succ_of_le (hres.length_le_of_subset hsub)

/-- What the search of the base class returns. -/
theorem findRoutsBase_spec (hkeyed : PoolsKeyed pools) (routTokens : List Token) :
    (findRoutsBase pools swapSimulation routTokens r finalOut = (-1, []) ∧
      ∀ res ∈ arrangements routTokens,
        selectionCost pools swapSimulation r finalOut res = none) ∨
    ∃ front res back cost paths, arrangements routTokens = front ++ res :: back ∧
      FirstCheapest (selectionCost pools swapSimulation r finalOut) front res back cost ∧
      cost ≠ -1 ∧ findRoutsBase pools swapSimulation routTokens r finalOut = (cost, paths) ∧
      Follows pools swapSimulation finalOut r.tokenOut (res ++ [r.tokenIn]) paths cost := by
  have hloop := foldl_keepCheaper (selectionCost pools swapSimulation r finalOut)
    (arrangements routTokens)
  rw [findRoutsBase, foldl_tryRout hkeyed]
  rcases hbest : (arrangements routTokens).foldl
    (keepCheaper (selectionCost pools swapSimulation r finalOut)) none with _ | ⟨cost, res⟩
  · rw [hbest] at hloop
    exact .inl ⟨rfl, hloop⟩
  · rw [hbest] at hloop
    obtain ⟨front, back, hsplit, hfirst⟩ := hloop
    have hwalk := @walk_selection L pools swapSimulation r finalOut hkeyed res
    rw [hfirst.cost_eq] at hwalk
    obtain ⟨hne, paths, hpaths, hfollows⟩ := hwalk
    refine .inr ⟨front, res, back, cost, paths, hsplit, hfirst, hne, ?_, hfollows⟩
    simp only [holding, hpaths]

/-- With different ends the subclass searches like the base class. -/
theorem findRouts_of_ne {net : Network} (hends : r.tokenIn ≠ r.tokenOut) (routTokens : List Token) :
    findRouts pools swapSimulation net routTokens r finalOut
      = findRoutsBase pools swapSimulation routTokens r finalOut := by
  have hdifferent : sameCompToken net r = false := by
    rw [sameCompToken, decide_eq_false hends.symm, Bool.and_false, Bool.false_and]
  rw [findRouts, hdifferent]
  rfl

end Search

/-- **A route search is optimal and faithful.** For different ends, distinct intermediate tokens and
any map that `add_liq_pool` has built, the search returns `-1` without paths exactly when no
selection can be made. Otherwise it returns the least cost of all selections, with paths that lead
along a selection of this cost from the token out to the token in. -/
theorem findRouts_optimal {L : Type} {net : Network} {calls : List (AddLiqPoolCall L)}
    (hcalls : ∀ call ∈ calls, call.KeepsPair) (swapSimulation : Pool L → ℤ → ℕ → Except Error ℤ)
    {routTokens : List Token} (hnodup : routTokens.Nodup) {r : Routs}
    (hends : r.tokenIn ≠ r.tokenOut) (finalOut : ℤ) :
    (findRouts (poolsBuilt calls) swapSimulation net routTokens r finalOut = (-1, []) ↔
      ∀ res, IsSelection routTokens res →
        selectionCost (poolsBuilt calls) swapSimulation r finalOut res = none) ∧
    ((∃ res cost, IsSelection routTokens res ∧
        selectionCost (poolsBuilt calls) swapSimulation r finalOut res = some cost) →
      ∃ res cost paths, IsSelection routTokens res ∧
        selectionCost (poolsBuilt calls) swapSimulation r finalOut res = some cost ∧
        (∀ res', IsSelection routTokens res' → ∀ cost',
          selectionCost (poolsBuilt calls) swapSimulation r finalOut res' = some cost' →
          cost ≤ cost') ∧
        findRouts (poolsBuilt calls) swapSimulation net routTokens r finalOut = (cost, paths) ∧
        Follows (poolsBuilt calls) swapSimulation finalOut r.tokenOut (res ++ [r.tokenIn]) paths
          cost) := by
  rw [findRouts_of_ne hends]
  simp only [← mem_arrangements_iff hnodup]
  rcases findRoutsBase_spec (poolsKeyed_poolsBuilt hcalls) routTokens with
    ⟨hnone, hall⟩ | ⟨front, res, back, cost, paths, hsplit, hfirst, hne, hresult, hfollows⟩
  · refine ⟨iff_of_true hnone hall, ?_⟩
    rintro ⟨res, cost, hres, hcost⟩
    exact absurd ((hall res hres).symm.trans hcost) (Option.some_ne_none cost).symm
  · have hres : res ∈ arrangements routTokens := by
      rw [hsplit]
      exact List.mem_append_right front List.mem_cons_self
    refine ⟨iff_of_false (fun h ↦ ?_) fun hall ↦ ?_, fun _ ↦ ?_⟩
    · rw [hresult] at h
      exact hne (Prod.mk.inj h).1
    · exact absurd ((hall res hres).symm.trans hfirst.cost_eq) (Option.some_ne_none cost).symm
    · refine ⟨res, cost, paths, hres, hfirst.cost_eq, fun res' hres' cost' hcost' ↦ ?_, hresult,
        hfollows⟩
      rw [hsplit] at hres'
      exact hfirst.le hres' hcost'

/-! ### Two pools in a row -/

def link : Token := ⟨"0xF8A0BF9cF54Bb92F17374d9e9A321E6a111a51bD", by decide +kernel⟩

/-- A factory with pools of WBNB for LINK and for BUSD. -/
def wbnbChain : V2Chain where
  getPair token0 token1 :=
    if token0 = link.text ∧ token1 = wbnb.text then .ok "0x824eb9faDFb377394430d2744fa7C42916DE3eCe"
    else if token0 = wbnb.text ∧ token1 = busd.text then
      .ok "0x58F876857a02D6762E0101bb5C46A8c1ED44Dc16"
    else .ok addressZero
  getReserves pairAddr :=
    if pairAddr = "0x824eb9faDFb377394430d2744fa7C42916DE3eCe" then .ok ⟨100000, 4000000⟩
    else .ok ⟨100000, 30000000⟩

def wbnbCalls : List (AddLiqPoolCall Reserves) := [
  ⟨SwapV2.queryMaxLiqPool wbnbChain 25, (wbnb, link)⟩,
  ⟨SwapV2.queryMaxLiqPool wbnbChain 25, (busd, wbnb)⟩]

theorem keepsPair_wbnbCalls : ∀ call ∈ wbnbCalls, call.KeepsPair := by
  intro call hcall
  rw [wbnbCalls, List.mem_cons, List.mem_singleton] at hcall
  rcases hcall with rfl | rfl
  · exact SwapV2.keepsPair wbnbChain 25 _
  · exact SwapV2.keepsPair wbnbChain 25 _

/-- LINK for BUSD: there is no pool of the two, and the route over WBNB costs 1258029. -/
theorem findRouts_optimal_link :
    let pools := poolsBuilt wbnbCalls
    let r : Routs := ⟨false, busd, link⟩
    selectionCost pools SwapV2.swapSimulation r 100 [wbnb] = some 1258029 ∧
      (findRouts pools SwapV2.swapSimulation .bsc [wbnb] r 100 = (-1, []) ↔
        ∀ res, IsSelection [wbnb] res →
          selectionCost pools SwapV2.swapSimulation r 100 res = none) ∧
      ∃ res cost paths, IsSelection [wbnb] res ∧
        selectionCost pools SwapV2.swapSimulation r 100 res = some cost ∧
        (∀ res', IsSelection [wbnb] res' → ∀ cost',
          selectionCost pools SwapV2.swapSimulation r 100 res' = some cost' → cost ≤ cost') ∧
        findRouts pools SwapV2.swapSimulation .bsc [wbnb] r 100 = (cost, paths) ∧
        Follows pools SwapV2.swapSimulation 100 r.tokenOut (res ++ [r.tokenIn]) paths cost := by
  intro pools r
  have hcost : selectionCost pools SwapV2.swapSimulation r 100 [wbnb] = some 1258029 := by
    decide +kernel
  have hends : r.tokenIn ≠ r.tokenOut := by decide +kernel
  obtain ⟨hnone, hsome⟩ := @findRouts_optimal _ .bsc _ keepsPair_wbnbCalls SwapV2.swapSimulation _
    (List.nodup_singleton wbnb) _ hends 100
  exact ⟨hcost, hnone, hsome ⟨[wbnb], 1258029, ⟨List.nodup_singleton wbnb, fun _ ↦ id⟩, hcost⟩⟩

end CompoundLiquidation
