import CompoundLiquidation.Router.Routs
import Mathlib.Data.List.Nodup

/-!
# What earlier searches leave to a route search

A search should depend on its own two tokens only. It depends on all searches built before it in
the process: each of them has taken its tokens out of the shared list for good, and a token that is
missing there is no longer tried as an intermediate hop.

Two histories are told apart by a market with just two pools, one on each side of a missing token.
With the token the route through it is found; without it not even the first hop exists.
-/

namespace CompoundLiquidation

open Python

/-- The shared list after a history of constructions, given by their token pairs. -/
def routTokensAfter (net : Network) (sel : Selector) (tokens : List Token)
    (history : List (Token × Token)) : List Token :=
  history.foldl (fun routTokens p ↦ (genNewRouts net sel p.1 p.2 routTokens).2) tokens

/-- Some construction of the history was about the token. -/
def Touched (history : List (Token × Token)) (t : Token) : Prop :=
  ∃ p ∈ history, t = p.1 ∨ t = p.2

instance (history : List (Token × Token)) (t : Token) : Decidable (Touched history t) :=
  List.decidableBEx _ history

theorem touched_concat (history : List (Token × Token)) (p : Token × Token) (t : Token) :
    Touched (history ++ [p]) t ↔ Touched history t ∨ t = p.1 ∨ t = p.2 := by
  simp only [Touched, List.mem_append, List.mem_singleton]
  constructor
  · rintro ⟨q, hq | rfl, heq⟩
    · exact Or.inl ⟨q, hq, heq⟩
    · exact Or.inr heq
  · rintro (⟨q, hq, heq⟩ | heq)
    · exact ⟨q, Or.inl hq, heq⟩
    · exact ⟨p, Or.inr rfl, heq⟩

section Shared

variable {net : Network} {sel : Selector} {tokens : List Token}

/-- Construction filters the shared list. -/
theorem removeEnds_eq_filter (hnd : tokens.Nodup) (tokenIn tokenOut : Token) :
    removeEnds tokens tokenIn tokenOut
      = tokens.filter fun t ↦ t ≠ tokenIn ∧ t ≠ tokenOut := by
  rw [removeEnds, (hnd.erase tokenIn).erase_eq_filter, hnd.erase_eq_filter, List.filter_filter]
  refine List.filter_congr fun t _ ↦ ?_
  rw [Bool.eq_iff_iff, Bool.and_eq_true, bne_iff_ne, bne_iff_ne, decide_eq_true_eq]
  exact and_comm

/-- A history filters out the tokens it touched. -/
theorem routTokensAfter_eq_filter (hnd : tokens.Nodup) (history : List (Token × Token)) :
    routTokensAfter net sel tokens history = tokens.filter fun t ↦ ¬ Touched history t := by
  induction history using List.reverseRecOn with
  | nil =>
    rw [routTokensAfter, List.foldl_nil, List.filter_eq_self.mpr]
    simp [Touched]
  | append_singleton history p ih =>
    rw [routTokensAfter, List.foldl_append, List.foldl_cons, List.foldl_nil, ← routTokensAfter, ih,
      genNewRouts, removeEnds_eq_filter (hnd.filter _), List.filter_filter]
    refine List.filter_congr fun t _ ↦ ?_
    rw [Bool.eq_iff_iff, Bool.and_eq_true, decide_eq_true_eq, decide_eq_true_eq,
      decide_eq_true_eq, touched_concat, not_or, not_or, and_comm]

end Shared

/-- The intermediates a new search has after a history. -/
def intermediates (net : Network) (sel : Selector) (tokens : List Token)
    (history : List (Token × Token)) (tokenIn tokenOut : Token) : List Token :=
  (genNewRouts net sel tokenIn tokenOut (routTokensAfter net sel tokens history)).2

/-- Building a search after a history and running it. -/
def searchAfter {L : Type} (net : Network) (sel : Selector) (tokens : List Token)
    (history : List (Token × Token)) (tokenIn tokenOut : Token) (finalOut : ℤ)
    (pools : Dict String (Option (Pool L))) (swapSimulation : Pool L → ℤ → ℕ → Except Error ℤ) :
    ℤ × List Path :=
  let (r, routTokens) :=
    genNewRouts net sel tokenIn tokenOut (routTokensAfter net sel tokens history)
  findRouts pools swapSimulation net routTokens r finalOut

theorem intermediates_eq_filter {net : Network} {sel : Selector} {tokens : List Token}
    (hnd : tokens.Nodup) (history : List (Token × Token)) (tokenIn tokenOut : Token) :
    intermediates net sel tokens history tokenIn tokenOut
      = tokens.filter fun t ↦ (t ≠ tokenIn ∧ t ≠ tokenOut) ∧ ¬ Touched history t := by
  rw [intermediates, genNewRouts, routTokensAfter_eq_filter hnd,
    removeEnds_eq_filter (hnd.filter _), List.filter_filter]
  refine List.filter_congr fun t _ ↦ ?_
  rw [Bool.eq_iff_iff, Bool.and_eq_true, decide_eq_true_eq, decide_eq_true_eq, decide_eq_true_eq]

theorem mem_intermediates_iff {net : Network} {sel : Selector} {tokens : List Token}
    (hnd : tokens.Nodup) {history : List (Token × Token)} {tokenIn tokenOut t : Token} :
    t ∈ intermediates net sel tokens history tokenIn tokenOut
      ↔ t ∈ tokens ∧ (t ≠ tokenIn ∧ t ≠ tokenOut) ∧ ¬ Touched history t := by
  rw [intermediates_eq_filter hnd, List.mem_filter, decide_eq_true_eq]

/-! ## Pool keys -/

@[ext] theorem Token.ext {a b : Token} (h : a.text = b.text) : a = b := by
  cases a
  cases b
  simpa using h

private theorem text_append_inj {a b c d : Token} (h : a.text ++ b.text = c.text ++ d.text) :
    a = c ∧ b = d := by
  have hlist := congrArg String.toList h
  rw [String.toList_append, String.toList_append] at hlist
  have hlen : a.text.toList.length = c.text.toList.length := by
    rw [String.length_toList, String.length_toList, a.length_text, c.length_text]
  obtain ⟨hac, hbd⟩ := List.append_inj hlist hlen
  exact ⟨Token.ext (String.toList_injective hac), Token.ext (String.toList_injective hbd)⟩

/-- A pool key determines its unordered pair. -/
theorem genPoolKey_inj {a b c d : Token} (h : (genPoolKey a b).1 = (genPoolKey c d).1) :
    (a = c ∧ b = d) ∨ (a = d ∧ b = c) := by
  rw [genPoolKey, genPoolKey] at h
  by_cases hab : a.text < b.text <;> by_cases hcd : c.text < d.text
  · rw [if_pos hab, if_pos hcd] at h
    exact Or.inl (text_append_inj h)
  · rw [if_pos hab, if_neg hcd] at h
    exact Or.inr (text_append_inj h)
  · rw [if_neg hab, if_pos hcd] at h
    exact Or.inr (text_append_inj h).symm
  · rw [if_neg hab, if_neg hcd] at h
    exact Or.inl (text_append_inj h).symm

/-! ## Telling two histories apart -/

section Search

variable {L : Type} {pools : Dict String (Option (Pool L))}
  {swapSimulation : Pool L → ℤ → ℕ → Except Error ℤ} {r : Routs} {finalOut : ℤ}

private theorem tryRout_ne {best : ℤ × List Path} (h : best.1 ≠ -1) (res : List Token) :
    (tryRout pools swapSimulation r finalOut best res).1 ≠ -1 := by
  rw [tryRout]
  by_cases hbetter : (walk pools swapSimulation finalOut [] r.tokenOut (res ++ [r.tokenIn])).1 ≠ -1
      ∧ ((walk pools swapSimulation finalOut [] r.tokenOut (res ++ [r.tokenIn])).1 < best.1
        ∨ best.1 = -1)
  · simpa only [if_pos hbetter] using hbetter.1
  · simpa only [if_neg hbetter] using h

private theorem foldl_tryRout_ne (tried : List (List Token)) : ∀ {best : ℤ × List Path},
    best.1 ≠ -1 → (tried.foldl (tryRout pools swapSimulation r finalOut) best).1 ≠ -1 := by
  induction tried with
  | nil => exact fun h ↦ h
  | cons res tried ih => exact fun h ↦ ih (tryRout_ne h res)

/-- One arrangement with a route is enough for the search to find one. -/
theorem findRoutsBase_ne {routTokens res : List Token} (hres : res ∈ arrangements routTokens)
    (hwalk : (walk pools swapSimulation finalOut [] r.tokenOut (res ++ [r.tokenIn])).1 ≠ -1) :
    (findRoutsBase pools swapSimulation routTokens r finalOut).1 ≠ -1 := by
  obtain ⟨before, after, hsplit⟩ := List.append_of_mem hres
  rw [findRoutsBase, hsplit, List.foldl_append, List.foldl_cons]
  refine foldl_tryRout_ne after ?_
  generalize before.foldl (tryRout pools swapSimulation r finalOut) (-1, []) = best
  by_cases hnone : best.1 = -1
  · have hbetter : (walk pools swapSimulation finalOut [] r.tokenOut (res ++ [r.tokenIn])).1 ≠ -1
        ∧ ((walk pools swapSimulation finalOut [] r.tokenOut (res ++ [r.tokenIn])).1 < best.1
          ∨ best.1 = -1) := ⟨hwalk, Or.inr hnone⟩
    rw [tryRout]
    simpa only [if_pos hbetter] using hwalk
  · exact tryRout_ne hnone res

/-- Without a route the search reports none. -/
theorem findRoutsBase_eq_of_forall {routTokens : List Token}
    (h : ∀ res ∈ arrangements routTokens,
      (walk pools swapSimulation finalOut [] r.tokenOut (res ++ [r.tokenIn])).1 = -1) :
    (findRoutsBase pools swapSimulation routTokens r finalOut).1 = -1 := by
  have hfold : ∀ tried : List (List Token), (∀ res ∈ tried,
      (walk pools swapSimulation finalOut [] r.tokenOut (res ++ [r.tokenIn])).1 = -1) →
      tried.foldl (tryRout pools swapSimulation r finalOut) (-1, []) = (-1, []) := by
    intro tried
    induction tried with
    | nil => exact fun _ ↦ rfl
    | cons res tried ih =>
      intro hfail
      have hkeep : tryRout pools swapSimulation r finalOut (-1, []) res = (-1, []) := by
        rw [tryRout]
        simp [hfail res List.mem_cons_self]
      rw [List.foldl_cons, hkeep, ih fun res' hres' ↦ hfail res' (List.mem_cons_of_mem res hres')]
  rw [findRoutsBase, hfold _ h]

end Search

/-- A pool without properties of its own. -/
def somePool : Pool Unit := ⟨("", ""), "", (), 0⟩

/-- The market with one pool on each side of `t`. -/
def poolsAround (tokenIn tokenOut t : Token) : Dict String (Option (Pool Unit)) :=
  (Dict.set ∅ (genPoolKey t tokenOut).1 (some somePool)).set (genPoolKey tokenIn t).1
    (some somePool)

/-- A quote of one for every swap. -/
def quoteOne : Pool Unit → ℤ → ℕ → Except Error ℤ := fun _ _ _ ↦ .ok 1

section Market

variable {tokenIn tokenOut t : Token}

private theorem singleRout_of_pool {a b : Token} (amountOut : ℤ)
    (h : (poolsAround tokenIn tokenOut t).get? (genPoolKey a b).1 = some (some somePool)) :
    ∃ path, singleRoutSimulation (poolsAround tokenIn tokenOut t) quoteOne a b amountOut
      = (1, some path) := by
  rw [singleRoutSimulation]
  simp only [h, Option.join_some]
  exact ⟨_, rfl⟩

/-- Through `t` there is a route. -/
private theorem walk_through (finalOut : ℤ) :
    (walk (poolsAround tokenIn tokenOut t) quoteOne finalOut [] tokenOut ([t] ++ [tokenIn])).1
      = 1 := by
  have hout : (poolsAround tokenIn tokenOut t).get? (genPoolKey t tokenOut).1
      = some (some somePool) := by
    rw [poolsAround, Dict.get?_set]
    by_cases h : (genPoolKey t tokenOut).1 = (genPoolKey tokenIn t).1
    · rw [if_pos h]
    · rw [if_neg h, Dict.get?_set_self]
  have hin : (poolsAround tokenIn tokenOut t).get? (genPoolKey tokenIn t).1
      = some (some somePool) := Dict.get?_set_self _ _ _
  obtain ⟨first, hfirst⟩ := singleRout_of_pool finalOut hout
  obtain ⟨second, hsecond⟩ := singleRout_of_pool 1 hin
  rw [List.singleton_append, walk, hfirst]
  simp only [if_neg (show (1 : ℤ) ≠ -1 by decide)]
  rw [walk, hsecond]
  simp only [if_neg (show (1 : ℤ) ≠ -1 by decide)]
  rfl

/-- Around `t` not even the first hop exists. -/
private theorem walk_around (hin : t ≠ tokenIn) (hout : t ≠ tokenOut) {res : List Token}
    (hres : t ∉ res) (finalOut : ℤ) :
    (walk (poolsAround tokenIn tokenOut t) quoteOne finalOut [] tokenOut (res ++ [tokenIn])).1
      = -1 := by
  have hhop : ∀ a, a ≠ t → (poolsAround tokenIn tokenOut t).get? (genPoolKey a tokenOut).1
      = none := by
    intro a ha
    have h1 : (genPoolKey a tokenOut).1 ≠ (genPoolKey tokenIn t).1 := by
      intro h
      rcases genPoolKey_inj h with ⟨-, hot⟩ | ⟨hat, -⟩
      · exact hout hot.symm
      · exact ha hat
    have h2 : (genPoolKey a tokenOut).1 ≠ (genPoolKey t tokenOut).1 := by
      intro h
      rcases genPoolKey_inj h with ⟨hat, -⟩ | ⟨-, hot⟩
      · exact ha hat
      · exact hout hot.symm
    rw [poolsAround, Dict.get?_set_of_ne _ _ h1, Dict.get?_set_of_ne _ _ h2, Dict.get?_empty]
  obtain ⟨a, path, hpath, ha⟩ : ∃ a path, res ++ [tokenIn] = a :: path ∧ a ≠ t := by
    cases res with
    | nil => exact ⟨tokenIn, [], rfl, Ne.symm hin⟩
    | cons a res =>
      exact ⟨a, res ++ [tokenIn], rfl, fun h ↦ hres (h ▸ List.mem_cons_self)⟩
  have hsingle : singleRoutSimulation (poolsAround tokenIn tokenOut t) quoteOne a tokenOut finalOut
      = (-1, none) := by
    rw [singleRoutSimulation]
    simp only [hhop a ha, Option.join_none]
  rw [hpath, walk, hsingle]

end Market

section History

variable {net : Network} {sel : Selector} {tokens : List Token} {history : List (Token × Token)}
  {tokenIn tokenOut t : Token}

theorem searchAfter_of_same (hsame : sameCompToken net (genNewRouts net sel tokenIn tokenOut []).1)
    {L : Type} (finalOut : ℤ) (pools : Dict String (Option (Pool L)))
    (swapSimulation : Pool L → ℤ → ℕ → Except Error ℤ) :
    searchAfter net sel tokens history tokenIn tokenOut finalOut pools swapSimulation
      = (-1, []) := by
  rw [searchAfter]
  exact if_pos hsame

/-- Any other search is the plain one over its intermediates. -/
theorem searchAfter_eq_findRoutsBase
    (hsame : ¬ sameCompToken net (genNewRouts net sel tokenIn tokenOut []).1)
    {L : Type} (finalOut : ℤ) (pools : Dict String (Option (Pool L)))
    (swapSimulation : Pool L → ℤ → ℕ → Except Error ℤ) :
    searchAfter net sel tokens history tokenIn tokenOut finalOut pools swapSimulation
      = findRoutsBase pools swapSimulation (intermediates net sel tokens history tokenIn tokenOut)
          (genNewRouts net sel tokenIn tokenOut []).1 finalOut := by
  rw [searchAfter]
  exact if_neg hsame

/-- Between the two pools the search succeeds exactly when the token is still there. -/
private theorem searchAfter_around (hnd : tokens.Nodup)
    (hsame : ¬ sameCompToken net (genNewRouts net sel tokenIn tokenOut []).1)
    (ht : t ∈ tokens) (hin : t ≠ tokenIn) (hout : t ≠ tokenOut) :
    (searchAfter net sel tokens history tokenIn tokenOut 1 (poolsAround tokenIn tokenOut t)
      quoteOne).1 = -1 ↔ Touched history t := by
  rw [searchAfter_eq_findRoutsBase hsame]
  by_cases htouched : Touched history t
  · refine iff_of_true (findRoutsBase_eq_of_forall fun res hres ↦ ?_) htouched
    -- no arrangement can visit `t`
    refine walk_around hin hout (fun hmem ↦ ?_) 1
    obtain ⟨n, -, hperm⟩ := List.mem_flatMap.mp hres
    have hmid := mem_of_mem_permutations hperm t hmem
    exact ((mem_intermediates_iff hnd).mp hmid).2.2 htouched
  · refine iff_of_false ?_ htouched
    have hmid : t ∈ intermediates net sel tokens history tokenIn tokenOut :=
      (mem_intermediates_iff hnd).mpr ⟨ht, ⟨hin, hout⟩, htouched⟩
    -- `[t]` is one of the arrangements of a single token
    have hres : [t] ∈ arrangements (intermediates net sel tokens history tokenIn tokenOut) := by
      refine List.mem_flatMap.mpr ⟨1, ?_, singleton_mem_permutations hmid⟩
      rw [List.mem_range]
      have hpos := List.length_pos_of_mem hmid
      omega
    refine findRoutsBase_ne hres ?_
    have hone : (walk (poolsAround tokenIn tokenOut t) quoteOne 1 [] tokenOut
        ([t] ++ [tokenIn])).1 = 1 := walk_through 1
    exact ne_of_eq_of_ne hone (by decide)

/-- A search gives the same answer after two histories, over every market, exactly when it takes
the early exit or the histories touched the same tokens besides its own two; and it considers all
other tokens exactly when none of them was touched. -/
theorem search_independent_iff (hnet : routsTokens net = some tokens)
    (history₁ history₂ : List (Token × Token)) (tokenIn tokenOut : Token) :
    ((∀ (L : Type) (finalOut : ℤ) (pools : Dict String (Option (Pool L)))
        (swapSimulation : Pool L → ℤ → ℕ → Except Error ℤ),
        searchAfter net sel tokens history₁ tokenIn tokenOut finalOut pools swapSimulation
          = searchAfter net sel tokens history₂ tokenIn tokenOut finalOut pools swapSimulation)
      ↔ sameCompToken net (genNewRouts net sel tokenIn tokenOut []).1
        ∨ ∀ t ∈ tokens, t ≠ tokenIn → t ≠ tokenOut → (Touched history₁ t ↔ Touched history₂ t)) ∧
    (intermediates net sel tokens history₁ tokenIn tokenOut
        = tokens.filter (fun t ↦ t ≠ tokenIn ∧ t ≠ tokenOut)
      ↔ ∀ t ∈ tokens, t ≠ tokenIn → t ≠ tokenOut → ¬ Touched history₁ t) := by
  have hnd := nodup_routsTokens hnet
  refine ⟨⟨fun heq ↦ ?_, ?_⟩, ⟨fun heq t ht hin hout ↦ ?_, fun hfresh ↦ ?_⟩⟩
  · by_cases hsame : sameCompToken net (genNewRouts net sel tokenIn tokenOut []).1
    · exact Or.inl hsame
    · refine Or.inr fun t ht hin hout ↦ ?_
      rw [← searchAfter_around hnd hsame ht hin hout, ← searchAfter_around hnd hsame ht hin hout,
        heq Unit 1 (poolsAround tokenIn tokenOut t) quoteOne]
  · rintro (hsame | htouch) L finalOut pools swapSimulation
    · rw [searchAfter_of_same hsame, searchAfter_of_same hsame]
    · by_cases hsame : sameCompToken net (genNewRouts net sel tokenIn tokenOut []).1
      · rw [searchAfter_of_same hsame, searchAfter_of_same hsame]
      · have hmid : intermediates net sel tokens history₁ tokenIn tokenOut
            = intermediates net sel tokens history₂ tokenIn tokenOut := by
          rw [intermediates_eq_filter hnd, intermediates_eq_filter hnd]
          refine List.filter_congr fun t ht ↦ decide_eq_decide.mpr (and_congr_right ?_)
          rintro ⟨hin, hout⟩
          exact not_congr (htouch t ht hin hout)
        rw [searchAfter_eq_findRoutsBase hsame, searchAfter_eq_findRoutsBase hsame, hmid]
  · have hmem : t ∈ intermediates net sel tokens history₁ tokenIn tokenOut := by
      rw [heq, List.mem_filter, decide_eq_true_eq]
      exact ⟨ht, hin, hout⟩
    exact ((mem_intermediates_iff hnd).mp hmem).2.2
  · rw [intermediates_eq_filter hnd]
    refine List.filter_congr fun t ht ↦ decide_eq_decide.mpr (and_iff_left_of_imp ?_)
    rintro ⟨hin, hout⟩
    exact hfresh t ht hin hout

end History

/-! ## On the Binance chain -/

def wbnb : Token := ⟨"0xbb4CdB9CBd36B01bD1cBaEBF2De08d9173bc095c", length_wbnb_bsc⟩

def busd : Token := ⟨"0xe9e7CEA3DedcA5984780Bafc599bD69ADd087D56", length_busd_bsc⟩

def usdt : Token := ⟨"0x55d398326f99059fF775485246999027B3197955", length_usdt_bsc⟩

theorem search_independent_iff_bsc :
    ((∀ (L : Type) (finalOut : ℤ) (pools : Dict String (Option (Pool L)))
        (swapSimulation : Pool L → ℤ → ℕ → Except Error ℤ),
        searchAfter .bsc .venus [wbnb, busd, usdt] [(busd, usdt)] usdt busd finalOut pools
            swapSimulation
          = searchAfter .bsc .venus [wbnb, busd, usdt] [] usdt busd finalOut pools swapSimulation)
      ↔ sameCompToken .bsc (genNewRouts .bsc .venus usdt busd []).1
        ∨ ∀ t ∈ [wbnb, busd, usdt], t ≠ usdt → t ≠ busd →
            (Touched [(busd, usdt)] t ↔ Touched [] t)) ∧
    (intermediates .bsc .venus [wbnb, busd, usdt] [(busd, usdt)] usdt busd
        = [wbnb, busd, usdt].filter (fun t ↦ t ≠ usdt ∧ t ≠ busd)
      ↔ ∀ t ∈ [wbnb, busd, usdt], t ≠ usdt → t ≠ busd → ¬ Touched [(busd, usdt)] t) :=
  search_independent_iff rfl [(busd, usdt)] [] usdt busd

/-- Swapping BUSD for USDT goes through WBNB in a fresh process and not at all once a WBNB
liquidation was simulated. -/
theorem search_dependent :
    searchAfter .bsc .venus [wbnb, busd, usdt] [] usdt busd 1 (poolsAround usdt busd wbnb) quoteOne
      ≠ searchAfter .bsc .venus [wbnb, busd, usdt] [(wbnb, busd)] usdt busd 1
          (poolsAround usdt busd wbnb) quoteOne := by
  have hnd : [wbnb, busd, usdt].Nodup := by decide +kernel
  have hsame : ¬ sameCompToken .bsc (genNewRouts .bsc .venus usdt busd []).1 := by
    simp [sameCompToken, genNewRouts]
  have hin : wbnb ≠ usdt := by decide +kernel
  have hout : wbnb ≠ busd := by decide +kernel
  have htouched : Touched [(wbnb, busd)] wbnb := ⟨(wbnb, busd), by simp, Or.inl rfl⟩
  have hlost := (searchAfter_around hnd hsame List.mem_cons_self hin hout).mpr htouched
  intro heq
  rw [← heq, searchAfter_around hnd hsame List.mem_cons_self hin hout] at hlost
  obtain ⟨p, hp, -⟩ := hlost
  exact List.not_mem_nil hp

end CompoundLiquidation
