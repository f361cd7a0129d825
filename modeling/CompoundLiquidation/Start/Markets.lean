import CompoundLiquidation.Main.Program
import CompoundLiquidation.Python.Fill
import CompoundLiquidation.Router.Search

/-!
# Markets at the start

The file of the last run has the balances and interest indices of the markets. All else comes from
the chain when the program starts: the configuration with the underlying token and the source of the
price, the risk parameters, the price, and a pool for any two underlying tokens. Each of these loops
goes over the markets of the comptroller and raises at the first question that is not answered.
-/

namespace CompoundLiquidation

open Python

/-! ## Configurations -/

/-- `CtokenConfigs` with what the start reads of it. -/
structure MarketConfigs extends CtokenConfigs where
  underlying : Token
  reporter : String

/-- `len(str(n)) - 1`. -/
def exponent (n : ℤ) : ℤ := (toString n).length - 1

/-- `new_ctoken_configs` with its defaults. -/
def newCtokenConfigs (reporter : String) (underlying : Token) (underlyingDecimals : ℤ) :
    MarketConfigs where
  underlyingDecimals := underlyingDecimals
  baseUnits := exponent 1
  reporterMultiplier := exponent 1
  underlying := underlying
  reporter := reporter

/-- What the contracts answer about a market. -/
structure MarketNode where
  underlying : String → Except Error Token
  /-- `symbol` and `decimals` of a token. -/
  symbol : Token → Except Error String
  decimals : Token → Except Error ℤ
  /-- `getTokenConfig` of the price oracle: the oracles, and which of them are enabled. -/
  getTokenConfig : String → Except Error (List String × List Bool)
  /-- `tokenConfigs` of an oracle: the feed of a token. -/
  tokenConfigs : String → String → Except Error String
  reserveFactorMantissa : String → Except Error ℤ
  exchangeRateStored : String → Except Error ℤ
  protocolSeizeShareMantissa : String → Except Error ℤ
  getUnderlyingPrice : String → Except Error ℤ
  /-- The second component of `markets` of the comptroller. -/
  markets : String → Except Error ℤ

/-- The token of the chain, as the price oracle knows it. -/
def nativeAsset : String := "0xbBbBBBBbbBBBbbbBbbBbbbbBBbBbbbbBbBbbBBbB"

/-- The underlying token, the name the oracle has for it, and its decimals. The market of the
chain's own token has no contract for it. For any other market that fails the names stay unbound,
and using them raises. -/
def underlyingOf (node : MarketNode) (ctokenAddr : String) : Except Error (Token × String × ℤ) :=
  let answers : Except Error (Token × String × ℤ) := do
    let ctokenUnderlying ← node.underlying ctokenAddr
    let _ ← node.symbol ctokenUnderlying
    let underlyingDecimals ← node.decimals ctokenUnderlying
    return (ctokenUnderlying, ctokenUnderlying.text, underlyingDecimals)
  match answers with
  | .ok underlying => .ok underlying
  | .error e => if ctokenAddr = nativeCtoken then .ok (wbnb, nativeAsset, 18) else .error e

/-- `Web3CompoundVenues.query_ctokens_configs`. -/
def queryCtokensConfigs (node : MarketNode) (ctokenAddr : String) :
    Except Error MarketConfigs := do
  let (ctokenUnderlying, ctokenUnderlyingExt, underlyingDecimals) ← underlyingOf node ctokenAddr
  let (oracles, enableFlags) ← node.getTokenConfig ctokenAddr
  -- the first one that is enabled, or one too far
  let oracleAddr ← okOr oracles[enableFlags.findIdx id]? .indexError
  let reporter ← node.tokenConfigs oracleAddr ctokenUnderlyingExt
  return newCtokenConfigs reporter ctokenUnderlying underlyingDecimals

/-- `complete_ctokens_configs_info`. -/
def completeCtokensConfigsInfo (node : MarketNode) (obj : Dict String CtokenInfos)
    (reserves : List String) : Except Error (Dict String MarketConfigs) :=
  Dict.fill (fun ctokenAddr ↦ do
    let ctokenConfigs ← queryCtokensConfigs node ctokenAddr
    let _ ← obj.item ctokenAddr
    return ctokenConfigs) reserves ∅

/-! ## Risks and prices -/

/-- `complete_ctokens_risks` for one market. -/
def completeRisks (node : MarketNode) (obj : Dict String CtokenInfos) (ctokenAddr : String) :
    Except Error (Dict String CtokenInfos) := do
  let reserveFactor ← node.reserveFactorMantissa ctokenAddr
  let infos ← obj.item ctokenAddr
  let exchangeRate ← node.exchangeRateStored ctokenAddr
  let protocolSeized :=
    match node.protocolSeizeShareMantissa ctokenAddr with
    | .ok protocolSeized => protocolSeized
    | .error _ => infos.risks.protocolSeized
  return obj.set ctokenAddr { infos with
    risks := { infos.risks with
      reserveFactor := reserveFactor
      exchangeRate := exchangeRate
      protocolSeized := protocolSeized } }

/-- `complete_ctokens_risks`. -/
def completeCtokensRisks (node : MarketNode) (reserves : List String)
    (obj : Dict String CtokenInfos) : Except Error (Dict String CtokenInfos) :=
  reserves.foldlM (completeRisks node) obj

/-- `complete_ctokens_price_info` for one market, with `init_ctoken_price`. -/
def completePrice (node : MarketNode) (clock : String → ℤ) (obj : Dict String CtokenInfos)
    (ctokenAddr : String) : Except Error (Dict String CtokenInfos) := do
  let currentPrice ← node.getUnderlyingPrice ctokenAddr
  let infos ← obj.item ctokenAddr
  return obj.set ctokenAddr { infos with price := some (.init currentPrice (clock ctokenAddr)) }

/-- `complete_ctokens_price_info`. -/
def completeCtokensPriceInfo (node : MarketNode) (clock : String → ℤ) (reserves : List String)
    (obj : Dict String CtokenInfos) : Except Error (Dict String CtokenInfos) :=
  reserves.foldlM (completePrice node clock) obj

section Complete

variable {node : MarketNode} {clock : String → ℤ} {reserves : List String}
  {obj obj' : Dict String CtokenInfos}

theorem completeCtokensRisks_ok (h : completeCtokensRisks node reserves obj = .ok obj') :
    obj'.keys = obj.keys ∧ ∀ reserve ∈ reserves, ∃ infos, obj'.get? reserve = some infos ∧
      node.exchangeRateStored reserve = .ok infos.risks.exchangeRate := by
  have hbody : ∀ obj reserve obj', completeRisks node obj reserve = .ok obj' →
      ∃ infos infos', obj.get? reserve = some infos ∧ obj' = obj.set reserve infos' ∧
        node.exchangeRateStored reserve = .ok infos'.risks.exchangeRate ∧ True := by
    intro obj reserve obj' h
    obtain ⟨reserveFactor, -, h⟩ := exists_of_bind_ok h
    obtain ⟨infos, hinfos, h⟩ := exists_of_bind_ok h
    obtain ⟨rate, hrate, h⟩ := exists_of_bind_ok h
    exact ⟨infos, _, Dict.item_eq_ok_iff.mp hinfos, (Except.ok.inj h).symm, hrate, trivial⟩
  obtain ⟨hkeys, hrate, -, -⟩ := foldlM_replace (R := fun _ _ ↦ True) (fun _ ↦ trivial)
    (fun _ _ _ _ _ ↦ trivial) hbody h
  exact ⟨hkeys, hrate⟩

theorem completeCtokensPriceInfo_ok
    (h : completeCtokensPriceInfo node clock reserves obj = .ok obj') :
    obj'.keys = obj.keys ∧
      (∀ reserve ∈ reserves, ∃ infos, obj'.get? reserve = some infos ∧
        ∃ price, node.getUnderlyingPrice reserve = .ok price ∧
          infos.price = some (.init price (clock reserve))) ∧
      ∀ reserve infos, obj.get? reserve = some infos →
        ∃ infos', obj'.get? reserve = some infos' ∧ infos'.risks = infos.risks := by
  have hbody : ∀ obj reserve obj', completePrice node clock obj reserve = .ok obj' →
      ∃ infos infos', obj.get? reserve = some infos ∧ obj' = obj.set reserve infos' ∧
        (∃ price, node.getUnderlyingPrice reserve = .ok price ∧
          infos'.price = some (.init price (clock reserve))) ∧ infos'.risks = infos.risks := by
    intro obj reserve obj' h
    obtain ⟨price, hprice, h⟩ := exists_of_bind_ok h
    obtain ⟨infos, hinfos, h⟩ := exists_of_bind_ok h
    exact ⟨infos, _, Dict.item_eq_ok_iff.mp hinfos, (Except.ok.inj h).symm, ⟨price, hprice, rfl⟩,
      rfl⟩
  obtain ⟨hkeys, hprice, -, hrisks⟩ := foldlM_replace
    (R := fun infos infos' : CtokenInfos ↦ infos'.risks = infos.risks) (fun _ ↦ rfl)
    (fun _ _ _ hfirst hsecond ↦ hsecond.trans hfirst) hbody h
  exact ⟨hkeys, hprice, hrisks⟩

/-- Behind both loops each market has the exchange rate and the price of the chain. -/
theorem quote_of_complete {obj'' : Dict String CtokenInfos}
    (hrisks : completeCtokensRisks node reserves obj = .ok obj')
    (hprices : completeCtokensPriceInfo node clock reserves obj' = .ok obj'') {reserve : String}
    (hreserve : reserve ∈ reserves) : ∃ infos price, obj''.get? reserve = some infos ∧
      node.getUnderlyingPrice reserve = .ok price ∧
      infos.price = some (.init price (clock reserve)) ∧
      node.exchangeRateStored reserve = .ok infos.risks.exchangeRate := by
  obtain ⟨infos', hinfos', hrate⟩ := (completeCtokensRisks_ok hrisks).2 reserve hreserve
  obtain ⟨-, hprice, hsame⟩ := completeCtokensPriceInfo_ok hprices
  obtain ⟨infos, hinfos, price, hask, hprice⟩ := hprice reserve hreserve
  obtain ⟨infos'', hinfos'', hrisks⟩ := hsame reserve infos' hinfos'
  rw [hinfos, Option.some_inj] at hinfos''
  rw [← hrisks, ← hinfos''] at hrate
  exact ⟨infos, price, hinfos, hask, hprice, hrate⟩

end Complete

/-! ## Pools -/

/-- The pairs of a list, the first one with each behind it, and so on. -/
def pairsOf {α : Type} : List α → List (α × α)
  | [] => []
  | a :: l => l.map (a, ·) ++ pairsOf l

/-- `init_router_pools`. -/
def initRouterPools {L : Type}
    (queryMaxLiqPool : String × String → Except Error (Option (Pool L)))
    (ctokenConfigs : Dict String MarketConfigs) (reserves : List String) :
    Proc (Dict String (Option (Pool L))) Error Unit :=
  Proc.forEach (pairsOf reserves) fun pair ↦ do
    let configs0 ← Proc.ofExcept (ctokenConfigs.item pair.1)
    let configs1 ← Proc.ofExcept (ctokenConfigs.item pair.2)
    addLiqPool queryMaxLiqPool (configs0.underlying, configs1.underlying)

theorem mem_pairsOf {α : Type} {a b : α} {l : List α} :
    (a, b) ∈ pairsOf l ↔ [a, b].Sublist l := by
  induction l with
  | nil =>
    exact iff_of_false List.not_mem_nil fun h ↦
      List.cons_ne_nil a [b] (List.sublist_nil.mp h)
  | cons c l ih =>
    rw [pairsOf, List.mem_append, ih, List.sublist_cons_iff, or_comm, List.mem_map]
    refine or_congr_right ⟨?_, ?_⟩
    · rintro ⟨d, hd, heq⟩
      obtain ⟨rfl, rfl⟩ := Prod.mk.inj heq
      exact ⟨[d], rfl, List.singleton_sublist.mpr hd⟩
    · rintro ⟨r, heq, hr⟩
      obtain ⟨rfl, rfl⟩ := List.cons.inj heq
      exact ⟨b, List.singleton_sublist.mp hr, rfl⟩

section Pools

variable {L : Type} {queryMaxLiqPool : String × String → Except Error (Option (Pool L))}
  {pools pools' : Dict String (Option (Pool L))}

/-- What is kept for two tokens is what has been answered for them. -/
def PoolsAsked (queryMaxLiqPool : String × String → Except Error (Option (Pool L)))
    (pools : Dict String (Option (Pool L))) : Prop :=
  ∀ a b pool, pools.get? (genPoolKey a b).1 = some pool →
    queryMaxLiqPool (sortedPair a b) = .ok pool

/-- Two markets are configured, and their tokens have been asked for a pool. -/
def HasPool (ctokenConfigs : Dict String MarketConfigs) (a b : String)
    (pools : Dict String (Option (Pool L))) : Prop :=
  ∃ configs0 configs1, ctokenConfigs.get? a = some configs0 ∧ ctokenConfigs.get? b = some configs1 ∧
    (genPoolKey configs0.underlying configs1.underlying).1 ∈ pools.keys

theorem PoolsAsked.keyed (h : PoolsAsked queryMaxLiqPool pools)
    (hpair : ∀ pair pool, queryMaxLiqPool pair = .ok (some pool) → pool.pair = pair) :
    PoolsKeyed pools := by
  intro a b pool hpool
  exact hpair _ pool (h a b (some pool) (Option.join_eq_some_iff.mp hpool))

theorem addLiqPool_ok {pair : Token × Token} (hasked : PoolsAsked queryMaxLiqPool pools)
    (h : (addLiqPool queryMaxLiqPool pair).run pools = (.ok (), pools')) :
    PoolsAsked queryMaxLiqPool pools' ∧
      ∀ key, key ∈ pools'.keys ↔ key = (genPoolKey pair.1 pair.2).1 ∨ key ∈ pools.keys := by
  obtain ⟨pool, _, hquery, h⟩ := Proc.run_bind_ok h
  obtain ⟨hanswer, rfl⟩ := Prod.mk.inj hquery
  obtain ⟨-, rfl⟩ := Prod.mk.inj h
  refine ⟨fun a b pool' hpool' ↦ ?_, fun key ↦ Dict.mem_keys_set⟩
  rw [Dict.get?_set] at hpool'
  split_ifs at hpool' with hkey
  · rw [sortedPair_eq_of_key hkey, ← Option.some_inj.mp hpool']
    exact hanswer
  · exact hasked a b pool' hpool'

/-- Behind the loops any two markets have the pool of their tokens. -/
theorem initRouterPools_ok {ctokenConfigs : Dict String MarketConfigs} {reserves : List String}
    (h : (initRouterPools queryMaxLiqPool ctokenConfigs reserves).run ∅ = (.ok (), pools)) :
    PoolsAsked queryMaxLiqPool pools ∧ ∀ a b, [a, b].Sublist reserves →
      ∃ configs0 configs1 pool, ctokenConfigs.get? a = some configs0 ∧
        ctokenConfigs.get? b = some configs1 ∧
        pools.get? (genPoolKey configs0.underlying configs1.underlying).1 = some pool := by
  have hloop : ∀ a b, PoolsAsked queryMaxLiqPool pools ∧
      (HasPool ctokenConfigs a b (∅ : Dict String (Option (Pool L))) ∨
        (∃ pair ∈ pairsOf reserves, pair = (a, b)) → HasPool ctokenConfigs a b pools) := by
    refine fun a b ↦ Proc.run_forEach_ok (fun pair _ before after hasked hone ↦ ?_) ?_ h
    · obtain ⟨configs0, _, hconfigs0, hone⟩ := Proc.run_bind_ok hone
      obtain ⟨hitem0, rfl⟩ := Prod.mk.inj hconfigs0
      obtain ⟨configs1, _, hconfigs1, hone⟩ := Proc.run_bind_ok hone
      obtain ⟨hitem1, rfl⟩ := Prod.mk.inj hconfigs1
      obtain ⟨hasked', hkeys⟩ := addLiqPool_ok hasked hone
      refine ⟨hasked', ?_⟩
      rintro (⟨found0, found1, h0, h1, hkey⟩ | rfl)
      · exact ⟨found0, found1, h0, h1, (hkeys _).mpr (.inr hkey)⟩
      · exact ⟨configs0, configs1, Dict.item_eq_ok_iff.mp hitem0, Dict.item_eq_ok_iff.mp hitem1,
          (hkeys _).mpr (.inl rfl)⟩
    · intro c d pool hpool
      cases hpool
  refine ⟨(hloop "" "").1, fun a b hab ↦ ?_⟩
  obtain ⟨configs0, configs1, h0, h1, hkey⟩ :=
    (hloop a b).2 (.inr ⟨(a, b), mem_pairsOf.mpr hab, rfl⟩)
  obtain ⟨pool, hpool⟩ := Dict.mem_keys_iff.mp hkey
  exact ⟨configs0, configs1, pool, h0, h1, hpool⟩

end Pools

end CompoundLiquidation
