import CompoundLiquidation.Python.Group
import CompoundLiquidation.Start.Markets

/-!
# Aggregators at the start

The source of the price of a market is a proxy, and the aggregator behind it sends the reports.
Several markets can have one aggregator. The program asks each market with a source for its
aggregator, with what the aggregator says of itself, and keeps the markets under the aggregator in
lower case, as the light node writes it. The filter of the subscription has the aggregators as they
came, once for each market.
-/

namespace CompoundLiquidation

open Python

/-- What the contracts answer about the source of a price. -/
structure FeedNode where
  /-- `aggregator` of a source. -/
  queryAggregator : String → Except Error String
  description : String → Except Error String
  decimals : String → Except Error ℤ

/-- `aggregator_description_parse`. -/
def aggregatorDescriptionParse (descr : String) : List String :=
  ((descr.toList.filter (· ≠ ' ')).splitOn '/').map String.ofList

/-- `{'to': aggregator}`. -/
def txFilter (aggregator : String) : Dict String String := Dict.set ∅ "to" aggregator

/-- `SIGNAL_TOKEN_DICT` of the network. -/
def stAlias : Dict String (List AggregatorInfos) := ∅

/-- `SIGNAL_FILTER_LIST` of the network. -/
def sAlias : List (Dict String String) := []

section Feeds

variable (node : FeedNode) (ctokenConfigs : Dict String MarketConfigs)

/-- The aggregator of a market and what it says of itself. A market without a source is left out. -/
def feedOf (reserve : String) : Except Error (Option (String × AggregatorInfos)) := do
  let configs ← ctokenConfigs.item reserve
  if configs.reporter = addressZero then return none
  let aggregator ← node.queryAggregator configs.reporter
  let descr ← node.description aggregator
  let priceDecimals ← node.decimals aggregator
  return some (aggregator, {
    token := reserve
    pairSymbols := aggregatorDescriptionParse descr
    priceDecimals := priceDecimals })

/-- `query_reserves_aggregator`. -/
def queryReservesAggregator (reserves : List String) :
    Except Error (Dict String (List AggregatorInfos) × List (Dict String String)) :=
  reserves.foldlM (fun acc reserve ↦ (feedOf node ctokenConfigs reserve).map fun found ↦
    found.elim acc fun feed ↦
      (acc.1.push feed.1.toLower feed.2, acc.2 ++ [txFilter feed.1])) (∅, [])

/-- `init_signals`, with `signals_event_filter_light`. -/
def initSignals (reserves : List String) : Except Error (Signals × List (Dict String String)) := do
  let (sourceTokenDic, aggregatorSourceFilter) ←
    queryReservesAggregator node ctokenConfigs reserves
  return (.init (sourceTokenDic.update stAlias), aggregatorSourceFilter ++ sAlias)

/-- `event_filter_convert`. -/
def eventFilterConvert (signalsEventFilterLight : List (Dict String String)) : List String :=
  signalsEventFilterLight.flatMap Dict.values

/-- The markets under their aggregators in lower case. -/
def sourceTokens (feeds : List (String × AggregatorInfos)) : Dict String (List AggregatorInfos) :=
  Dict.group (feeds.map fun feed ↦ (feed.1.toLower, feed.2))

/-- The market has this aggregator, as the chain writes it. -/
def HasAggregator (reserve aggregator : String) : Prop :=
  ∃ configs, ctokenConfigs.get? reserve = some configs ∧ configs.reporter ≠ addressZero ∧
    node.queryAggregator configs.reporter = .ok aggregator

end Feeds

/-! ## What the maps have -/

section Maps

variable {node : FeedNode} {ctokenConfigs : Dict String MarketConfigs}

theorem feedOf_eq_some {reserve aggregator : String} {infos : AggregatorInfos}
    (h : feedOf node ctokenConfigs reserve = .ok (some (aggregator, infos))) :
    HasAggregator node ctokenConfigs reserve aggregator ∧ infos.token = reserve ∧
      (∃ descr, node.description aggregator = .ok descr ∧
        infos.pairSymbols = aggregatorDescriptionParse descr) ∧
      node.decimals aggregator = .ok infos.priceDecimals := by
  obtain ⟨configs, hconfigs, h⟩ := exists_of_bind_ok h
  by_cases hzero : configs.reporter = addressZero
  · rw [if_pos hzero] at h
    cases h
  · rw [if_neg hzero] at h
    obtain ⟨aggregator', haggregator, h⟩ := exists_of_bind_ok h
    obtain ⟨descr, hdescr, h⟩ := exists_of_bind_ok h
    obtain ⟨priceDecimals, hdecimals, h⟩ := exists_of_bind_ok h
    obtain ⟨rfl, rfl⟩ := Prod.mk.inj (Option.some_inj.mp (Except.ok.inj h))
    exact ⟨⟨configs, Dict.item_eq_ok_iff.mp hconfigs, hzero, haggregator⟩, rfl,
      ⟨descr, hdescr, rfl⟩, hdecimals⟩

/-- A market that the loop has been through and that has an aggregator gives a feed. -/
theorem exists_feedOf {reserve aggregator : String} {found : Option (String × AggregatorInfos)}
    (h : feedOf node ctokenConfigs reserve = .ok found)
    (haggr : HasAggregator node ctokenConfigs reserve aggregator) :
    ∃ infos, found = some (aggregator, infos) := by
  obtain ⟨configs, hconfigs, hzero, haggregator⟩ := haggr
  obtain ⟨configs', hconfigs', h⟩ := exists_of_bind_ok h
  rw [Dict.item_eq_ok_iff.mp hconfigs', Option.some_inj] at hconfigs
  subst hconfigs
  rw [if_neg hzero] at h
  obtain ⟨aggregator', haggregator', h⟩ := exists_of_bind_ok h
  rw [haggregator, Except.ok.injEq] at haggregator'
  subst haggregator'
  obtain ⟨descr, -, h⟩ := exists_of_bind_ok h
  obtain ⟨priceDecimals, -, h⟩ := exists_of_bind_ok h
  exact ⟨_, (Except.ok.inj h).symm⟩

/-- The loop groups what it collects. -/
theorem queryReservesAggregator_eq (reserves : List String) :
    queryReservesAggregator node ctokenConfigs reserves
      = (collect (feedOf node ctokenConfigs) reserves).map fun feeds ↦
          (sourceTokens feeds, feeds.map fun feed ↦ txFilter feed.1) := by
  rw [queryReservesAggregator, foldlM_elim]
  congr 1
  funext feeds
  induction feeds using List.reverseRecOn with
  | nil => rfl
  | append_singleton feeds feed ih =>
    rw [List.foldl_concat, ih, sourceTokens, sourceTokens, List.map_append, List.map_append,
      List.map_singleton, Dict.group_concat, List.map_singleton]

theorem HasAggregator.unique {reserve aggregator aggregator' : String}
    (h : HasAggregator node ctokenConfigs reserve aggregator)
    (h' : HasAggregator node ctokenConfigs reserve aggregator') : aggregator = aggregator' := by
  obtain ⟨configs, hconfigs, -, haggregator⟩ := h
  obtain ⟨configs', hconfigs', -, haggregator'⟩ := h'
  rw [hconfigs, Option.some_inj] at hconfigs'
  subst hconfigs'
  rw [haggregator] at haggregator'
  exact Except.ok.inj haggregator'

theorem mem_sourceTokens {feeds : List (String × AggregatorInfos)} {aggr : String}
    {infos : AggregatorInfos} : infos ∈ (sourceTokens feeds).getD aggr [] ↔
      ∃ aggregator, aggregator.toLower = aggr ∧ (aggregator, infos) ∈ feeds := by
  rw [sourceTokens, Dict.mem_getD_group, List.mem_map]
  constructor
  · rintro ⟨⟨aggregator, infos'⟩, hfeed, heq⟩
    obtain ⟨rfl, rfl⟩ := Prod.mk.inj heq
    exact ⟨aggregator, rfl, hfeed⟩
  · rintro ⟨aggregator, rfl, hfeed⟩
    exact ⟨(aggregator, infos), hfeed, rfl⟩

section Collected

variable {reserves : List String} {feeds : List (String × AggregatorInfos)}

/-- The token of an entry under an aggregator is a market that has it, and the entry says what the
aggregator says. -/
theorem hasAggregator_of_mem (hfeeds : collect (feedOf node ctokenConfigs) reserves = .ok feeds)
    {aggr : String} {infos : AggregatorInfos}
    (h : infos ∈ (sourceTokens feeds).getD aggr []) :
    infos.token ∈ reserves ∧ ∃ aggregator, aggregator.toLower = aggr ∧
      HasAggregator node ctokenConfigs infos.token aggregator ∧
      (∃ descr, node.description aggregator = .ok descr ∧
        infos.pairSymbols = aggregatorDescriptionParse descr) ∧
      node.decimals aggregator = .ok infos.priceDecimals := by
  obtain ⟨aggregator, haggr, hfeed⟩ := mem_sourceTokens.mp h
  obtain ⟨reserve, hreserve, hfound⟩ := (mem_collect_iff hfeeds _).mp hfeed
  obtain ⟨haggregator, htoken, hdescr, hdecimals⟩ := feedOf_eq_some hfound
  subst htoken
  exact ⟨hreserve, aggregator, haggr, haggregator, hdescr, hdecimals⟩

/-- A market that has an aggregator is under it. -/
theorem exists_mem_of_hasAggregator
    (hfeeds : collect (feedOf node ctokenConfigs) reserves = .ok feeds)
    {reserve aggregator : String} (hreserve : reserve ∈ reserves)
    (haggr : HasAggregator node ctokenConfigs reserve aggregator) :
    ∃ infos ∈ (sourceTokens feeds).getD aggregator.toLower [], infos.token = reserve := by
  obtain ⟨found, hfound⟩ := exists_collect_iff.mp ⟨feeds, hfeeds⟩ reserve hreserve
  obtain ⟨infos, rfl⟩ := exists_feedOf hfound haggr
  have hfeed : (aggregator, infos) ∈ feeds :=
    (mem_collect_iff hfeeds _).mpr ⟨reserve, hreserve, hfound⟩
  exact ⟨infos, mem_sourceTokens.mpr ⟨aggregator, rfl, hfeed⟩, (feedOf_eq_some hfound).2.1⟩

/-- The markets under an aggregator are those that have it. -/
theorem exists_mem_sourceTokens_iff
    (hfeeds : collect (feedOf node ctokenConfigs) reserves = .ok feeds) (token aggr : String) :
    (∃ infos ∈ (sourceTokens feeds).getD aggr [], infos.token = token) ↔
      token ∈ reserves ∧ ∃ aggregator, aggregator.toLower = aggr ∧
        HasAggregator node ctokenConfigs token aggregator := by
  constructor
  · rintro ⟨infos, hinfos, rfl⟩
    obtain ⟨hreserve, aggregator, rfl, haggr, -⟩ := hasAggregator_of_mem hfeeds hinfos
    exact ⟨hreserve, aggregator, rfl, haggr⟩
  · rintro ⟨hreserve, aggregator, rfl, haggr⟩
    exact exists_mem_of_hasAggregator hfeeds hreserve haggr

/-- A market has one aggregator, so that the two maps are inverse to each other. -/
theorem get?_signalTokenInverse_iff
    (hfeeds : collect (feedOf node ctokenConfigs) reserves = .ok feeds) (token aggr : String) :
    (Signals.signalTokenInverse (sourceTokens feeds)).get? token = some aggr ↔
      ∃ infos ∈ (sourceTokens feeds).getD aggr [], infos.token = token := by
  refine Dict.get?_invert_iff fun aggr aggr' infos infos' hinfos hinfos' htoken ↦ ?_
  obtain ⟨-, aggregator, rfl, haggr, -⟩ := hasAggregator_of_mem hfeeds hinfos
  obtain ⟨-, aggregator', rfl, haggr', -⟩ := hasAggregator_of_mem hfeeds hinfos'
  rw [htoken] at haggr
  rw [haggr.unique haggr']

theorem sublist_sourceTokens
    (hfeeds : collect (feedOf node ctokenConfigs) reserves = .ok feeds) (aggr : String) :
    (((sourceTokens feeds).getD aggr []).map AggregatorInfos.token).Sublist reserves := by
  have hfeed : ∀ reserve (feed : String × AggregatorInfos),
      feedOf node ctokenConfigs reserve = .ok (some feed) → feed.2.token = id reserve :=
    fun reserve feed hfound ↦ (feedOf_eq_some hfound).2.1
  have hsub := sublist_of_collect hfeed hfeeds
  rw [List.map_id] at hsub
  have hgroup := (Dict.getD_group_sublist (feeds.map fun feed ↦ (feed.1.toLower, feed.2))
    aggr).map AggregatorInfos.token
  rw [List.map_map, List.map_map] at hgroup
  exact hgroup.trans hsub

end Collected

theorem eventFilterConvert_map_txFilter (feeds : List (String × AggregatorInfos)) :
    eventFilterConvert (feeds.map fun feed ↦ txFilter feed.1) = feeds.map Prod.fst := by
  rw [eventFilterConvert, List.flatMap_map]
  exact List.flatMap_pure_eq_map Prod.fst feeds

variable (node ctokenConfigs) in
/-- The signals and the filter describe the aggregators of the markets. -/
structure Describes (reserves : List String) (signals : Signals)
    (signalsEventFilterLight : List (Dict String String)) : Prop where
  /-- A market is mapped to its aggregator, and one without a source is not mapped. -/
  mapped : ∀ token aggr, signals.tokenSignalMap.get? token = some aggr ↔
    token ∈ reserves ∧ ∃ aggregator, aggregator.toLower = aggr ∧
      HasAggregator node ctokenConfigs token aggregator
  /-- The two maps are inverse to each other. -/
  inverse : ∀ token aggr, signals.tokenSignalMap.get? token = some aggr ↔
    token ∈ (signals.signalTokenMap.getD aggr []).map AggregatorInfos.token
  /-- Under an aggregator the markets are in their order, none of them twice. -/
  ordered : ∀ aggr,
    ((signals.signalTokenMap.getD aggr []).map AggregatorInfos.token).Sublist reserves
  /-- What is kept with a market is what its aggregator says. -/
  described : ∀ aggr, ∀ infos ∈ signals.signalTokenMap.getD aggr [],
    ∃ aggregator, HasAggregator node ctokenConfigs infos.token aggregator ∧
      (∃ descr, node.description aggregator = .ok descr ∧
        infos.pairSymbols = aggregatorDescriptionParse descr) ∧
      node.decimals aggregator = .ok infos.priceDecimals
  /-- The light node is asked for these aggregators and no others. -/
  filtered : ∀ aggr, aggr ∈ signals.signalTokenMap.keys ↔
    aggr ∈ (eventFilterConvert signalsEventFilterLight).map String.toLower

/-- **What a signal can be traced to.** -/
theorem initSignals_describes {reserves : List String} {signals : Signals}
    {signalsEventFilterLight : List (Dict String String)}
    (h : initSignals node ctokenConfigs reserves = .ok (signals, signalsEventFilterLight)) :
    Describes node ctokenConfigs reserves signals signalsEventFilterLight := by
  obtain ⟨⟨sourceTokenDic, aggregatorSourceFilter⟩, hquery, h⟩ := exists_of_bind_ok h
  rw [queryReservesAggregator_eq] at hquery
  obtain ⟨feeds, hfeeds, heq⟩ := exists_of_map_ok hquery
  obtain ⟨rfl, rfl⟩ := Prod.mk.inj heq
  obtain ⟨rfl, rfl⟩ := Prod.mk.inj (Except.ok.inj h)
  have hinverse := get?_signalTokenInverse_iff hfeeds
  have hunder := exists_mem_sourceTokens_iff hfeeds
  refine ⟨fun token aggr ↦ (hinverse token aggr).trans (hunder token aggr),
    fun token aggr ↦ (hinverse token aggr).trans List.mem_map.symm,
    sublist_sourceTokens hfeeds, fun aggr infos hinfos ↦ ?_, fun aggr ↦ ?_⟩
  · obtain ⟨-, aggregator, -, haggr, hdescr, hdecimals⟩ := hasAggregator_of_mem hfeeds hinfos
    exact ⟨aggregator, haggr, hdescr, hdecimals⟩
  · change aggr ∈ (sourceTokens feeds).keys ↔ _
    rw [sAlias, List.append_nil, eventFilterConvert_map_txFilter, sourceTokens,
      Dict.mem_keys_group, List.map_map, List.map_map]
    exact Iff.rfl

end Maps

/-! ## A small node -/

/-- Two markets have proxies of one aggregator. -/
def smallFeeds : FeedNode where
  queryAggregator source :=
    if source = "0x1" ∨ source = "0x2" then .ok "0xAB" else .error (.exception "no contract")
  description _ := .ok "BNB / USD"
  decimals _ := .ok 8

/-- The third market has no source. -/
def smallConfigs : Dict String MarketConfigs :=
  ((Dict.set ∅ "0xA" (newCtokenConfigs "0x1" wbnb 18)).set "0xB"
    (newCtokenConfigs "0x2" wbnb 18)).set "0xC" (newCtokenConfigs addressZero wbnb 18)

theorem initSignals_describes_small :
    Describes smallFeeds smallConfigs ["0xA", "0xB", "0xC"]
      (.init (Dict.set ∅ "0xab" [⟨"0xA", ["BNB", "USD"], 8⟩, ⟨"0xB", ["BNB", "USD"], 8⟩]))
      [txFilter "0xAB", txFilter "0xAB"] :=
  initSignals_describes (by decide +kernel)

end CompoundLiquidation
