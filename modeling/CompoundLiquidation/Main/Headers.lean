import CompoundLiquidation.Main.Quotes
import CompoundLiquidation.Main.Served

/-!
# What headers are for

The price of a market is put in use before the chain has it. If the chain never gets it, the price
must not stay, and if an exchange rate moves, no event says so. Both is left to the headers: each of
them takes back the prices that have not been confirmed for five blocks, and asks the node for the
exchange rate of one market, in turn.

So behind a header an unconfirmed price is a young one or has been set since, and as many headers as
there are markets, of consecutive blocks, bring all exchange rates up to date, whatever else happens
in between.
-/

namespace CompoundLiquidation

open Python

/-! ## Moves -/

section Moves

variable {net : Network} {q : Quote}

/-- The price is confirmed, or not older than five blocks. -/
def CtokenPrice.Fresh (net : Network) (now : ℤ) (p : CtokenPrice) : Prop :=
  p.isComfired = true ∨ now ≤ p.lastUpdate + intvl net * 5

theorem CtokenPrice.fresh_revert (now : ℤ) (p : CtokenPrice) :
    (p.revert net now).Fresh net now := by
  rw [revert]
  split_ifs with hout
  · exact .inl rfl
  rw [timedOut, Bool.and_eq_true, not_and, Bool.not_eq_true', decide_eq_true_iff, not_lt] at hout
  cases hflag : p.isComfired with
  | true => exact .inl hflag
  | false => exact .inr (hout hflag)

variable (net) in
/-- No move takes the price object of a market away. -/
theorem exists_price_move {p : CtokenPrice} (hp : q.price = some p) (move : QuoteMove) :
    ∃ p', (q.move net move).price = some p' := by
  cases move with
  | pending newPrice time => exact ⟨_, congrArg (Option.map _) hp⟩
  | confirmed newPrice => exact ⟨_, congrArg (Option.map _) hp⟩
  | timeout now => exact ⟨_, congrArg (Option.map _) hp⟩
  | rate exchangeRate => exact ⟨p, hp⟩

variable (net) in
theorem exists_price_runFrom {p : CtokenPrice} (hp : q.price = some p) (moves : List QuoteMove) :
    ∃ p', (runFrom (Quote.move net) q moves).price = some p' := by
  induction moves generalizing q p with
  | nil => exact ⟨p, hp⟩
  | cons move moves ih =>
    obtain ⟨p', hp'⟩ := exists_price_move net hp move
    exact ih hp'

/-- A price that was fresh is fresh, or it was set by one of the moves. -/
theorem fresh_runFrom {now : ℤ} {p : CtokenPrice} (hp : q.price = some p) (hfresh : p.Fresh net now)
    (moves : List QuoteMove) : ∃ p', (runFrom (Quote.move net) q moves).price = some p' ∧
      (p'.Fresh net now ∨ .pending p'.priceCurrent p'.lastUpdate ∈ moves) := by
  induction moves using List.reverseRecOn with
  | nil => exact ⟨p, hp, .inl hfresh⟩
  | append_singleton moves move ih =>
    obtain ⟨p', hp', hset⟩ := ih
    have hset' := hset.imp_right fun hmem ↦ List.mem_append_left [move] hmem
    rw [runFrom_concat]
    cases move with
    | pending newPrice time =>
      exact ⟨_, congrArg (Option.map _) hp', .inr (List.mem_append_right moves List.mem_cons_self)⟩
    | confirmed newPrice => exact ⟨_, congrArg (Option.map _) hp', .inl (.inl rfl)⟩
    | timeout now' =>
      refine ⟨_, congrArg (Option.map _) hp', ?_⟩
      rw [CtokenPrice.revert]
      split_ifs
      · exact .inl (.inl rfl)
      · exact hset'
    | rate exchangeRate => exact ⟨p', hp', hset'⟩

/-- The move is not one of the exchange rate. -/
def QuoteMove.OnPrice (move : QuoteMove) : Prop := ∀ exchangeRate, move ≠ .rate exchangeRate

/-- Moves of the price leave the exchange rate alone. -/
theorem exchangeRate_runFrom {moves : List QuoteMove} (h : ∀ move ∈ moves, move.OnPrice) :
    (runFrom (Quote.move net) q moves).exchangeRate = q.exchangeRate := by
  induction moves generalizing q with
  | nil => rfl
  | cons move moves ih =>
    obtain ⟨hmove, hmoves⟩ := List.forall_mem_cons.mp h
    refine (ih (q := q.move net move) hmoves).trans ?_
    cases move with
    | pending newPrice time => rfl
    | confirmed newPrice => rfl
    | timeout now => rfl
    | rate exchangeRate => exact absurd rfl (hmove exchangeRate)

end Moves

/-! ## The step of a header -/

section Header

variable {L : Type} {env : MainEnv L} {S : Type} {K : StatesClass S}

variable (env K) in
/-- Every market has a price object. -/
def Main.Priced (m : Main S) : Prop :=
  ∀ reserve ∈ env.reservesInit, ∃ q p, m.quote? K reserve = some q ∧ q.price = some p

/-- Moves leave them. -/
theorem Main.Priced.of_moves {m m' : Main S} (h : m.Priced env K)
    (hmoves : ∀ token, ∃ moves, m'.quote? K token
      = runFrom (moveQuote env.net) (m.quote? K token) moves) : m'.Priced env K := by
  intro reserve hreserve
  obtain ⟨q, p, hq, hp⟩ := h reserve hreserve
  obtain ⟨moves, hquote⟩ := hmoves reserve
  obtain ⟨p', hp'⟩ := exists_price_runFrom env.net hp moves
  rw [hq, runFrom_moveQuote_some] at hquote
  exact ⟨_, p', hquote, hp'⟩

theorem Main.Priced.run (hK : K.Extends) {m : Main S} (h : m.Priced env K) (events : List Event) :
    (runFrom (Main.step env K) m events).Priced env K :=
  h.of_moves fun token ↦
    let ⟨moves, _, hquote⟩ := exists_history hK m token events
    ⟨moves, hquote⟩

variable (env) in
/-- The moves of task 3. -/
def MainEnv.timeouts (clock : String → ℤ) (token : String) : List QuoteMove :=
  env.reservesInit.flatMap fun reserve ↦ if reserve = token then [.timeout (clock token)] else []

theorem mem_timeouts {clock : String → ℤ} {token : String} {move : QuoteMove}
    (h : move ∈ env.timeouts clock token) : move = .timeout (clock token) := by
  obtain ⟨reserve, -, hmove⟩ := List.mem_flatMap.mp h
  split_ifs at hmove
  · exact List.mem_singleton.mp hmove
  · cases hmove

theorem revertPrice_returns (clock : String → ℤ) {reserve : String} {g : Globals S} {q : Quote}
    {p : CtokenPrice} (hq : g.quote? K reserve = some q) (hp : q.price = some p) :
    ∃ g', (revertPrice env K clock reserve).run g = (.ok (), g') := by
  obtain ⟨infos, hinfos, rfl⟩ := Option.map_eq_some_iff.mp hq
  have hprice : infos.price = some p := hp
  rw [revertPrice, Proc.run_bind, Proc.run_read]
  dsimp only
  rw [Proc.run_bind, Proc.run_ofExcept, Dict.item_eq_ok_iff.mpr hinfos]
  dsimp only
  rw [hprice]
  exact ⟨_, rfl⟩

/-- Task 3 goes through when every market has a price object. -/
theorem exists_run_timeouts (clock : String → ℤ) {l : List String} (hl : l ⊆ env.reservesInit)
    {m : Main S} (h : m.Priced env K) :
    ∃ m', (onGlobals (Proc.forEach l (revertPrice env K clock))).run m = (.ok (), m') := by
  rw [onGlobals_forEach]
  induction l generalizing m with
  | nil => exact ⟨m, rfl⟩
  | cons reserve l ih =>
    obtain ⟨hreserve, hl⟩ := List.cons_subset.mp hl
    obtain ⟨q, p, hq, hp⟩ := h reserve hreserve
    obtain ⟨g', hrun⟩ := revertPrice_returns (S := S) (K := K) clock hq hp
    have hpriced := h.of_moves fun token ↦
      let ⟨done, _, hquote, _⟩ := ((replays_revertPrice env K clock token reserve) m trivial).2
      ⟨done, hquote⟩
    have hfirst : (onGlobals (revertPrice env K clock reserve)).run m
        = (.ok (), { m with globals := g' }) := by
      rw [onGlobals, Proc.run_zoom, hrun]
    rw [hfirst] at hpriced
    rw [Proc.forEach_cons, Proc.run_bind_of_ok hfirst]
    exact ih hl hpriced

/-- Task 2 goes through when the node answers for a market that is known. -/
theorem refreshExchangeRate_returns {node : HeaderNode} {blockNumber : ℕ} {g : Globals S}
    {token : String} {exchangeRate : ℤ} {q : Quote}
    (htoken : env.reservesInit[blockNumber % env.reservesInit.length]? = some token)
    (hrate : node.exchangeRateStored token = .ok exchangeRate) (hq : g.quote? K token = some q) :
    ∃ g', (refreshExchangeRate env K node blockNumber).run g = (.ok (), g') := by
  obtain ⟨infos, hinfos, -⟩ := Option.map_eq_some_iff.mp hq
  have hlen : ¬ env.reservesInit.length = 0 := by
    intro hzero
    rw [List.length_eq_zero_iff.mp hzero] at htoken
    cases htoken
  rw [refreshExchangeRate, if_neg hlen, Proc.ofOption, Proc.run_bind, Proc.run_ofExcept, htoken]
  dsimp only [okOr_some]
  rw [Proc.run_bind, Proc.run_ofExcept, hrate]
  dsimp only
  rw [Proc.run_bind, Proc.run_read]
  dsimp only
  rw [Proc.run_bind, Proc.run_ofExcept, Dict.item_eq_ok_iff.mpr hinfos]
  exact ⟨_, rfl⟩

theorem quote?_perform (task : TaskName) (x : Proc (Main S) Error Unit) (m : Main S)
    (token : String) : (m.perform env task x).quote? K token = (x.run m).2.quote? K token := by
  rw [Main.perform]
  rcases x.run m with ⟨e | _, m'⟩
  · exact sameQuote_fail task e token m'
  · rfl

/-- A header whose exchange rate comes assigns it, and takes back prices from the first market on,
those of all markets if each has a price object. -/
theorem exists_timeouts {node : HeaderNode} {clock : String → ℤ} {result : BlockHeader}
    {infos : ChainInfos} {m : Main S} (hruns : ¬ m.Stopped)
    (hinfos : env.headerInfos node result = .ok infos)
    (hrefresh : ∃ g', (refreshExchangeRate env K node infos.blockNum).run m.globals = (.ok (), g'))
    (token : String) : ∃ done, done <+: env.timeouts clock token ∧
      (m.step env K (.header node clock (some result))).quote? K token
        = runFrom (moveQuote env.net) (m.quote? K token)
          (env.rateMoves node infos.blockNum token ++ done) ∧
      (m.Priced env K → done = env.timeouts clock token) := by
  obtain ⟨g', hrefresh⟩ := hrefresh
  let m₁ : Main S := { m with blockInfos := infos }
  let m₂ : Main S := { m₁ with globals := g' }
  have hrun : (onGlobals (refreshExchangeRate env K node infos.blockNum)).run m₁
      = (.ok (), m₂) := by
    rw [onGlobals, Proc.run_zoom, hrefresh]
  have hrate : ∀ token, m₂.quote? K token = runFrom (moveQuote env.net) (m.quote? K token)
      (env.rateMoves node infos.blockNum token) := by
    intro token
    obtain ⟨done, -, hquote, hall⟩ :=
      ((replays_refreshExchangeRate env K node infos.blockNum token) m₁ trivial).2
    rw [hrun] at hquote hall
    rw [hall () rfl] at hquote
    exact hquote
  have hreverts := Proc.replays_forEach fun reserve (_ : reserve ∈ env.reservesInit) ↦
    replays_revertPrice env K clock token reserve
  rw [← onGlobals_forEach] at hreverts
  obtain ⟨-, done, hfirst, hquote, hall⟩ := hreverts m₂ trivial
  refine ⟨done, hfirst, ?_, fun hpriced ↦ ?_⟩
  · have hmarkets : (updateMarkets env K node clock infos).run m
        = (onGlobals (Proc.forEach env.reservesInit (revertPrice env K clock))).run m₂ := by
      rw [updateMarkets, Proc.run_bind_of_ok (Proc.run_modify _ m), Proc.run_bind_of_ok hrun]
    have hstep : m.step env K (.header node clock (some result))
        = m.perform env .header (onMessage env K node clock (some result)) := if_neg hruns
    rw [hstep, quote?_perform, run_onMessage, hinfos]
    dsimp only
    rw [Proc.proj_bind (Main.quote? K token) fun _ m ↦ sameQuote_updateAccounts env K node token m,
      hmarkets, hquote, hrate, runFrom_append]
  · have hpriced' : m₂.Priced env K := hpriced.of_moves fun token ↦ ⟨_, hrate token⟩
    obtain ⟨m', htimeouts⟩ := exists_run_timeouts clock (List.Subset.refl _) hpriced'
    exact hall () (by rw [htimeouts])

/-- The event is a header that is read, and the node answers for the market whose turn it is. -/
inductive Event.Refreshes (env : MainEnv L) (number : ℕ) (clock : String → ℤ) (token : String)
    (exchangeRate : ℤ) : Event → Prop
  | header {node : HeaderNode} {result : BlockHeader} {infos : ChainInfos}
    (read : env.headerInfos node result = .ok infos) (number_eq : infos.blockNum = number)
    (turn : env.reservesInit[number % env.reservesInit.length]? = some token)
    (answer : node.exchangeRateStored token = .ok exchangeRate) :
    Refreshes env number clock token exchangeRate (.header node clock (some result))

/-- Such a header makes all of its moves. -/
theorem Event.Refreshes.quote? {number : ℕ} {clock : String → ℤ} {turn : String}
    {exchangeRate : ℤ} {e : Event} (h : e.Refreshes env number clock turn exchangeRate) {m : Main S}
    (hruns : ¬ m.Stopped) (hpriced : m.Priced env K) (token : String) :
    (m.step env K e).quote? K token = runFrom (moveQuote env.net) (m.quote? K token)
      ((if turn = token then [.rate exchangeRate] else []) ++ env.timeouts clock token) := by
  cases h with
  | @header node result infos read number_eq turn_eq answer =>
    subst number_eq
    obtain ⟨q, p, hq, -⟩ := hpriced turn (List.mem_of_getElem? turn_eq)
    obtain ⟨done, -, hquote, hall⟩ := exists_timeouts hruns read
      (refreshExchangeRate_returns turn_eq answer hq) token
    rw [hquote, hall hpriced, MainEnv.rateMoves, turn_eq]
    by_cases heq : turn = token
    · rw [if_pos heq, if_pos (congrArg some heq), ← heq, answer]
      rfl
    · rw [if_neg heq, if_neg fun h ↦ heq (Option.some_inj.mp h)]

/-! ## Headers of a small program -/

def smallMiner : String := "0x72b61c6014342d914470ec7ac2975be345796c2b"

/-- The surroundings of the small program with one miner. -/
def headerEnv : MainEnv Unit :=
  { smallEnv with lib := staticLibs [(smallMiner, "0x72b61c6014342d914470eC7aC2975bE345796c2b")] }

/-- A node that knows the exchange rates. -/
def headerNode : HeaderNode where
  gasPrice := .ok (5 * 10 ^ 9)
  exchangeRateStored token := .ok (if token = "0xA" then 2 * 10 ^ 18 else 3 * 10 ^ 18)
  getTransactionCount _ := .ok 7
  getBalance _ := .ok (10 ^ 18)

/-- The header of a block. -/
def smallHeader (number : String) : Event :=
  .header headerNode (fun _ ↦ 300) (some ⟨smallMiner, number, "0x12c", none⟩)

theorem refreshes_smallHeader {number : String} {n : ℕ} {token : String}
    (hnumber : int16 number = some (n : ℤ))
    (hturn : headerEnv.reservesInit[n % headerEnv.reservesInit.length]? = some token) :
    (smallHeader number).Refreshes headerEnv n (fun _ ↦ 300) token
      (if token = "0xA" then 2 * 10 ^ 18 else 3 * 10 ^ 18) := by
  have htime : int16 "0x12c" = some 300 := by decide +kernel
  have hminer : headerEnv.lib.toChecksumAddress smallMiner
      = .ok "0x72b61c6014342d914470eC7aC2975bE345796c2b" := by decide
  have hread : headerEnv.headerInfos headerNode ⟨smallMiner, number, "0x12c", none⟩
      = .ok ⟨⟨0, 5 * 10 ^ 9⟩, n, 300⟩ := by
    rw [MainEnv.headerInfos, hminer, hnumber, htime]
    rfl
  exact .header hread rfl hturn rfl

theorem priced_smallMain : smallMain.Priced headerEnv highProfitSates := by
  have hprices : ∀ reserve ∈ headerEnv.reservesInit,
      ((smallMain.quote? highProfitSates reserve).bind Quote.price).isSome := by
    decide
  intro reserve hreserve
  obtain ⟨p, hp⟩ := Option.isSome_iff_exists.mp (hprices reserve hreserve)
  obtain ⟨q, hq, hprice⟩ := Option.bind_eq_some_iff.mp hp
  exact ⟨q, p, hq, hprice⟩

/-! ## Prices -/

variable (env) in
/-- What is left behind the timeouts of a header is fresh. -/
theorem fresh_timeouts (clock : String → ℤ) {token : String} (htoken : token ∈ env.reservesInit)
    {q : Quote} {p : CtokenPrice} (hp : q.price = some p) : ∃ p',
      (runFrom (Quote.move env.net) q (env.timeouts clock token)).price = some p' ∧
        p'.Fresh env.net (clock token) := by
  have hne : env.timeouts clock token ≠ [] := by
    refine List.ne_nil_of_mem (a := .timeout (clock token)) (List.mem_flatMap.mpr
      ⟨token, htoken, ?_⟩)
    rw [if_pos rfl]
    exact List.mem_cons_self
  obtain ⟨moves, last, hlast⟩ := (List.eq_nil_or_concat' _).resolve_left hne
  have htimeout := mem_timeouts (hlast ▸ List.mem_append_right moves List.mem_cons_self)
  obtain ⟨p', hp'⟩ := exists_price_runFrom env.net hp moves
  rw [hlast, htimeout, runFrom_concat]
  exact ⟨_, congrArg (Option.map _) hp', p'.fresh_revert _⟩

/-- **No stale price.** In every state behind a header, the price of a market is confirmed, or it
was not older than five blocks when the header came, or a signal has set it since. -/
theorem no_stale_price (hK : K.Extends) {m : Main S} (hpriced : m.Priced env K)
    {before after : List Event} {e : Event} {number : ℕ} {clock : String → ℤ} {turn : String}
    {exchangeRate : ℤ} (hheader : e.Refreshes env number clock turn exchangeRate)
    (hruns : ¬ (runFrom (Main.step env K) m before).Stopped) {token : String}
    (htoken : token ∈ env.reservesInit) :
    ∃ q p, (runFrom (Main.step env K) m (before ++ e :: after)).quote? K token = some q ∧
      q.price = some p ∧ (p.Fresh env.net (clock token) ∨
        ∃ since e' rest, after = since ++ e' :: rest ∧ .pending p.priceCurrent p.lastUpdate ∈
          (runFrom (Main.step env K) m (before ++ e :: since)).movesOf env token e') := by
  have hpriced' := hpriced.run hK before
  obtain ⟨q, p, hq, hp⟩ := hpriced' token htoken
  have hstep := hheader.quote? hruns hpriced' token
  rw [hq, runFrom_moveQuote_some, runFrom_append, ← runFrom_concat (Main.step env K)] at hstep
  obtain ⟨p₁, hp₁⟩ := exists_price_runFrom env.net hp
    (if turn = token then [.rate exchangeRate] else [])
  obtain ⟨p₂, hp₂, hfresh⟩ := fresh_timeouts env clock htoken hp₁
  -- from here on only a signal sets a price
  obtain ⟨moves, history, hquote⟩ := exists_history hK
    (runFrom (Main.step env K) m (before ++ [e])) token after
  rw [hstep, runFrom_moveQuote_some, ← runFrom_append, ← List.append_cons] at hquote
  obtain ⟨p₃, hp₃, hset⟩ := fresh_runFrom hp₂ hfresh moves
  refine ⟨_, p₃, hquote, hp₃, hset.imp_right fun hmem ↦ ?_⟩
  obtain ⟨since, e', rest, hafter, hmove⟩ := history.exists_event _ hmem
  rw [← runFrom_append, ← List.append_cons] at hmove
  exact ⟨since, e', rest, hafter, hmove⟩

theorem no_stale_price_small : ∃ q p,
    (runFrom (Main.step headerEnv highProfitSates) smallMain
      ([] ++ smallHeader "0x64" :: [smallSignal])).quote? highProfitSates "0xB" = some q ∧
      q.price = some p ∧ (p.Fresh headerEnv.net 300 ∨
        ∃ since e' rest, [smallSignal] = since ++ e' :: rest ∧
          .pending p.priceCurrent p.lastUpdate ∈ (runFrom (Main.step headerEnv highProfitSates)
            smallMain ([] ++ smallHeader "0x64" :: since)).movesOf headerEnv "0xB" e') := by
  have hturn : headerEnv.reservesInit[100 % headerEnv.reservesInit.length]? = some "0xA" := rfl
  exact no_stale_price HighProfitSates.extends_highProfitSates priced_smallMain
    (refreshes_smallHeader (by decide +kernel) hturn)
    (by decide) (by decide)

/-! ## Exchange rates -/

theorem onPrice_pendingMoves (clock : ℕ → ℤ) (token : String) (res : List SignalEntry) (k : ℕ) :
    ∀ move ∈ env.pendingMoves clock token k res, move.OnPrice := by
  induction res generalizing k with
  | nil => exact nofun
  | cons r res ih =>
    intro move hmove
    obtain hfirst | hrest := List.mem_append.mp hmove
    · split_ifs at hfirst
      · rw [List.mem_singleton.mp hfirst]
        exact nofun
      · cases hfirst
    · exact ih (k + 1) move hrest

theorem onPrice_priceMoves (signals : Signals) (response : LogReceiptLight) (token : String) :
    ∀ move ∈ env.priceMoves signals response token, move.OnPrice := by
  intro move hmove
  rw [MainEnv.priceMoves] at hmove
  split at hmove
  · cases hmove
  obtain ⟨log, -, hlog⟩ := List.mem_flatMap.mp hmove
  obtain ⟨info, -, hinfo⟩ := List.mem_flatMap.mp hlog
  rw [MainEnv.confirmMoves] at hinfo
  split_ifs at hinfo
  · obtain ⟨answer, -, rfl⟩ := List.mem_map.mp hinfo
    intro exchangeRate h
    cases h
  · cases hinfo

/-- The exchange rate of a market is assigned by the headers that refresh it and by no other
event. -/
theorem exists_refreshes_of_mem_movesOf {m : Main S} {token : String} {e : Event} {exchangeRate : ℤ}
    (h : .rate exchangeRate ∈ m.movesOf env token e) :
    ∃ number clock, e.Refreshes env number clock token exchangeRate := by
  cases e with
  | prices response => exact absurd rfl (onPrice_priceMoves _ response token _ h exchangeRate)
  | signal clock uniqueId message =>
    rw [Main.movesOf] at h
    split at h
    · cases h
    split at h
    · cases h
    · exact absurd rfl (onPrice_pendingMoves _ token _ 0 _ h exchangeRate)
  | header node clock message =>
    obtain _ | result := message
    · cases h
    rw [Main.movesOf, MainEnv.headerMoves] at h
    split at h
    · cases h
    rename_i infos hinfos
    obtain hrate | htimeout := List.mem_append.mp h
    · rw [MainEnv.rateMoves] at hrate
      split_ifs at hrate with hturn
      · obtain ⟨answer, hanswer, heq⟩ := List.mem_map.mp hrate
        obtain rfl := QuoteMove.rate.inj heq
        refine ⟨infos.blockNum, clock, .header hinfos rfl hturn ?_⟩
        rcases hstored : node.exchangeRateStored token with e | answer'
        · rw [hstored] at hanswer
          cases hanswer
        · rw [hstored] at hanswer
          rw [List.mem_singleton.mp hanswer]
      · cases hrate
    · cases mem_timeouts htimeout
  | users d => cases h
  | comet response => cases h
  | signalDone => cases h
  | idle clock uniqueId => cases h
  | idleDone => cases h
  | receipts receipts => cases h
  | lost task error => cases h

variable (env) in
/-- None of the events refreshes the exchange rate of the token. -/
def NotRefreshed (token : String) (events : List Event) : Prop :=
  ∀ e ∈ events, ∀ number clock exchangeRate, ¬ e.Refreshes env number clock token exchangeRate

/-- Without a header for it, the exchange rate of a market stays. -/
theorem exchangeRate_of_notRefreshed (hK : K.Extends) {m : Main S} {token : String} {q : Quote}
    {events : List Event} (hq : m.quote? K token = some q) (h : NotRefreshed env token events) :
    ∃ q', (runFrom (Main.step env K) m events).quote? K token = some q' ∧
      q'.exchangeRate = q.exchangeRate := by
  obtain ⟨moves, history, hquote⟩ := exists_history hK m token events
  rw [hq, runFrom_moveQuote_some] at hquote
  refine ⟨_, hquote, exchangeRate_runFrom fun move hmove exchangeRate heq ↦ ?_⟩
  obtain ⟨before, e, after, rfl, hmem⟩ := history.exists_event move hmove
  obtain ⟨number, clock, hrefreshes⟩ := exists_refreshes_of_mem_movesOf (heq ▸ hmem)
  exact h e (List.mem_append_right before List.mem_cons_self) number clock exchangeRate hrefreshes

/-- A header assigns the exchange rate of the market whose turn it is. -/
theorem Event.Refreshes.exchangeRate {number : ℕ} {clock : String → ℤ} {token : String}
    {exchangeRate : ℤ} {e : Event} (h : e.Refreshes env number clock token exchangeRate)
    {m : Main S} (hruns : ¬ m.Stopped) (hpriced : m.Priced env K) :
    ∃ q, (m.step env K e).quote? K token = some q ∧ q.exchangeRate = exchangeRate := by
  have hstep := h.quote? hruns hpriced token
  rw [if_pos rfl] at hstep
  cases h with
  | header read number_eq turn answer =>
    obtain ⟨q, p, hq, -⟩ := hpriced token (List.mem_of_getElem? turn)
    rw [hq, runFrom_moveQuote_some, runFrom_append] at hstep
    refine ⟨_, hstep, exchangeRate_runFrom fun move hmove ↦ ?_⟩
    rw [mem_timeouts hmove]
    exact nofun

/-- The last header that refreshed a token. -/
theorem exists_last_refreshes {token : String} {events : List Event}
    (h : ∃ e ∈ events, ∃ number clock exchangeRate,
      e.Refreshes env number clock token exchangeRate) :
    ∃ before e after number clock exchangeRate, events = before ++ e :: after ∧
      e.Refreshes env number clock token exchangeRate ∧ NotRefreshed env token after := by
  induction events using List.reverseRecOn with
  | nil =>
    obtain ⟨e, he, -⟩ := h
    cases he
  | append_singleton events last ih =>
    by_cases hlast : ∃ number clock exchangeRate,
        last.Refreshes env number clock token exchangeRate
    · obtain ⟨number, clock, exchangeRate, hrefreshes⟩ := hlast
      exact ⟨events, last, [], number, clock, exchangeRate, rfl, hrefreshes, nofun⟩
    · have hnot : ∀ number clock exchangeRate,
          ¬ last.Refreshes env number clock token exchangeRate :=
        fun number clock exchangeRate hrefreshes ↦ hlast ⟨number, clock, exchangeRate, hrefreshes⟩
      obtain ⟨e, he, number, clock, exchangeRate, hrefreshes⟩ := h
      obtain hmem | heq := List.mem_append.mp he
      swap
      · rw [List.mem_singleton.mp heq] at hrefreshes
        exact absurd hrefreshes (hnot number clock exchangeRate)
      obtain ⟨before, e', after, number', clock', rate', heq, hrefreshes', hafter⟩ :=
        ih ⟨e, hmem, number, clock, exchangeRate, hrefreshes⟩
      refine ⟨before, e', after ++ [last], number', clock', rate', ?_, hrefreshes', ?_⟩
      · rw [heq, List.append_assoc, List.cons_append]
      · intro e'' he''
        obtain hmem' | heq' := List.mem_append.mp he''
        · exact hafter e'' hmem'
        · exact List.mem_singleton.mp heq' ▸ hnot

/-- In a round of consecutive blocks every market has its turn. -/
theorem exists_turn {α : Type} {l : List α} (n : ℕ) {a : α} (ha : a ∈ l) :
    ∃ k < l.length, l[(n + k) % l.length]? = some a := by
  obtain ⟨i, hi, rfl⟩ := List.mem_iff_getElem.mp ha
  have hpos : 0 < l.length := Nat.zero_lt_of_lt hi
  have hn : n % l.length < l.length := Nat.mod_lt n hpos
  refine ⟨(i + (l.length - n % l.length)) % l.length, Nat.mod_lt _ hpos, ?_⟩
  have hdiv := Nat.mod_add_div n l.length
  have hround : n + (i + (l.length - n % l.length)) = i + l.length * (n / l.length + 1) := by
    rw [Nat.mul_add, Nat.mul_one]
    omega
  rw [Nat.add_mod_mod, hround, Nat.add_mul_mod_self_left, Nat.mod_eq_of_lt hi]
  exact List.getElem?_eq_getElem hi

/-- **Exchange rates are refreshed.** When headers of as many consecutive blocks as there are
markets have been read, and the node has answered for the market of each of them, every market has
the exchange rate of the last header that was for it, and that header is one of the recent
events. -/
theorem rates_refreshed (hK : K.Extends) {m : Main S} (hpriced : m.Priced env K)
    {before recent : List Event}
    (hruns : ¬ (runFrom (Main.step env K) m (before ++ recent)).Stopped) (n : ℕ)
    (hround : ∀ k < env.reservesInit.length, ∃ e ∈ recent, ∃ clock turn exchangeRate,
      e.Refreshes env (n + k) clock turn exchangeRate) {token : String}
    (htoken : token ∈ env.reservesInit) :
    ∃ since e after number clock exchangeRate, recent = since ++ e :: after ∧
      e.Refreshes env number clock token exchangeRate ∧ NotRefreshed env token after ∧
      ∃ q, (runFrom (Main.step env K) m (before ++ recent)).quote? K token = some q ∧
        q.exchangeRate = exchangeRate := by
  obtain ⟨k, hk, hturn⟩ := exists_turn n htoken
  obtain ⟨e, he, clock, turn, exchangeRate, hrefreshes⟩ := hround k hk
  have hrefreshed : e.Refreshes env (n + k) clock token exchangeRate := by
    cases hrefreshes with
    | header read number_eq turn_eq answer =>
      obtain rfl := Option.some_inj.mp (hturn.symm.trans turn_eq)
      exact .header read number_eq turn_eq answer
  obtain ⟨since, e', after, number', clock', rate', heq, hlast, hafter⟩ :=
    exists_last_refreshes ⟨e, he, n + k, clock, exchangeRate, hrefreshed⟩
  refine ⟨since, e', after, number', clock', rate', heq, hlast, hafter, ?_⟩
  have hsince : ¬ (runFrom (Main.step env K) m (before ++ since)).Stopped := by
    intro hstopped
    refine hruns ?_
    rw [heq, ← List.append_assoc, runFrom_append]
    exact stopped_run hstopped _
  obtain ⟨q, hq, hrate⟩ := hlast.exchangeRate hsince (hpriced.run hK (before ++ since))
  obtain ⟨q', hq', hsame⟩ := exchangeRate_of_notRefreshed hK hq hafter
  refine ⟨q', ?_, hsame.trans hrate⟩
  rw [heq, ← List.append_assoc, runFrom_append, ← hq']
  rfl

theorem rates_refreshed_small : ∃ since e after number clock exchangeRate,
    [smallHeader "0x64", .signalDone, smallHeader "0x65"] = since ++ e :: after ∧
      e.Refreshes headerEnv number clock "0xB" exchangeRate ∧ NotRefreshed headerEnv "0xB" after ∧
      ∃ q, (runFrom (Main.step headerEnv highProfitSates) smallMain
        ([] ++ [smallHeader "0x64", .signalDone, smallHeader "0x65"])).quote? highProfitSates "0xB"
          = some q ∧ q.exchangeRate = exchangeRate := by
  refine rates_refreshed HighProfitSates.extends_highProfitSates priced_smallMain
    (by decide +kernel) 100 (fun k hk ↦ ?_) (by decide +kernel)
  have hcases : k = 0 ∨ k = 1 := by
    have htwo : headerEnv.reservesInit.length = 2 := rfl
    omega
  obtain rfl | rfl := hcases
  · exact ⟨smallHeader "0x64", List.mem_cons_self, _, "0xA", _,
      refreshes_smallHeader (by decide +kernel) (by decide +kernel)⟩
  · exact ⟨smallHeader "0x65", List.mem_cons_of_mem _ (List.mem_cons_of_mem _ List.mem_cons_self),
      _, "0xB", _, refreshes_smallHeader (by decide +kernel) (by decide +kernel)⟩

end Header

end CompoundLiquidation
