import CompoundLiquidation.Main.Program

/-!
# Through the callbacks

`on_message` and the periodic part of an idle tick are long, and each of their parts changes one
field or a few. A relation that allows all these changes allows the whole callback. Results about a
callback walk through it by these rules, each with its own relation.
-/

namespace CompoundLiquidation

open Python

section Walks

variable {L : Type} {env : MainEnv L} {S : Type} {K : StatesClass S}

/-! ## Headers -/

section Markets

variable {Q : Globals S → Globals S → Prop}

theorem keeps_refreshExchangeRate (hrefl : ∀ g, Q g g) (htrans : ∀ g g' g'', Q g g' → Q g' g'' →
      Q g g'')
    (hmarket : ∀ token f, Proc.Keeps Q (onStates K (Proc.modify (States.onMarket token f))))
    (node : HeaderNode) (blockNumber : ℕ) :
    Proc.Keeps Q (refreshExchangeRate env K node blockNumber) := by
  rw [refreshExchangeRate]
  by_cases hlen : env.reservesInit.length = 0
  · rw [if_pos hlen]
    exact fun g ↦ hrefl g
  rw [if_neg hlen]
  refine Proc.keeps_bind htrans (Proc.keeps_ofExcept hrefl _) fun tokenAddr ↦ ?_
  refine Proc.keeps_bind htrans (Proc.keeps_ofExcept hrefl _) fun exchangeRate ↦ ?_
  refine Proc.keeps_bind htrans (Proc.keeps_read hrefl) fun g ↦ ?_
  exact Proc.keeps_bind htrans (Proc.keeps_ofExcept hrefl _) fun _ ↦ hmarket tokenAddr _

theorem keeps_revertPrice (hrefl : ∀ g, Q g g) (htrans : ∀ g g' g'', Q g g' → Q g' g'' → Q g g'')
    (hmarket : ∀ token f, Proc.Keeps Q (onStates K (Proc.modify (States.onMarket token f))))
    (clock : String → ℤ) (reserve : String) : Proc.Keeps Q (revertPrice env K clock reserve) := by
  refine Proc.keeps_bind htrans (Proc.keeps_read hrefl) fun g ↦ ?_
  refine Proc.keeps_bind htrans (Proc.keeps_ofExcept hrefl _) fun infos ↦ ?_
  exact Proc.keeps_bind htrans (Proc.keeps_ofExcept hrefl _) fun price ↦ hmarket reserve _

end Markets

variable {R : Main S → Main S → Prop}

/-- `on_message` assigns to markets, to `block_infos`, to the nonces of the accounts and to the
sender. -/
theorem keeps_onMessage {Q : Globals S → Globals S → Prop} (hgrefl : ∀ g, Q g g)
    (hgtrans : ∀ g g' g'', Q g g' → Q g' g'' → Q g g'')
    (hmarket : ∀ token f, Proc.Keeps Q (onStates K (Proc.modify (States.onMarket token f))))
    (hrefl : ∀ m, R m m) (htrans : ∀ m m' m'', R m m' → R m' m'' → R m m'')
    (hglobals : ∀ (m : Main S) (g : Globals S), Q m.globals g → R m { m with globals := g })
    (hblock : ∀ (m : Main S) (infos : ChainInfos), R m { m with blockInfos := infos })
    {node : HeaderNode}
    (haccounts : ∀ m : Main S, R m { m with trading := { m.trading with
      accounts := (resetNonces env node m.trading.accounts).2 } })
    (hsender : ∀ (price : ℤ) (m : Main S), R m { m with
      sender := ((updateSender env node price).run m.sender).2 })
    (clock : String → ℤ) (message : Option BlockHeader) :
    Proc.Keeps R (onMessage env K node clock message) := by
  have hread : ∀ {α : Type} (x : Except Error α), Proc.Keeps R (Proc.ofExcept x) :=
    fun x ↦ Proc.keeps_ofExcept hrefl x
  have honGlobals : ∀ {x : Proc (Globals S) Error Unit}, Proc.Keeps Q x →
      Proc.Keeps R (onGlobals x) := fun hx m ↦ hglobals m _ (hx m.globals)
  rcases message with _ | result
  · exact Proc.keeps_pure hrefl ()
  rw [onMessage]
  refine Proc.keeps_bind htrans (hread _) fun _ ↦ ?_
  refine Proc.keeps_bind htrans (hread _) fun blockNumber ↦ ?_
  refine Proc.keeps_bind htrans (hread _) fun blockTimestamp ↦ ?_
  refine Proc.keeps_bind htrans (hread _) fun baseFee ↦ ?_
  refine Proc.keeps_bind htrans (hread _) fun gasPrice ↦ ?_
  refine Proc.keeps_bind htrans (Proc.keeps_modify fun m ↦ hblock m _) fun _ ↦ ?_
  refine Proc.keeps_bind htrans (honGlobals
    (keeps_refreshExchangeRate hgrefl hgtrans hmarket node _)) fun _ ↦ ?_
  refine Proc.keeps_bind htrans (honGlobals (Proc.keeps_forEach hgrefl hgtrans _ fun reserve _ ↦
    keeps_revertPrice hgrefl hgtrans hmarket clock reserve)) fun _ ↦ ?_
  refine Proc.keeps_bind htrans haccounts fun _ ↦ ?_
  refine Proc.keeps_bind htrans (Proc.keeps_read hrefl) fun m ↦ ?_
  refine Proc.keeps_bind htrans (hread _) fun infos ↦ ?_
  exact Proc.keeps_bind htrans (hread _) hsender

/-! ## Idle ticks -/

/-- An idle tick replaces a list, or assigns health factors, and remembers the block. -/
theorem keeps_idlePeriodic (hrefl : ∀ m, R m m) (htrans : ∀ m m' m'', R m m' → R m' m'' → R m m'')
    (hdetach : ∀ (aggr : String) (m : Main S), R m (m.detach aggr))
    (hupdate : ∀ update, Proc.Keeps R (onGlobals (performUpdate K update)))
    (hprev : ∀ (m : Main S) (n : ℕ), R m { m with prevBlock := n }) (clock : Clock) :
    Proc.Keeps R (idlePeriodic env K clock) := by
  rw [idlePeriodic]
  refine Proc.keeps_bind htrans (Proc.keeps_read hrefl) fun m ↦ ?_
  refine Proc.keeps_ite (fun _ ↦ Proc.keeps_pure hrefl _) fun _ ↦ ?_
  refine Proc.keeps_bind htrans (Proc.keeps_ofExcept hrefl _) fun update ↦ ?_
  have hrest : ∀ update, Proc.Keeps R (do
      onGlobals (performUpdate K update)
      Proc.modify fun m : Main S ↦ { m with prevBlock := m.blockInfos.blockNum }) := fun update ↦
    Proc.keeps_bind htrans (hupdate update) fun _ ↦ Proc.keeps_modify fun m ↦ hprev m _
  cases update with
  | nothing => exact hrest _
  | healthFactors results => exact hrest _
  | preFiltered aggr users =>
    exact Proc.keeps_bind htrans (Proc.keeps_modify (hdetach aggr)) fun _ ↦ hrest _

end Walks

end CompoundLiquidation
