import CompoundLiquidation.Signals.CtokenPrice
import CompoundLiquidation.Signals.Epoch
import CompoundLiquidation.Signals.Bounds
import CompoundLiquidation.Signals.Decode
import CompoundLiquidation.Comet.Configs
import CompoundLiquidation.Users.HealthFactor
import CompoundLiquidation.Comet.Factors
import CompoundLiquidation.Router.Routs
import CompoundLiquidation.Router.History
import CompoundLiquidation.Transaction.Lock
import CompoundLiquidation.Users.Trim
import CompoundLiquidation.Users.Agreement
import CompoundLiquidation.Users.Supply
import CompoundLiquidation.Users.Interest
import CompoundLiquidation.Users.Windows
import CompoundLiquidation.Bots.Gen
import CompoundLiquidation.Callbacks.Coverage
import CompoundLiquidation.Callbacks.Handover
import CompoundLiquidation.Callbacks.HotLists
import CompoundLiquidation.Callbacks.VaiDebt
import CompoundLiquidation.Liquidation.Dedup
import CompoundLiquidation.Callbacks.HotOrder
import CompoundLiquidation.Router.Search
import CompoundLiquidation.Router.Crossing
import CompoundLiquidation.Callbacks.PriceLoop
import CompoundLiquidation.Router.Orientation
import CompoundLiquidation.Liquidation.Admissible
import CompoundLiquidation.Liquidation.Guards
import CompoundLiquidation.Liquidation.Bundles
import CompoundLiquidation.Callbacks.Sensitivity
import CompoundLiquidation.Transaction.Tip
import CompoundLiquidation.Callbacks.Threshold
import CompoundLiquidation.Callbacks.Removed
import CompoundLiquidation.Analysis.Intersection
import CompoundLiquidation.Analysis.Merge
import CompoundLiquidation.Main.Program
import CompoundLiquidation.Main.Renewal
import CompoundLiquidation.Main.Steps
import CompoundLiquidation.Main.Known
import CompoundLiquidation.Main.Lookups
import CompoundLiquidation.Main.Served
import CompoundLiquidation.Main.Submitted
import CompoundLiquidation.Main.Quotes
import CompoundLiquidation.Main.Headers
import CompoundLiquidation.Main.Bids
import CompoundLiquidation.Main.Nonces
import CompoundLiquidation.Start.Ready
