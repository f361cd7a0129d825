import Mathlib.Algebra.Group.Int.Defs

/-!
# Network configuration

The program is configured by two module constants, `NETWORK` and `SELECTOR`. Everything here is a
function of them, so that a result about the program holds for each deployment the tables list and
not only for BSC and `venus`, which the constants name at the moment. Tables keep an entry only
where a modelled function reads it.
-/

namespace CompoundLiquidation

/-- The values of `NETWORK`. -/
inductive Network where
  | ethereum
  | polygon
  | bsc
deriving DecidableEq, Repr

/-- The values of `SELECTOR`. -/
inductive Selector where
  | v2
  | venus
deriving DecidableEq, Repr

/-- `EXP_SCALE`. -/
def expScale : ℤ := 10 ^ 18

theorem expScale_pos : 0 < expScale := by decide

/-- `INTVL`, the block interval in seconds: `CONNECTION[NETWORK]['block_interval']`. -/
def intvl : Network → ℤ
  | .ethereum => 12
  | .polygon => 2
  | .bsc => 3

/-- The entries of `COMPOUND[NETWORK][SELECTOR]` that persistence reads. -/
structure PAlias where
  initBlockNumber : ℤ
  ctokenCongisFile : String
  cometConfigsFile : String
  usersFile : String
  usersFileStatus : ℤ
deriving DecidableEq

/-- `P_ALIAS`. The table has an entry for the two supported deployments; any other pair is a
`KeyError` at import. -/
def pAlias : Network → Selector → Option PAlias
  | .ethereum, .v2 => some
    { initBlockNumber := 7710671
      ctokenCongisFile := "users/ctoken_configs_ethereum_compound_v3.json"
      cometConfigsFile := "users/comet_configs_ethereum_compound_v3.json"
      usersFile := "users/users_ethereum_compound_v3.json"
      usersFileStatus := 1 }
  | .bsc, .venus => some
    { initBlockNumber := 2471511
      ctokenCongisFile := "users/ctoken_configs_bsc_compound_venus.json"
      cometConfigsFile := "users/comet_configs_bsc_compound_venus.json"
      usersFile := "users/users_bsc_compound_venus.json"
      usersFileStatus := 1 }
  | _, _ => none

/-! ## Markets of `RESERVES_ALL` on BSC -/

def vUSDC : String := "0xecA88125a5ADbe82614ffC12D0DB554E2e2867C8"

def vUSDT : String := "0xfD5840Cd36d94D7229439859C0112a4185BC0255"

def vBUSD : String := "0x95c78222B3D6e262426483D42CfA53685A67Ab9D"

def vBNB : String := "0xA07c5b74C9B40447a954e1466938b865b6BBea36"

end CompoundLiquidation
