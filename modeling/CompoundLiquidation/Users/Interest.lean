import CompoundLiquidation.Users.Agreement

/-!
# Interest indices

A record with a debt holds the index of its market at the time of the debt, and the current debt is
the debt scaled by the current index over this one. The quotient is a floor division, so an index of
zero raises where the debt is used.

A log that sets a debt sets the index with it. The index could still be lost in a merge, which adds
two debts and keeps the first index unless it is zero. What excludes this is that a record of the
cache and the record of the parent that is added to it are the same object, or the former was made
blank by the cache. In the second case its index is positive as soon as a debt was set, and up to
then it holds nothing but copies of what the parent's record holds (`IndexedOver`).
-/

namespace CompoundLiquidation

open Python

/-! ## Records -/

namespace CompReserve

/-- A debt comes with an index. -/
def Indexed (r : CompReserve) : Prop := 0 < r.debtAmount → 0 < r.debtInterest

/-- A record made blank by the cache, over the record `p` of the parent. -/
def IndexedOver (r p : CompReserve) : Prop :=
  0 < r.debtInterest ∨ (r.debtAmount ≤ 0 ∧ (r.debtInterest ≠ 0 → p.debtAmount ≤ 0))

/-- The debt was set together with an index, or nothing happened to it. -/
def DebtKept (r r' : CompReserve) : Prop :=
  0 < r'.debtInterest ∨ (r'.debtAmount = r.debtAmount ∧ r'.debtInterest = r.debtInterest)

theorem DebtKept.refl (r : CompReserve) : r.DebtKept r := .inr ⟨rfl, rfl⟩

theorem indexed_newReserve : newReserve.Indexed := fun h ↦ absurd h (lt_irrefl 0)

theorem indexedOver_newReserve (p : CompReserve) : newReserve.IndexedOver p :=
  .inr ⟨le_rfl, fun h ↦ absurd rfl h⟩

theorem IndexedOver.indexed {r p : CompReserve} (h : r.IndexedOver p) : r.Indexed := by
  intro hdebt
  rcases h with hpos | ⟨hnone, -⟩
  · exact hpos
  · omega

theorem Indexed.of_debtKept {r r' : CompReserve} (h : r.Indexed) (hkept : r.DebtKept r') :
    r'.Indexed := by
  rcases hkept with hpos | ⟨hdebt, hindex⟩
  · exact fun _ ↦ hpos
  · rw [Indexed, hdebt, hindex]
    exact h

theorem IndexedOver.of_debtKept {r r' p : CompReserve} (h : r.IndexedOver p)
    (hkept : r.DebtKept r') : r'.IndexedOver p := by
  rcases hkept with hpos | ⟨hdebt, hindex⟩
  · exact .inl hpos
  · rw [IndexedOver, hdebt, hindex]
    exact h

/-- A record that is added to itself. -/
theorem Indexed.absorb_self {r : CompReserve} (h : r.Indexed) : (r.absorb r).Indexed := by
  intro hdebt
  have hindex : (r.absorb r).debtInterest = r.debtInterest := by
    rw [absorb, ite_eq_right_iff]
    exact fun _ ↦ rfl
  have hsum : (r.absorb r).debtAmount = r.debtAmount + r.debtAmount := rfl
  rw [hindex]
  exact h (by omega)

theorem IndexedOver.absorb {r p : CompReserve} (h : r.IndexedOver p) (hp : p.Indexed) :
    (r.absorb p).IndexedOver p := by
  have hsum : (r.absorb p).debtAmount = r.debtAmount + p.debtAmount := rfl
  have hindex : (r.absorb p).debtInterest
      = if r.debtInterest = 0 then p.debtInterest else r.debtInterest := rfl
  rw [IndexedOver, hsum, hindex]
  rw [IndexedOver] at h
  by_cases hzero : r.debtInterest = 0
  · rw [if_pos hzero]
    by_cases hdebt : 0 < p.debtAmount
    · exact .inl (hp hdebt)
    · exact .inr ⟨by omega, fun _ ↦ by omega⟩
  · rw [if_neg hzero]
    rcases h with hpos | ⟨hnone, hover⟩
    · exact .inl hpos
    · have := hover hzero
      exact .inr ⟨by omega, fun _ ↦ by omega⟩

end CompReserve

/-- The record of a user in a market. -/
def recordOf (users : Dict String UserStates) (u key : String) : Option CompReserve :=
  (users.get? u).bind (·.reserves.get? key)

/-- Every record with a debt has an index. -/
def AllIndexed (users : Dict String UserStates) : Prop :=
  ∀ u key r, recordOf users u key = some r → r.Indexed

/-! ## Merging -/

namespace HighProfitSates

/-- A record of the parent after the objects in common were written is one of the cache or one of
the parent. -/
theorem recordOf_writeThrough {h : HighProfitSates} {u key : String} {p : CompReserve}
    (hp : recordOf h.writeThrough.parentUsers u key = some p) :
    recordOf h.usersStates u key = some p ∨ recordOf h.parentUsers u key = some p := by
  rw [recordOf, get?_writeThrough] at hp
  rw [recordOf, recordOf]
  rcases hold : h.parentUsers.get? u with _ | old
  · rw [hold] at hp
    cases hp
  rw [hold, Option.map_some, Option.bind_some, syncUser] at hp
  rcases hown : h.usersStates.get? u with _ | own
  · rw [hown] at hp
    exact .inr hp
  rw [hown] at hp
  simp only [Option.bind_some]
  by_cases hu : u ∈ h.sharedUsers
  · simp only [if_pos hu] at hp
    exact .inl hp
  simp only [if_neg hu, Dict.get?_mapWithKey, Option.map_eq_some_iff] at hp
  obtain ⟨q, hq, rfl⟩ := hp
  by_cases hkey : (u, key) ∈ h.sharedReserves
  · rw [if_pos hkey]
    rcases hr : own.reserves.get? key with _ | r
    · rw [Dict.getD_of_get?_eq_none hr]
      exact .inr hq
    · rw [Dict.getD_of_get? hr]
      exact .inl rfl
  · rw [if_neg hkey]
    exact .inr hq

/-- A record that is not in common stays as it is in the parent. -/
theorem recordOf_writeThrough_apart {h : HighProfitSates} {u key : String}
    (hu : u ∉ h.sharedUsers) (hkey : (u, key) ∉ h.sharedReserves) :
    recordOf h.writeThrough.parentUsers u key = recordOf h.parentUsers u key := by
  rw [recordOf, recordOf, get?_writeThrough]
  rcases hold : h.parentUsers.get? u with _ | old
  · rfl
  rw [Option.map_some, Option.bind_some, Option.bind_some, syncUser]
  rcases hown : h.usersStates.get? u with _ | own
  · rfl
  · simp only [if_neg hu, Dict.get?_mapWithKey, if_neg hkey, Option.map_id']

theorem recordOf_mergeReserves (v : String) (old : UserStates) (h : HighProfitSates)
    {u : String} (hv : ∃ own, h.usersStates.get? v = some own) (key : String) :
    recordOf (h.mergeReserves v old).usersStates u key = if u = v then
      match recordOf h.usersStates v key, old.reserves.get? key with
      | some r, some p => some (r.absorb p)
      | some r, none => some r
      | none, p => p
    else recordOf h.usersStates u key := by
  have hget : (h.mergeReserves v old).usersStates.get? u = if u = v then
      (h.usersStates.get? u).map fun own ↦
        { own with reserves := own.reserves.mergeWith CompReserve.absorb old.reserves }
      else h.usersStates.get? u := Dict.get?_modify h.usersStates v u _
  rw [recordOf, hget]
  by_cases hu : u = v
  · obtain ⟨own, hown⟩ := hv
    subst hu
    rw [if_pos rfl, if_pos rfl, recordOf, hown, Option.map_some, Option.bind_some,
      Option.bind_some]
    refine (Dict.get?_mergeWith CompReserve.absorb own.reserves old.reserves key).trans ?_
    rcases own.reserves.get? key with _ | r
    · rfl
    · rcases old.reserves.get? key with _ | p
      · rfl
      · rfl
  · rw [if_neg hu, if_neg hu, recordOf]

/-- Of two copies in common the parent's is the cache's. -/
theorem Consistent.recordOf_eq {h : HighProfitSates} (hc : h.Consistent) {u key : String}
    (hin : u ∈ h.sharedUsers ∨ (u, key) ∈ h.sharedReserves) {r p : CompReserve}
    (hr : recordOf h.usersStates u key = some r) (hp : recordOf h.parentUsers u key = some p) :
    p = r := by
  rcases hold : h.parentUsers.get? u with _ | old
  · rw [recordOf, hold] at hp
    cases hp
  rcases hown : h.usersStates.get? u with _ | own
  · rw [recordOf, hown] at hr
    cases hr
  rw [recordOf, hown, Option.bind_some] at hr
  rw [recordOf, hold, Option.bind_some] at hp
  by_cases hu : u ∈ h.sharedUsers
  · obtain ⟨own', hown', hparent⟩ := hc.shared u hu
    rw [Option.some_inj.mp (hold.symm.trans hparent),
      ← Option.some_inj.mp (hown.symm.trans hown'), hr] at hp
    exact (Option.some_inj.mp hp).symm
  · have hkey := hin.resolve_left hu
    have hsync := congrArg (·.reserves.get? key) (hc.synced u old hold)
    rw [syncUser, hown] at hsync
    simp only [if_neg hu, Dict.get?_mapWithKey, if_pos hkey, hp, Option.map_some,
      Dict.getD_of_get? hr, Option.some_inj] at hsync
    exact hsync.symm

end HighProfitSates

/-- Cache and parent as far as the indices are concerned. -/
structure CacheIndexed (h : HighProfitSates) : Prop where
  consistent : h.Consistent
  own : AllIndexed h.usersStates
  parent : AllIndexed h.parentUsers
  /-- A record of the cache that is not in common with the parent. -/
  apart : ∀ u key r p, u ∉ h.sharedUsers → (u, key) ∉ h.sharedReserves →
    recordOf h.usersStates u key = some r → recordOf h.parentUsers u key = some p →
    r.IndexedOver p

namespace CacheIndexed

variable {h : HighProfitSates}

theorem new {fullStates : States} (hfull : AllIndexed fullStates.usersStates) (profitThres : ℚ) :
    CacheIndexed (HighProfitSates.new fullStates profitThres) where
  consistent := HighProfitSates.consistent_new fullStates profitThres
  own u key r hr := by
    rcases hown : (HighProfitSates.new fullStates profitThres).usersStates.get? u with _ | own
    · rw [recordOf, hown] at hr
      cases hr
    · obtain ⟨own', hown', hparent⟩ :=
        (HighProfitSates.consistent_new fullStates profitThres).shared u
          (Dict.mem_keys_iff.mpr ⟨own, hown⟩)
      refine hfull u key r ?_
      rw [recordOf, hown'] at hr
      have hsame : fullStates.usersStates.get? u = some own' := hparent
      rwa [recordOf, hsame]
  parent := hfull
  apart u key r p hu _ hr _ := by
    -- every user the cache starts with is in common
    rcases hown : (HighProfitSates.new fullStates profitThres).usersStates.get? u with _ | own
    · rw [recordOf, hown] at hr
      cases hr
    · exact absurd (Dict.mem_keys_iff.mpr ⟨own, hown⟩) hu

/-- Writing records that keep their debts, or get an index with them. -/
theorem withStates (hc : CacheIndexed h) {s' : States} (hconsistent : (h.withStates s').Consistent)
    (hkept : ∀ u key r', recordOf s'.usersStates u key = some r' →
      ((recordOf h.usersStates u key).getD newReserve).DebtKept r') :
    CacheIndexed (h.withStates s') := by
  have hbefore : ∀ u key, ((recordOf h.usersStates u key).getD newReserve).Indexed := by
    intro u key
    rcases hr : recordOf h.usersStates u key with _ | r
    · exact CompReserve.indexed_newReserve
    · exact hc.own u key r hr
  have hown : AllIndexed s'.usersStates := fun u key r' hr' ↦
    (hbefore u key).of_debtKept (hkept u key r' hr')
  refine ⟨hconsistent, hown, fun u key p hp ↦ ?_, fun u key r' p hu hkey hr' hp ↦ ?_⟩
  · rcases HighProfitSates.recordOf_writeThrough hp with hp | hp
    · exact hown u key p hp
    · exact hc.parent u key p hp
  · have hu' : u ∉ HighProfitSates.sharedUsers { h with toStates := s' } := hu
    have hp' : recordOf h.parentUsers u key = some p :=
      (HighProfitSates.recordOf_writeThrough_apart hu' hkey).symm.trans hp
    have hover : ((recordOf h.usersStates u key).getD newReserve).IndexedOver p := by
      rcases hr : recordOf h.usersStates u key with _ | r
      · exact CompReserve.indexedOver_newReserve p
      · exact hc.apart u key r p hu hkey hr hp'
    exact hover.of_debtKept (hkept u key r' hr')

/-- A merge keeps every index. -/
theorem mergeUser (hc : CacheIndexed h) {v : String}
    (hv : ∃ own, h.usersStates.get? v = some own) : CacheIndexed (h.mergeUser v) := by
  have hconsistent := hc.consistent.mergeUser hv
  rw [HighProfitSates.mergeUser] at hconsistent ⊢
  rcases hold : h.parentUsers.get? v with _ | old
  · exact hc
  rw [hold] at hconsistent
  simp only at hconsistent ⊢
  have hparent : ∀ key, recordOf h.parentUsers v key = old.reserves.get? key := by
    intro key
    rw [recordOf, hold, Option.bind_some]
  have hown : AllIndexed (h.mergeReserves v old).usersStates := by
    intro u key r' hr'
    rw [HighProfitSates.recordOf_mergeReserves v old h hv] at hr'
    by_cases hu : u = v
    · rw [if_pos hu] at hr'
      rcases hr : recordOf h.usersStates v key with _ | r
      · rw [hr] at hr'
        exact hc.parent v key r' ((hparent key).trans hr')
      rcases hp : old.reserves.get? key with _ | p
      · rw [hr, hp] at hr'
        rw [← Option.some_inj.mp hr']
        exact hc.own v key r hr
      rw [hr, hp] at hr'
      rw [← Option.some_inj.mp hr']
      have hp' : recordOf h.parentUsers v key = some p := (hparent key).trans hp
      by_cases hin : v ∈ h.sharedUsers ∨ (v, key) ∈ h.sharedReserves
      · rw [hc.consistent.recordOf_eq hin hr hp']
        exact (hc.own v key r hr).absorb_self
      · rw [not_or] at hin
        exact ((hc.apart v key r p hin.1 hin.2 hr hp').absorb (hc.parent v key p hp')).indexed
    · rw [if_neg hu] at hr'
      exact hc.own u key r' hr'
  refine ⟨hconsistent, hown, fun u key p hp ↦ ?_, fun u key r' p hu hkey hr' hp ↦ ?_⟩
  · rcases HighProfitSates.recordOf_writeThrough hp with hp | hp
    · exact hown u key p hp
    · exact hc.parent u key p hp
  · have hu' : u ∉ (h.mergeReserves v old).sharedUsers := hu
    have hp' : recordOf h.parentUsers u key = some p :=
      (HighProfitSates.recordOf_writeThrough_apart hu' hkey).symm.trans hp
    have hkey' : (u, key) ∉ h.sharedReserves := fun hmem ↦ hkey (List.mem_append_left _ hmem)
    have hr := (HighProfitSates.recordOf_mergeReserves v old h hv key).symm.trans hr'
    by_cases huv : u = v
    · subst huv
      rw [if_pos rfl, ← hparent key, hp'] at hr
      rcases hrec : recordOf h.usersStates u key with _ | r
      · -- a record that comes from the parent is in common from now on
        have hmissing : (u, key) ∈ (h.mergeReserves u old).sharedReserves := by
          refine List.mem_append_right _ (List.mem_map.mpr ⟨key, List.mem_filter.mpr ⟨?_, ?_⟩, rfl⟩)
          · exact Dict.mem_keys_iff.mpr ⟨p, (hparent key).symm.trans hp'⟩
          · rw [recordOf] at hrec
            rw [hrec]
            rfl
        exact absurd hmissing hkey
      · rw [hrec] at hr
        rw [← Option.some_inj.mp hr]
        exact (hc.apart u key r p hu hkey' hrec hp').absorb (hc.parent u key p hp')
    · rw [if_neg huv] at hr
      exact hc.apart u key r' p hu hkey' hr hp'

theorem mergeUsers (l : List String) : ∀ {h : HighProfitSates}, CacheIndexed h →
    (∀ v ∈ l, ∃ own, h.usersStates.get? v = some own) → CacheIndexed (h.mergeUsers l) := by
  induction l with
  | nil => exact fun hc _ ↦ hc
  | cons v l ih =>
    intro h hc hcached
    exact ih (hc.mergeUser (hcached v List.mem_cons_self)) fun w hw ↦
      HighProfitSates.get?_mergeUser_some (hcached w (List.mem_cons_of_mem v hw))

end CacheIndexed

/-! ## Logs -/

/-- The log sets the index of a market. -/
def LogReceipt.Accrues (lib : EthLibs) (log : LogReceipt) (reserve : String) (index : ℤ) : Prop :=
  ∃ interest total, States.logChange lib log
    = some (reserve, .accrueInterest interest index total)

/-- The log sets the debt of a user in a market. -/
def LogReceipt.SetsDebt (lib : EthLibs) (log : LogReceipt) (reserve : String) : Prop :=
  ∃ borrower amount total, States.logChange lib log = some (reserve, .debt borrower amount total)

/-- Every index that is set is positive. -/
def AccruedPositive (lib : EthLibs) (logs : List LogReceipt) : Prop :=
  ∀ log ∈ logs, ∀ reserve index, log.Accrues lib reserve index → 0 < index

/-- Every market has a positive index from the start, or one is set before the first debt. -/
def IndexFirst (lib : EthLibs) (ctk : Dict String CtokenInfos) (logs : List LogReceipt) : Prop :=
  ∀ reserve, (∃ infos, ctk.get? reserve = some infos ∧ 0 < infos.risks.borrowIndex) ∨
    ∀ past log, past ++ [log] <+: logs → log.SetsDebt lib reserve →
      ∃ log' ∈ past, ∃ index, log'.Accrues lib reserve index

/-- Debts are set in known markets only. -/
def DebtsListed (lib : EthLibs) (ctk : Dict String CtokenInfos) (logs : List LogReceipt) : Prop :=
  ∀ log ∈ logs, ∀ reserve, log.SetsDebt lib reserve → reserve ∈ ctk.keys

/-- What a log does to the cToken data. -/
def LogReceipt.onCtokens (lib : EthLibs) (log : LogReceipt) (ctk : Dict String CtokenInfos) :
    Dict String CtokenInfos :=
  match States.logChange lib log with
  | some (reserve, change) => change.onCtokens reserve ctk
  | none => ctk

theorem UsersChange.keys_onCtokens (reserve : String) (change : UsersChange)
    (ctk : Dict String CtokenInfos) : (change.onCtokens reserve ctk).keys = ctk.keys := by
  rcases change with ⟨fromUser, toUser, amount⟩ | _ | _ | _ | _
  · simp only [UsersChange.onCtokens]
    split_ifs
    · rw [Dict.keys_modify, Dict.keys_modify]
    · rw [Dict.keys_modify]
    · rw [Dict.keys_modify]
    · rfl
  all_goals exact Dict.keys_modify _ _ _

/-- Only an accrual gets at the index of its market. -/
theorem UsersChange.borrowIndex_onCtokens {reserve key : String} {change : UsersChange}
    {ctk : Dict String CtokenInfos} {infos' : CtokenInfos}
    (h : (change.onCtokens reserve ctk).get? key = some infos') :
    ∃ infos, ctk.get? key = some infos ∧ infos'.risks.borrowIndex = match change with
      | .accrueInterest _ index _ => if key = reserve then index else infos.risks.borrowIndex
      | _ => infos.risks.borrowIndex := by
  have hmodify : ∀ {ctk : Dict String CtokenInfos} {f : CtokenInfos → CtokenInfos} {infos'},
      (ctk.modify reserve f).get? key = some infos' →
      (∀ infos, (f infos).risks.borrowIndex = infos.risks.borrowIndex) →
      ∃ infos, ctk.get? key = some infos ∧ infos'.risks.borrowIndex = infos.risks.borrowIndex := by
    intro ctk f infos' h hf
    rw [Dict.get?_modify] at h
    by_cases hkey : key = reserve
    · rw [if_pos hkey, Option.map_eq_some_iff] at h
      obtain ⟨infos, hinfos, rfl⟩ := h
      exact ⟨infos, hinfos, hf infos⟩
    · rw [if_neg hkey] at h
      exact ⟨infos', h, rfl⟩
  rcases change with ⟨fromUser, toUser, amount⟩ | _ | ⟨interest, index, total⟩ | _ | _
  · simp only [UsersChange.onCtokens] at h
    split_ifs at h
    · obtain ⟨infos₁, h₁, hindex₁⟩ := hmodify h fun _ ↦ rfl
      obtain ⟨infos, hinfos, hindex⟩ := hmodify h₁ fun _ ↦ rfl
      exact ⟨infos, hinfos, hindex₁.trans hindex⟩
    · exact hmodify h fun _ ↦ rfl
    · exact hmodify h fun _ ↦ rfl
    · exact ⟨infos', h, rfl⟩
  · exact hmodify h fun _ ↦ rfl
  · simp only [UsersChange.onCtokens] at h
    rw [Dict.get?_modify] at h
    by_cases hkey : key = reserve
    · rw [if_pos hkey, Option.map_eq_some_iff] at h
      obtain ⟨infos, hinfos, rfl⟩ := h
      exact ⟨infos, hinfos, (if_pos hkey).symm⟩
    · rw [if_neg hkey] at h
      exact ⟨infos', h, (if_neg hkey).symm⟩
  · exact hmodify h fun _ ↦ rfl
  · exact hmodify h fun _ ↦ rfl

/-- The cToken data of a state that was given some logs: no market is lost, and one that had a
positive index, or was given an index since, has a positive one. -/
structure IndexReady (lib : EthLibs) (ctk₀ : Dict String CtokenInfos) (past : List LogReceipt)
    (ctk : Dict String CtokenInfos) : Prop where
  keys : ctk.keys = ctk₀.keys
  positive : ∀ reserve infos, ctk.get? reserve = some infos →
    ((∃ infos₀, ctk₀.get? reserve = some infos₀ ∧ 0 < infos₀.risks.borrowIndex) ∨
      ∃ log ∈ past, ∃ index, log.Accrues lib reserve index) → 0 < infos.risks.borrowIndex

section Index

variable {lib : EthLibs} {ctk₀ ctk : Dict String CtokenInfos} {logs past : List LogReceipt}
  {log : LogReceipt}

theorem indexReady_nil (lib : EthLibs) (ctk : Dict String CtokenInfos) :
    IndexReady lib ctk [] ctk := by
  refine ⟨rfl, fun reserve infos hinfos hknown ↦ ?_⟩
  rcases hknown with ⟨infos₀, hinfos₀, hpos⟩ | ⟨log, hlog, -⟩
  · rwa [Option.some_inj.mp (hinfos.symm.trans hinfos₀)]
  · exact absurd hlog List.not_mem_nil

theorem IndexReady.step (h : IndexReady lib ctk₀ past ctk)
    (hpos : ∀ reserve index, log.Accrues lib reserve index → 0 < index) :
    IndexReady lib ctk₀ (past ++ [log]) (log.onCtokens lib ctk) := by
  rcases hchange : States.logChange lib log with _ | ⟨market, change⟩
  · have hsame : log.onCtokens lib ctk = ctk := by rw [LogReceipt.onCtokens, hchange]
    rw [hsame]
    refine ⟨h.keys, fun reserve infos hinfos hknown ↦ h.positive reserve infos hinfos ?_⟩
    refine hknown.imp_right fun ⟨log', hlog', index, haccrues⟩ ↦ ?_
    rcases List.mem_append.mp hlog' with hpast | hnew
    · exact ⟨log', hpast, index, haccrues⟩
    · obtain ⟨interest, total, hacc⟩ := haccrues
      rw [List.mem_singleton.mp hnew, hchange] at hacc
      cases hacc
  · have hsome : log.onCtokens lib ctk = change.onCtokens market ctk := by
      rw [LogReceipt.onCtokens, hchange]
    rw [hsome]
    refine ⟨(UsersChange.keys_onCtokens market change ctk).trans h.keys,
      fun reserve infos' hinfos' hknown ↦ ?_⟩
    obtain ⟨infos, hinfos, hindex⟩ := UsersChange.borrowIndex_onCtokens hinfos'
    by_cases hacc : ∃ index, log.Accrues lib reserve index
    · obtain ⟨index, interest, total, hacc⟩ := hacc
      obtain ⟨rfl, rfl⟩ := Prod.mk.inj (Option.some_inj.mp (hchange.symm.trans hacc))
      rw [hindex]
      simp only [if_true]
      exact hpos market index ⟨interest, total, hacc⟩
    · -- any other log leaves the index of this market alone
      have hkept : infos'.risks.borrowIndex = infos.risks.borrowIndex := by
        rw [hindex]
        rcases change with _ | _ | ⟨interest, index, total⟩ | _ | _
        · rfl
        · rfl
        · refine if_neg ?_
          rintro rfl
          exact hacc ⟨index, interest, total, hchange⟩
        · rfl
        · rfl
      rw [hkept]
      refine h.positive reserve infos hinfos (hknown.imp_right fun ⟨log', hlog', index, hl⟩ ↦ ?_)
      rcases List.mem_append.mp hlog' with hpast | hnew
      · exact ⟨log', hpast, index, hl⟩
      · exact absurd ⟨index, List.mem_singleton.mp hnew ▸ hl⟩ hacc

/-- Where a debt is set its market has a positive index. -/
theorem IndexReady.index_of_debt (h : IndexReady lib ctk₀ past ctk)
    (hfirst : IndexFirst lib ctk₀ logs) (hlisted : DebtsListed lib ctk₀ logs)
    (hpre : past ++ [log] <+: logs) {reserve : String} (hdebt : log.SetsDebt lib reserve) :
    ∃ infos, ctk.get? reserve = some infos ∧ 0 < infos.risks.borrowIndex := by
  have hmem : log ∈ logs := hpre.subset (List.mem_append_right past List.mem_cons_self)
  obtain ⟨infos, hinfos⟩ := Dict.mem_keys_iff.mp (h.keys ▸ hlisted log hmem reserve hdebt)
  refine ⟨infos, hinfos, h.positive reserve infos hinfos ?_⟩
  exact (hfirst reserve).imp_right fun hbefore ↦ hbefore past log hpre hdebt

/-- A log keeps the debts, or sets them with an index. -/
theorem debtKept_of_applied {reserve : String} {change : UsersChange} {s s' : States}
    (hs : Applied reserve change s s') (hdebt : ∀ borrower amount total,
      change = .debt borrower amount total →
      ∃ infos, s.ctokens.get? reserve = some infos ∧ 0 < infos.risks.borrowIndex)
    {u key : String} {r' : CompReserve} (hr' : recordOf s'.usersStates u key = some r') :
    ((recordOf s.usersStates u key).getD newReserve).DebtKept r' := by
  have husers := hs.users u
  rcases hpost : change.post s.ctokens reserve u with _ | f
  · rw [hpost] at husers
    have hsame : recordOf s'.usersStates u key = recordOf s.usersStates u key := by
      rw [recordOf, recordOf, husers]
    rw [← hsame, hr']
    exact CompReserve.DebtKept.refl r'
  rw [hpost] at husers
  have hkeep : ∀ r : CompReserve, r.DebtKept (f r) := by
    intro r
    rcases change with ⟨fromUser, toUser, amount⟩ | ⟨borrower, amount, total⟩ | _ | _ | _
    · rw [UsersChange.post] at hpost
      by_cases hu : u = fromUser ∨ u = toUser
      · rw [if_pos hu, Option.some_inj] at hpost
        rw [← hpost]
        refine .inr ⟨?_, ?_⟩
        · dsimp only
          split_ifs <;> rfl
        · dsimp only
          split_ifs <;> rfl
      · rw [if_neg hu] at hpost
        cases hpost
    · obtain ⟨infos, hinfos, hpos⟩ := hdebt borrower amount total rfl
      rw [UsersChange.post] at hpost
      by_cases hu : u = borrower
      · rw [if_pos hu, Option.some_inj] at hpost
        rw [← hpost]
        simp only [hinfos]
        exact .inl hpos
      · rw [if_neg hu] at hpost
        cases hpost
    all_goals cases hpost
  have hrecord : recordOf s'.usersStates u key = if key = reserve then
      some (f ((recordOf s.usersStates u reserve).getD newReserve))
      else recordOf s.usersStates u key := by
    have hbefore : ∀ k, (s.usersStates.getD u newUserStates).reserves.get? k
        = recordOf s.usersStates u k := by
      intro k
      rw [Dict.getD, recordOf]
      rcases s.usersStates.get? u with _ | states
      · rfl
      · rfl
    have hblank : (s.usersStates.getD u newUserStates).reserves.getD reserve newReserve
        = (recordOf s.usersStates u reserve).getD newReserve := by
      rw [← hbefore, Dict.getD]
    rw [recordOf, husers, Option.bind_some, UserStates.touch]
    simp only [Dict.get?_set, hblank, hbefore]
  rw [hrecord] at hr'
  by_cases hkey : key = reserve
  · rw [if_pos hkey, Option.some_inj] at hr'
    rw [← hr', hkey]
    exact hkeep _
  · rw [if_neg hkey] at hr'
    rw [hr']
    exact CompReserve.DebtKept.refl r'

end Index

/-! ## Where a debt is used -/

/-- `mul_scalar_truncate`. -/
def mulScalarTruncate (ratio repayAmount : ℤ) : ℤ := ratio * repayAmount / expScale

/-- The loop body of `update_debt`. -/
def addDebt (ctk : Dict String CtokenInfos) (sumBorrowPlusEffects : ℤ)
    (entry : String × CompReserve) : Except Error ℤ := do
  let (tokenAddr, reserve) := entry
  let infos ← ctk.item tokenAddr
  let price ← infos.priceCurrent
  if reserve.debtAmount > 0 then
    let debtBalance ← floorDiv (reserve.debtAmount * infos.risks.borrowIndex) reserve.debtInterest
    return sumBorrowPlusEffects + debtBalance * price / expScale
  else return sumBorrowPlusEffects

/-- `update_debt`. -/
def States.updateDebt (usr : String) : Proc States Error Unit := do
  let s ← Proc.read
  let states ← Proc.ofExcept (s.usersStates.item usr)
  let sumBorrowPlusEffects ← Proc.ofExcept (states.reserves.entries.foldlM (addDebt s.ctokens) 0)
  Proc.modify fun s ↦ { s with usersStates := s.usersStates.modify usr fun states ↦
    { states with healthFactor.debtVolume := sumBorrowPlusEffects } }

/-- The loop body over the debts in `liquidation_simulation`. -/
def addTargetDebt (ctk : Dict String CtokenInfos) (com : CometConfigs)
    (debts : List (ℤ × String × ℤ)) (entry : String × CompReserve) :
    Except Error (List (ℤ × String × ℤ)) := do
  let (ctokenAddr, data) := entry
  let infos ← ctk.item ctokenAddr
  if data.debtAmount > 0 then
    let debtBalance ← floorDiv (data.debtAmount * infos.risks.borrowIndex) data.debtInterest
    let debtMax := mulScalarTruncate com.clossFactor debtBalance
    let debtPrice ← infos.priceCurrent
    let debtNormalize := debtPrice * debtMax / expScale
    return debts ++ [(debtNormalize, ctokenAddr, debtMax)]
  else return debts

/-- The debts `liquidation_simulation` chooses from. -/
def liquidationDebts (reserves : Dict String CompReserve) (ctk : Dict String CtokenInfos)
    (com : CometConfigs) : Except Error (List (ℤ × String × ℤ)) :=
  reserves.entries.foldlM (addTargetDebt ctk com) []

/-- Neither computation divides by zero, for any user. -/
def DividesSafely (s : States) : Prop :=
  (∀ usr, ((States.updateDebt usr).run s).1 ≠ .error .zeroDivisionError) ∧
    ∀ usr states, s.usersStates.get? usr = some states → ∀ com,
      liquidationDebts states.reserves s.ctokens com ≠ .error .zeroDivisionError

section Divisions

private theorem floorDiv_ok {a b : ℤ} (hb : 0 < b) : floorDiv a b = .ok (a.fdiv b) :=
  if_neg hb.ne'

private theorem item_ne (ctk : Dict String CtokenInfos) (tokenAddr : String) :
    ctk.item tokenAddr ≠ .error .zeroDivisionError := by
  rw [Dict.item]
  rcases ctk.get? tokenAddr with _ | infos
  · intro h
    cases h
  · intro h
    cases h

private theorem priceCurrent_ne (infos : CtokenInfos) :
    infos.priceCurrent ≠ .error .zeroDivisionError := by
  rw [CtokenInfos.priceCurrent]
  rcases infos.price with _ | price
  · intro h
    cases h
  · intro h
    cases h

private theorem bind_ne {α β : Type} {x : Except Error α} {f : α → Except Error β} {e : Error}
    (hx : x ≠ .error e) (hf : ∀ a, f a ≠ .error e) : (x >>= f) ≠ .error e := by
  rcases x with e' | a
  · intro h
    rw [error_bind, Except.error.injEq] at h
    exact hx (congrArg Except.error h)
  · exact hf a

theorem addDebt_ne (ctk : Dict String CtokenInfos) (tokenAddr : String) {r : CompReserve}
    (h : r.Indexed) (sum : ℤ) :
    addDebt ctk sum (tokenAddr, r) ≠ .error .zeroDivisionError := by
  rw [addDebt]
  refine bind_ne (item_ne ctk tokenAddr) fun infos ↦ bind_ne (priceCurrent_ne infos) fun price ↦ ?_
  by_cases hdebt : r.debtAmount > 0
  · rw [if_pos hdebt, floorDiv_ok (h hdebt)]
    intro h
    cases h
  · rw [if_neg hdebt]
    intro h
    cases h

theorem addTargetDebt_ne (ctk : Dict String CtokenInfos) (tokenAddr : String) {r : CompReserve}
    (h : r.Indexed) (com : CometConfigs) (debts : List (ℤ × String × ℤ)) :
    addTargetDebt ctk com debts (tokenAddr, r) ≠ .error .zeroDivisionError := by
  rw [addTargetDebt]
  refine bind_ne (item_ne ctk tokenAddr) fun infos ↦ ?_
  by_cases hdebt : r.debtAmount > 0
  · simp only [if_pos hdebt, floorDiv_ok (h hdebt), ok_bind]
    exact bind_ne (priceCurrent_ne infos) fun price h ↦ (by cases h)
  · rw [if_neg hdebt]
    intro h
    cases h

private theorem foldlM_ne {α β : Type} {step : β → α → Except Error β} {e : Error} (l : List α)
    (h : ∀ a ∈ l, ∀ b, step b a ≠ .error e) : ∀ b, l.foldlM step b ≠ .error e := by
  induction l with
  | nil => exact fun b h ↦ (by cases h)
  | cons a l ih =>
    intro b
    rw [List.foldlM_cons]
    exact bind_ne (h a List.mem_cons_self b) (ih fun a' ha' ↦ h a' (List.mem_cons_of_mem a ha'))

/-- An index for every debt is what the divisions need. -/
theorem AllIndexed.dividesSafely {s : States} (h : AllIndexed s.usersStates) :
    DividesSafely s := by
  have hentry : ∀ usr states, s.usersStates.get? usr = some states →
      ∀ e ∈ states.reserves.entries, e.2.Indexed := by
    intro usr states hstates e he
    refine h usr e.1 e.2 ?_
    rw [recordOf, hstates, Option.bind_some]
    exact Dict.get?_eq_some_iff.mpr he
  refine ⟨fun usr ↦ ?_, fun usr states hstates com ↦ ?_⟩
  · rw [States.updateDebt, Proc.run_bind, Proc.run_read]
    simp only [Proc.run_bind, Proc.run_ofExcept, Dict.item]
    rcases hstates : s.usersStates.get? usr with _ | states
    · intro h
      cases h
    · have hsum := foldlM_ne states.reserves.entries (fun e he b ↦
        addDebt_ne s.ctokens e.1 (hentry usr states hstates e he) b) 0
      simp only [okOr_some]
      rcases hfold : states.reserves.entries.foldlM (addDebt s.ctokens) 0 with e | sum
      · rw [hfold] at hsum
        exact fun h ↦ hsum (congrArg Except.error (Except.error.inj h))
      · intro h
        cases h
  · exact foldlM_ne states.reserves.entries (fun e he b ↦
      addTargetDebt_ne s.ctokens e.1 (hentry usr states hstates e he) com b) []

end Divisions

/-! ## Runs -/

section Run

variable {lib : EthLibs} {ctk₀ : Dict String CtokenInfos} {logs past : List LogReceipt}
  {log : LogReceipt}

/-- One log given to a plain `States`. -/
theorem AllIndexed.step {s : States} (h : AllIndexed s.usersStates)
    (hready : IndexReady lib ctk₀ past s.ctokens) (hfirst : IndexFirst lib ctk₀ logs)
    (hlisted : DebtsListed lib ctk₀ logs) (hpre : past ++ [log] <+: logs) :
    AllIndexed (s.step lib log).usersStates := by
  rcases hchange : States.logChange lib log with _ | ⟨reserve, change⟩
  · rw [States.usersStates_step_of_no_change hchange]
    exact h
  · intro u key r' hr'
    have hkept := debtKept_of_applied (States.applied_step hchange s)
      (fun borrower amount total hdebt ↦ hready.index_of_debt hfirst hlisted hpre
        ⟨borrower, amount, total, hdebt ▸ hchange⟩) hr'
    rcases hr : recordOf s.usersStates u key with _ | r
    · rw [hr] at hkept
      exact CompReserve.indexed_newReserve.of_debtKept hkept
    · rw [hr] at hkept
      exact (h u key r hr).of_debtKept hkept

/-- One log given to the cache. -/
theorem CacheIndexed.step {h : HighProfitSates} (hc : CacheIndexed h)
    (hready : IndexReady lib ctk₀ past h.ctokens) (hfirst : IndexFirst lib ctk₀ logs)
    (hlisted : DebtsListed lib ctk₀ logs) (hpre : past ++ [log] <+: logs) :
    CacheIndexed (h.step lib log) ∧ (h.step lib log).ctokens = log.onCtokens lib h.ctokens := by
  rcases hchange : States.logChange lib log with _ | ⟨reserve, change⟩
  · obtain ⟨⟨plugIn, updateUsers, hcache⟩, -⟩ := step_of_no_change h h.toStates hchange
    have hconsistent : (h.withStates { h.toStates with plugIn := plugIn }).Consistent := by
      have halike : TouchAlike "" h.toStates { h.toStates with plugIn := plugIn } h.toStates
        h.toStates := fun u ↦ .inr ⟨rfl, rfl⟩
      exact consistent_withStates hc.consistent halike
    have hsame : ∀ u key r', recordOf h.usersStates u key = some r' →
        ((recordOf h.usersStates u key).getD newReserve).DebtKept r' := by
      intro u key r' hr'
      rw [hr']
      exact CompReserve.DebtKept.refl r'
    have hw := hc.withStates hconsistent hsame
    rw [hcache, LogReceipt.onCtokens, hchange]
    exact ⟨⟨⟨hw.consistent.shared, hw.consistent.cached, hw.consistent.synced⟩, hw.own, hw.parent,
      hw.apart⟩, rfl⟩
  · obtain ⟨s', l, updateUsers, hs, -, hmem, hcache⟩ := step_of_change h hchange
    have hconsistent := consistent_withStates hc.consistent (touchAlike_of_applied rfl hs hs)
    have hw := hc.withStates hconsistent fun u key r' hr' ↦ debtKept_of_applied hs
      (fun borrower amount total hdebt ↦ hready.index_of_debt hfirst hlisted hpre
        ⟨borrower, amount, total, hdebt ▸ hchange⟩) hr'
    have hm := hw.mergeUsers l fun v hv ↦ hs.get?_of_names ((hmem v).mp hv).1
    have hctk : ((h.withStates s').mergeUsers l).ctokens = change.onCtokens reserve h.ctokens :=
      (HighProfitSates.ctokens_mergeUsers l _).trans hs.ctokens
    rw [hcache, LogReceipt.onCtokens, hchange]
    exact ⟨⟨⟨hm.consistent.shared, hm.consistent.cached, hm.consistent.synced⟩, hm.own, hm.parent,
      hm.apart⟩, hctk⟩

theorem ctokens_step_eq (lib : EthLibs) (log : LogReceipt) (s : States) :
    (s.step lib log).ctokens = log.onCtokens lib s.ctokens := by
  rw [States.ctokens_step]
  cases hchange : States.logChange lib log with
  | none => simp only [LogReceipt.onCtokens, hchange]
  | some found => simp only [LogReceipt.onCtokens, hchange]

private theorem accrued_of_concat (hacc : AccruedPositive lib logs) (hpre : past ++ [log] <+: logs)
    (reserve : String) (index : ℤ) (h : log.Accrues lib reserve index) : 0 < index :=
  hacc log (hpre.subset (List.mem_append_right past List.mem_cons_self)) reserve index h

/-- A plain `States` along a run. -/
theorem allIndexed_run {s : States} (hs : AllIndexed s.usersStates)
    (hacc : AccruedPositive lib logs) (hfirst : IndexFirst lib s.ctokens logs)
    (hlisted : DebtsListed lib s.ctokens logs) : ∀ past, past <+: logs →
    AllIndexed (runFrom (States.step lib) s past).usersStates ∧
      IndexReady lib s.ctokens past (runFrom (States.step lib) s past).ctokens := by
  refine forall_prefix logs ⟨hs, indexReady_nil lib s.ctokens⟩ fun past log hpre h ↦ ?_
  rw [runFrom_concat, ctokens_step_eq]
  exact ⟨h.1.step h.2 hfirst hlisted hpre, h.2.step (accrued_of_concat hacc hpre)⟩

/-- The cache along a run that began with a plain `States`. -/
theorem cacheIndexed_run {s : States} {before : List LogReceipt} (hs : AllIndexed s.usersStates)
    (hacc : AccruedPositive lib (before ++ logs))
    (hfirst : IndexFirst lib s.ctokens (before ++ logs))
    (hlisted : DebtsListed lib s.ctokens (before ++ logs)) (profitThres : ℚ) :
    ∀ past, past <+: logs →
      CacheIndexed (cacheAfter lib (runFrom (States.step lib) s before) profitThres past) ∧
      IndexReady lib s.ctokens (before ++ past)
        (cacheAfter lib (runFrom (States.step lib) s before) profitThres past).ctokens := by
  have hbefore := allIndexed_run hs hacc hfirst hlisted before (List.prefix_append before logs)
  refine forall_prefix logs ⟨CacheIndexed.new hbefore.1 profitThres, ?_⟩ fun past log hpre h ↦ ?_
  · rw [List.append_nil]
    exact hbefore.2
  · have hpre' : (before ++ past) ++ [log] <+: before ++ logs := by
      rw [List.append_assoc]
      exact (List.prefix_append_right_inj before).mpr hpre
    obtain ⟨hcache, hctk⟩ := h.1.step h.2 hfirst hlisted hpre'
    rw [cacheAfter, runFrom_concat, ← cacheAfter, hctk, ← List.append_assoc]
    exact ⟨hcache, h.2.step (accrued_of_concat hacc hpre')⟩

/-- **Every debt has an index.** If the indices that are set are positive, every market has a
positive one before its first debt, and debts are only set in known markets, then no record of a
plain `States`, nor of a cache made from it or of the cache's parent, ever has a debt and no index,
and no computation divides by one that is zero. -/
theorem indexed_run (lib : EthLibs) {s : States} {before logs : List LogReceipt}
    (hs : AllIndexed s.usersStates) (hacc : AccruedPositive lib (before ++ logs))
    (hfirst : IndexFirst lib s.ctokens (before ++ logs))
    (hlisted : DebtsListed lib s.ctokens (before ++ logs)) (profitThres : ℚ) :
    (AllIndexed (runFrom (States.step lib) s before).usersStates ∧
      DividesSafely (runFrom (States.step lib) s before)) ∧
    ∀ past, past <+: logs →
      AllIndexed
        (cacheAfter lib (runFrom (States.step lib) s before) profitThres past).usersStates ∧
      AllIndexed
        (cacheAfter lib (runFrom (States.step lib) s before) profitThres past).parentUsers ∧
      DividesSafely
        (cacheAfter lib (runFrom (States.step lib) s before) profitThres past).toStates := by
  have hplain := (allIndexed_run hs hacc hfirst hlisted before (List.prefix_append before logs)).1
  refine ⟨⟨hplain, hplain.dividesSafely⟩, fun past hpast ↦ ?_⟩
  have hcache := (cacheIndexed_run hs hacc hfirst hlisted profitThres past hpast).1
  exact ⟨hcache.own, hcache.parent, AllIndexed.dividesSafely hcache.own⟩

end Run

/-! ## An unlisted market -/

/-- An index set in a market. -/
def accrueLog : LogReceipt where
  address := vUSDC
  topics := [natToBytes 32 0x875352fb3fadeb8c0be7cbbe8ff761b308fa7033470cd0287f02f3436fd76cb9]
  data := hexBytesHex (natToBytes 32 1 ++ natToBytes 32 (10 ^ 18) ++ natToBytes 32 5)
  blockNumber := 101
  blockHash := []
  transactionIndex := 0
  transactionHash := []

/-- A debt of seven units in the same market. -/
def borrowLog : LogReceipt where
  address := vUSDC
  topics := [natToBytes 32 0x13ed6866d4e1ee6da46f845c46d7e54120883d75c5ea9a2dacc1c4ca8984ab80]
  data := hexBytesHex (natToBytes 32 0x9109358674f1c9a1a945a1d9880fb7ef1ddc43a3 ++
    natToBytes 32 7 ++ natToBytes 32 7 ++ natToBytes 32 12)
  blockNumber := 101
  blockHash := []
  transactionIndex := 0
  transactionHash := []

private theorem logChange_accrueLog :
    States.logChange marketLibs accrueLog = some (vUSDC, .accrueInterest 1 (10 ^ 18) 5) := by
  have hevent : usersEventAbi (hexBytesHex (natToBytes 32
      0x875352fb3fadeb8c0be7cbbe8ff761b308fa7033470cd0287f02f3436fd76cb9))
      = some .accrueInterest := by decide +kernel
  have hdata : marketLibs.decode [.uint256, .uint256, .uint256]
      (natToBytes 32 1 ++ natToBytes 32 (10 ^ 18) ++ natToBytes 32 5)
      = .ok (1, 10 ^ 18, 5, ()) := by decide +kernel
  have hdecode : accrueLog.decodeData marketLibs [.uint256, .uint256, .uint256]
      = .ok (1, 10 ^ 18, 5, ()) := by
    rw [LogReceipt.decodeData, accrueLog, bytesFromPrefixed_hexBytesHex, ok_bind, hdata]
  have hmarket : marketLibs.toChecksumAddress accrueLog.address = .ok vUSDC := by decide +kernel
  have htopic : accrueLog.topic0 = .ok (hexBytesHex (natToBytes 32
      0x875352fb3fadeb8c0be7cbbe8ff761b308fa7033470cd0287f02f3436fd76cb9)) := rfl
  have husers : usersChange marketLibs accrueLog
      = .ok (some (vUSDC, .accrueInterest 1 (10 ^ 18) 5)) := by
    rw [usersChange, if_neg (by decide), htopic, ok_bind, hevent]
    simp only [LogReceipt.usersData, hdecode, hmarket]
    rfl
  rw [States.logChange, husers]

private theorem logChange_borrowLog :
    States.logChange marketLibs borrowLog = some (vUSDC, .debt oneUser 7 12) := by
  have hevent : usersEventAbi (hexBytesHex (natToBytes 32
      0x13ed6866d4e1ee6da46f845c46d7e54120883d75c5ea9a2dacc1c4ca8984ab80))
      = some .borrow := by decide +kernel
  have hdata : marketLibs.decode [.address, .uint256, .uint256, .uint256]
      (natToBytes 32 0x9109358674f1c9a1a945a1d9880fb7ef1ddc43a3 ++ natToBytes 32 7 ++
        natToBytes 32 7 ++ natToBytes 32 12)
      = .ok (oneUser, 7, 7, 12, ()) := by decide +kernel
  have hdecode : borrowLog.decodeData marketLibs [.address, .uint256, .uint256, .uint256]
      = .ok (oneUser, 7, 7, 12, ()) := by
    rw [LogReceipt.decodeData, borrowLog, bytesFromPrefixed_hexBytesHex, ok_bind, hdata]
  have hmarket : marketLibs.toChecksumAddress borrowLog.address = .ok vUSDC := by decide +kernel
  have htopic : borrowLog.topic0 = .ok (hexBytesHex (natToBytes 32
      0x13ed6866d4e1ee6da46f845c46d7e54120883d75c5ea9a2dacc1c4ca8984ab80)) := rfl
  have husers : usersChange marketLibs borrowLog = .ok (some (vUSDC, .debt oneUser 7 12)) := by
    rw [usersChange, if_neg (by decide), htopic, ok_bind, hevent]
    simp only [LogReceipt.usersData, hdecode, hmarket]
    rfl
  rw [States.logChange, husers]

private theorem accruedPositive_example : AccruedPositive marketLibs [accrueLog, borrowLog] := by
  rintro log hlog reserve index ⟨interest, total, hchange⟩
  rw [List.mem_cons, List.mem_singleton] at hlog
  rcases hlog with rfl | rfl
  · rw [logChange_accrueLog, Option.some_inj, Prod.mk.injEq, UsersChange.accrueInterest.injEq]
      at hchange
    rw [← hchange.2.2.1]
    decide
  · rw [logChange_borrowLog] at hchange
    cases hchange

private theorem indexFirst_example (ctk : Dict String CtokenInfos) :
    IndexFirst marketLibs ctk [accrueLog, borrowLog] := by
  refine fun reserve ↦ .inr fun past log hpre hdebt ↦ ?_
  obtain ⟨borrower, amount, total, hchange⟩ := hdebt
  rcases past with _ | ⟨first, past⟩
  · -- the first log sets no debt
    obtain ⟨rfl, -⟩ := List.cons_prefix_cons.mp hpre
    rw [logChange_accrueLog] at hchange
    cases hchange
  · rw [List.cons_append] at hpre
    obtain ⟨rfl, htail⟩ := List.cons_prefix_cons.mp hpre
    have hlog : log ∈ [borrowLog] := htail.subset (List.mem_append_right past List.mem_cons_self)
    rw [List.mem_singleton.mp hlog, logChange_borrowLog] at hchange
    have hreserve : vUSDC = reserve := congrArg Prod.fst (Option.some_inj.mp hchange)
    exact ⟨_, List.mem_cons_self, 10 ^ 18, 1, 5, hreserve ▸ logChange_accrueLog⟩

private theorem allIndexed_empty : AllIndexed ∅ := fun _ _ _ h ↦ (by cases h)

/-- A state with one market and no users. -/
def listedStates : States :=
  States.new ∅ (Dict.set ∅ vUSDC ⟨newCtokenRisks, newCtokenBalances, none⟩) 100 ""

theorem indexed_run_listed :
    AllIndexed (cacheAfter marketLibs (runFrom (States.step marketLibs) listedStates [accrueLog]) 0
      [borrowLog]).usersStates := by
  refine ((indexed_run marketLibs allIndexed_empty accruedPositive_example
    (indexFirst_example listedStates.ctokens) ?_ 0).2 [borrowLog] (List.prefix_refl _)).1
  rintro log hlog reserve ⟨borrower, amount, total, hchange⟩
  rw [List.cons_append, List.nil_append, List.mem_cons, List.mem_singleton] at hlog
  rcases hlog with rfl | rfl
  · rw [logChange_accrueLog] at hchange
    cases hchange
  · rw [logChange_borrowLog] at hchange
    have hreserve : vUSDC = reserve := congrArg Prod.fst (Option.some_inj.mp hchange)
    rw [← hreserve]
    decide +kernel

/-- In a market that is not listed the debt is recorded and the index is not. -/
theorem unlisted_debt_not_indexed :
    AllIndexed (States.new ∅ ∅ 100 "").usersStates ∧
      AccruedPositive marketLibs [accrueLog, borrowLog] ∧
      IndexFirst marketLibs (States.new ∅ ∅ 100 "").ctokens [accrueLog, borrowLog] ∧
      ¬ AllIndexed (runFrom (States.step marketLibs) (States.new ∅ ∅ 100 "")
        [accrueLog, borrowLog]).usersStates := by
  refine ⟨allIndexed_empty, accruedPositive_example, indexFirst_example ∅, fun hall ↦ ?_⟩
  have hrecord : recordOf (runFrom (States.step marketLibs) (States.new ∅ ∅ 100 "")
      [accrueLog, borrowLog]).usersStates oneUser vUSDC = some ⟨0, 0, 7, 0⟩ := by
    rw [runFrom, List.foldl_cons, List.foldl_cons, List.foldl_nil, States.step, States.step,
      States.run_update_of_change logChange_accrueLog,
      States.run_update_of_change logChange_borrowLog]
    decide +kernel
  exact absurd (hall oneUser vUSDC _ hrecord (by decide)) (by decide)

end CompoundLiquidation
