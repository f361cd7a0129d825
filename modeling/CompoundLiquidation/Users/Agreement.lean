import CompoundLiquidation.Users.Replay

/-!
# When the cache agrees with the replay

A log changes one record of each user it names, and it changes it in the cache and in the replay
by the same function. So a user on whom the two agree stays one, unless the merge interferes: it
adds what the parent has to what the cache has, whether or not that is there already. `SafeFor`
says in terms of the state in front of the log when nothing is added twice, and
`agreeAt_step_iff` that the user stays in agreement in these cases and in no other.
-/

namespace CompoundLiquidation

open Python

/-! ## Agreement -/

/-- The amounts of a record. -/
def CompReserve.amounts (r : CompReserve) : ℤ × ℤ × ℤ := (r.colAmount, r.debtAmount, r.debtInterest)

/-- The same markets, with the same amounts in each. -/
def SameReserves (a b : Dict String CompReserve) : Prop :=
  ∀ key, (a.get? key).map CompReserve.amounts = (b.get? key).map CompReserve.amounts

theorem SameReserves.symm {a b : Dict String CompReserve} (h : SameReserves a b) :
    SameReserves b a := fun key ↦ (h key).symm

theorem SameReserves.trans {a b c : Dict String CompReserve} (h : SameReserves a b)
    (h' : SameReserves b c) : SameReserves a c := fun key ↦ (h key).trans (h' key)

theorem SameReserves.of_get? {a b : Dict String CompReserve} (h : SameReserves a b) {key : String}
    {r : CompReserve} (hr : a.get? key = some r) :
    ∃ r', b.get? key = some r' ∧ r'.amounts = r.amounts := by
  have hget := h key
  rw [hr, Option.map_some] at hget
  exact Option.map_eq_some_iff.mp hget.symm

/-- The cache and the replay agree on a user, if the cache has the user. -/
def AgreeAt (h : HighProfitSates) (full : States) (u : String) : Prop :=
  ∀ own, h.usersStates.get? u = some own →
    ∃ all, full.usersStates.get? u = some all ∧ SameReserves own.reserves all.reserves

/-- The cache and the replay agree. -/
def Agree (h : HighProfitSates) (full : States) : Prop := ∀ u, AgreeAt h full u

theorem agreeAt_iff {h : HighProfitSates} {full : States} {u : String} {own all : UserStates}
    (hown : h.usersStates.get? u = some own) (hall : full.usersStates.get? u = some all) :
    AgreeAt h full u ↔ SameReserves own.reserves all.reserves := by
  constructor
  · intro hagree
    obtain ⟨all', hall', hsame⟩ := hagree own hown
    rwa [Option.some_inj.mp (hall.symm.trans hall')]
  · intro hsame own' hown'
    rw [← Option.some_inj.mp (hown.symm.trans hown')]
    exact ⟨all, hall, hsame⟩

/-! ## What a change does to amounts -/

namespace UsersChange

/-- The amount of a change to records. -/
def amount : UsersChange → ℤ
  | .transfer _ _ amount => amount
  | .debt _ amount _ => amount
  | _ => 0

/-- A repayment or a borrowing. -/
def isDebt : UsersChange → Prop
  | .debt _ _ _ => True
  | _ => False

/-- A transfer adds something to the collateral, the amount or its negative unless it raises or
goes back to where it came from; a debt is assigned, with an index unless it raises. -/
theorem post_cases {change : UsersChange} {ctk : Dict String CtokenInfos} {reserve u : String}
    {f : CompReserve → CompReserve} (hf : change.post ctk reserve u = some f) :
    (∃ δ : ℤ, f = (fun r ↦ { r with colAmount := r.colAmount + δ }) ∧ ¬ change.isDebt ∧
      (change.raises ctk reserve ∨ change.toItself → δ = 0) ∧
      (¬ change.raises ctk reserve → ¬ change.toItself → (δ = 0 ↔ change.amount = 0))) ∨
    (f = (fun r ↦ { r with debtAmount := change.amount }) ∧ change.isDebt ∧
      change.raises ctk reserve) ∨
    ∃ infos : CtokenInfos, ctk.get? reserve = some infos ∧ f = (fun r ↦ { r with
      debtAmount := change.amount, debtInterest := infos.risks.borrowIndex }) ∧ change.isDebt ∧
      ¬ change.raises ctk reserve ∧ ¬ change.toItself := by
  rcases change with ⟨fromUser, toUser, amount⟩ | ⟨borrower, amount, totalBorrow⟩ | _ | _ | _
  · simp only [post, Option.ite_none_right_eq_some, Option.some_inj] at hf
    obtain ⟨hu, rfl⟩ := hf
    refine Or.inl ⟨if (transfer fromUser toUser amount).raises ctk reserve then 0
      else transferDelta fromUser toUser amount u, ?_, id, ?_, ?_⟩
    · funext r
      split_ifs
      · rw [add_zero]
      · rfl
    · rintro (hraises | hself)
      · rw [if_pos hraises]
      · have hsame : fromUser = toUser := hself
        rw [transferDelta, hsame, sub_self, ite_self]
    · intro hraises hself
      have hne : fromUser ≠ toUser := hself
      rw [if_neg hraises, transferDelta]
      rcases hu with rfl | rfl
      · rw [if_neg hne, if_pos rfl, zero_sub, neg_eq_zero]
        rfl
      · rw [if_pos rfl, if_neg hne.symm, sub_zero]
        rfl
  · simp only [post, Option.ite_none_right_eq_some, Option.some_inj] at hf
    obtain ⟨-, rfl⟩ := hf
    rcases hinfos : ctk.get? reserve with _ | infos
    · refine Or.inr (Or.inl ⟨rfl, trivial, ?_⟩)
      simp only [raises, hinfos, Option.isNone_none]
    · refine Or.inr (Or.inr ⟨infos, rfl, rfl, trivial, ?_, id⟩)
      simp only [raises, hinfos, Option.isNone_some, Bool.false_eq_true, not_false_eq_true]
  all_goals simp [post] at hf

end UsersChange

/-- A function on records that reads their amounts only. -/
def OnAmounts (f : CompReserve → CompReserve) : Prop :=
  ∀ r r', r.amounts = r'.amounts → (f r).amounts = (f r').amounts

theorem onAmounts_post {change : UsersChange} {ctk : Dict String CtokenInfos} {reserve u : String}
    {f : CompReserve → CompReserve} (hf : change.post ctk reserve u = some f) : OnAmounts f := by
  intro r r' heq
  simp only [CompReserve.amounts, Prod.mk.injEq] at heq
  obtain ⟨hcol, hdebt, hinterest⟩ := heq
  obtain ⟨δ, rfl, -⟩ | ⟨rfl, -⟩ | ⟨infos, -, rfl, -⟩ := UsersChange.post_cases hf
  · simp only [CompReserve.amounts, hcol, hdebt, hinterest]
  · simp only [CompReserve.amounts, hcol, hinterest]
  · simp only [CompReserve.amounts, hcol]

private theorem amounts_getD {a b : Dict String CompReserve} (hab : SameReserves a b)
    (reserve : String) :
    (a.getD reserve newReserve).amounts = (b.getD reserve newReserve).amounts := by
  rcases ha : a.get? reserve with _ | r
  · have hb : b.get? reserve = none := by
      have hget := hab reserve
      rw [ha, Option.map_none] at hget
      exact Option.map_eq_none_iff.mp hget.symm
    rw [Dict.getD_of_get?_eq_none ha, Dict.getD_of_get?_eq_none hb]
  · obtain ⟨r', hb, hamounts⟩ := hab.of_get? ha
    rw [Dict.getD_of_get? ha, Dict.getD_of_get? hb, hamounts]

theorem UserStates.get?_touch (reserve key : String) (f : CompReserve → CompReserve)
    (states : UserStates) : (states.touch reserve f).reserves.get? key
      = if key = reserve then some (f (states.reserves.getD reserve newReserve))
        else states.reserves.get? key := Dict.get?_set _ _ _ _

/-- Touching both sides alike keeps them the same. -/
theorem SameReserves.touch {own all : UserStates} (hsame : SameReserves own.reserves all.reserves)
    (reserve : String) {f : CompReserve → CompReserve} (hf : OnAmounts f) :
    SameReserves (own.touch reserve f).reserves (all.touch reserve f).reserves := by
  intro key
  rw [UserStates.get?_touch, UserStates.get?_touch]
  by_cases hkey : key = reserve
  · rw [if_pos hkey, if_pos hkey, Option.map_some, Option.map_some,
      hf _ _ (amounts_getD hsame reserve)]
  · rw [if_neg hkey, if_neg hkey]
    exact hsame key

/-! ## What a merge does to amounts -/

/-- There is nothing in `value` for `r` to absorb. -/
def CompReserve.NothingFrom (r value : CompReserve) : Prop :=
  value.colAmount = 0 ∧ value.debtAmount = 0 ∧ (r.debtInterest = 0 → value.debtInterest = 0)

theorem CompReserve.amounts_absorb_iff {r value : CompReserve} :
    (r.absorb value).amounts = r.amounts ↔ r.NothingFrom value := by
  simp only [amounts, absorb, NothingFrom, Prod.mk.injEq, add_eq_left, ite_eq_right_iff]
  refine and_congr_right fun _ ↦ and_congr_right fun _ ↦ forall_congr' fun hr ↦ ?_
  rw [hr]

/-- A merge of records that are all there already changes nothing exactly when there is nothing
in any of them. -/
theorem sameReserves_mergeWith_iff {a b : Dict String CompReserve}
    (hkeys : ∀ key ∈ b.keys, key ∈ a.keys) :
    SameReserves (a.mergeWith CompReserve.absorb b) a ↔
      ∀ key r value, a.get? key = some r → b.get? key = some value → r.NothingFrom value := by
  refine forall_congr' fun key ↦ ?_
  rw [Dict.get?_mergeWith]
  rcases ha : a.get? key with _ | r
  · have hb : b.get? key = none := by
      rw [Dict.get?_eq_none_iff] at ha ⊢
      exact fun hmem ↦ ha (hkeys key hmem)
    simp [hb]
  · rcases hb : b.get? key with _ | value
    · simp
    · simp [CompReserve.amounts_absorb_iff]

/-! ## When a log is safe -/

/-- When the cache has the user and the merge is made: the parent's records hold nothing that the
cache's would absorb, and if the user's object is the same in both, the change has no amount. -/
def SafeCached (h : HighProfitSates) (change : UsersChange) (u : String) (own old : UserStates) :
    Prop :=
  (∀ key r value, own.reserves.get? key = some r → old.reserves.get? key = some value →
    r.NothingFrom value) ∧ (u ∈ h.sharedUsers → change.amount = 0)

/-- When the cache does not have the user and the merge is made: a new debt does not meet an old
one, nor an old index that it has none to replace with. -/
def SafeMerged (h : HighProfitSates) (reserve : String) (change : UsersChange) (old : UserStates) :
    Prop :=
  change.isDebt → ∀ value, old.reserves.get? reserve = some value →
    value.debtAmount = 0 ∧ ∀ infos, h.ctokens.get? reserve = some infos →
      infos.risks.borrowIndex = 0 → value.debtInterest = 0

/-- When the cache does not have the user and the merge is left out: the parent has no record of
the user except perhaps one of this market with nothing in it that would be missing. -/
def SafeUnmerged (reserve : String) (change : UsersChange) (old : UserStates) : Prop :=
  ∀ key value, old.reserves.get? key = some value → key = reserve ∧ value.colAmount = 0 ∧
    value.debtInterest = 0 ∧ (¬ change.isDebt → value.debtAmount = 0)

/-- The log does no harm to the user. -/
def SafeFor (h : HighProfitSates) (reserve : String) (change : UsersChange) (u : String) : Prop :=
  ∀ old, h.parentUsers.get? u = some old →
    (∀ own, h.usersStates.get? u = some own → Merges h reserve change u →
      SafeCached h change u own old) ∧
    (h.usersStates.get? u = none → Merges h reserve change u → SafeMerged h reserve change old) ∧
    (h.usersStates.get? u = none → ¬ Merges h reserve change u → SafeUnmerged reserve change old)

/-- The log does no harm. -/
def SafeLog (lib : EthLibs) (h : HighProfitSates) (log : LogReceipt) : Prop :=
  ∀ reserve change, States.logChange lib log = some (reserve, change) →
    ∀ u, change.names u → SafeFor h reserve change u

/-! ## The user of a log -/

section User

variable {h : HighProfitSates} {full : States} {reserve : String} {change : UsersChange}
  {u : String} {f : CompReserve → CompReserve}

/-- A merge is made for a user the cache has only if the record is missing. -/
theorem Merges.get?_reserve {own : UserStates} (hm : Merges h reserve change u)
    (hown : h.usersStates.get? u = some own) : own.reserves.get? reserve = none := by
  obtain ⟨-, -, htype⟩ := hm
  rw [States.changeType, hown, Option.bind_some] at htype
  rcases hr : own.reserves.get? reserve with _ | r
  · rfl
  · simp [hr] at htype

/-- Without the user there is no record either. -/
theorem merges_iff_of_uncached (hown : h.usersStates.get? u = none) :
    Merges h reserve change u ↔ ¬ change.raises h.ctokens reserve ∧ ¬ change.toItself := by
  have htype : States.changeType h.usersStates u reserve = .added := by
    rw [States.changeType, hown, Option.bind_none]
  exact and_congr_right fun _ ↦ and_iff_left htype

/-- A cached user with an object of its own has in the parent no market the cache lacks. -/
private theorem keys_parent_subset (hl : Linked h full) (hagree : AgreeAt h full u)
    {own old : UserStates} (hown : h.usersStates.get? u = some own)
    (hold : h.parentUsers.get? u = some old) {key : String} (hkey : key ∈ old.reserves.keys) :
    key ∈ own.reserves.keys := by
  obtain ⟨all, hall, hkeys⟩ := hl.known u old hold
  have hsame := (agreeAt_iff hown hall).mp hagree
  obtain ⟨r, hr⟩ := Dict.mem_keys_iff.mp (hkeys key hkey)
  obtain ⟨r', hr', -⟩ := hsame.symm.of_get? hr
  exact Dict.mem_keys_iff.mpr ⟨r', hr'⟩

/-- The parent's copy of a cached user after the log, in front of the merges: the cache's object
if it is the same, otherwise the records it had. -/
private theorem get?_syncUser (hl : Linked h full) {s' : States} {own own' old : UserStates}
    (hown : h.usersStates.get? u = some own) (hold : h.parentUsers.get? u = some old)
    (hown' : s'.usersStates.get? u = some own')
    (hother : ∀ key ∈ old.reserves.keys, own'.reserves.get? key = own.reserves.get? key)
    (key : String) :
    (HighProfitSates.syncUser { h with toStates := s' } u old).reserves.get? key
      = if u ∈ h.sharedUsers then own'.reserves.get? key else old.reserves.get? key := by
  have hsynced := hl.consistent.synced u old hold
  rw [HighProfitSates.syncUser] at hsynced ⊢
  rw [hown] at hsynced
  simp only [hown']
  by_cases hshared : u ∈ h.sharedUsers
  · simp only [if_pos hshared]
  · simp only [if_neg hshared] at hsynced ⊢
    have hget := congrArg (fun states ↦ states.reserves.get? key) hsynced
    simp only [Dict.get?_mapWithKey] at hget ⊢
    rcases hvalue : old.reserves.get? key with _ | value
    · rfl
    · have hkey := hother key (Dict.mem_keys_iff.mpr ⟨value, hvalue⟩)
      rw [hvalue] at hget
      simp only [Option.map_some, Dict.getD, hkey] at hget ⊢
      exact hget

/-- The record that an applied log opens, once more added to itself. -/
private theorem nothingFrom_opened_iff (hf : change.post h.ctokens reserve u = some f)
    (hm : Merges h reserve change u) :
    (f newReserve).NothingFrom (f newReserve) ↔ change.amount = 0 := by
  obtain ⟨δ, rfl, -, -, hδ⟩ | ⟨-, -, hraises⟩ | ⟨infos, -, rfl, -⟩ := UsersChange.post_cases hf
  · rw [← hδ hm.1 hm.2.1]
    simp [CompReserve.NothingFrom, newReserve]
  · exact absurd hraises hm.1
  · simp [CompReserve.NothingFrom, newReserve]

/-- The cache has the user and the merge is made. -/
private theorem safeCached_iff (hl : Linked h full) (hagree : AgreeAt h full u)
    {s' : States} {own old : UserStates} (hown : h.usersStates.get? u = some own)
    (hold : h.parentUsers.get? u = some old) (hm : Merges h reserve change u)
    (hf : change.post h.ctokens reserve u = some f)
    (hown' : s'.usersStates.get? u = some (own.touch reserve f)) :
    SameReserves ((own.touch reserve f).reserves.mergeWith CompReserve.absorb
        (HighProfitSates.syncUser { h with toStates := s' } u old).reserves)
      (own.touch reserve f).reserves ↔ SafeCached h change u own old := by
  have hmissing := hm.get?_reserve hown
  have hne : ∀ key ∈ old.reserves.keys, key ≠ reserve := fun key hkey heq ↦
    Dict.get?_eq_none_iff.mp hmissing (heq ▸ keys_parent_subset hl hagree hown hold hkey)
  have hget := get?_syncUser hl hown hold hown' fun key hkey ↦ by
    rw [UserStates.get?_touch, if_neg (hne key hkey)]
  have hopened : (own.touch reserve f).reserves.get? reserve = some (f newReserve) := by
    rw [UserStates.get?_touch, if_pos rfl, Dict.getD_of_get?_eq_none hmissing]
  have hother : ∀ key, key ≠ reserve →
      (own.touch reserve f).reserves.get? key = own.reserves.get? key := fun key hkey ↦ by
    rw [UserStates.get?_touch, if_neg hkey]
  rw [sameReserves_mergeWith_iff, SafeCached]
  · simp only [hget]
    by_cases hshared : u ∈ h.sharedUsers
    · simp only [hshared, ↓reduceIte, forall_const]
      obtain ⟨own₂, hown₂, hparent⟩ := hl.consistent.shared u hshared
      have hsame : old = own := Option.some_inj.mp
        (hold.symm.trans (hparent.trans (hown₂.symm.trans hown)))
      rw [hsame]
      constructor
      · intro hall
        refine ⟨fun key r value hr hvalue ↦ ?_,
          (nothingFrom_opened_iff hf hm).mp (hall reserve _ _ hopened hopened)⟩
        have hkey : key ≠ reserve := by
          rintro rfl
          exact Option.some_ne_none r (hr.symm.trans hmissing)
        rw [← hother key hkey] at hr hvalue
        exact hall key r value hr hvalue
      · rintro ⟨hall, hamount⟩ key r value hr hvalue
        by_cases hkey : key = reserve
        · subst hkey
          rw [← Option.some_inj.mp (hopened.symm.trans hr),
            ← Option.some_inj.mp (hopened.symm.trans hvalue)]
          exact (nothingFrom_opened_iff hf hm).mpr hamount
        · rw [hother key hkey] at hr hvalue
          exact hall key r value hr hvalue
    · simp only [hshared, ↓reduceIte, false_implies, and_true]
      refine forall_congr' fun key ↦ ?_
      by_cases hkey : key = reserve
      · have hnone : old.reserves.get? key = none := by
          rw [Dict.get?_eq_none_iff]
          exact fun hmem ↦ hne key hmem hkey
        simp [hnone]
      · rw [hother key hkey]
  · intro key hkey
    obtain ⟨value, hvalue⟩ := Dict.mem_keys_iff.mp hkey
    rw [hget] at hvalue
    split_ifs at hvalue with hshared
    · exact Dict.mem_keys_iff.mpr ⟨value, hvalue⟩
    · have hmem : key ∈ old.reserves.keys := Dict.mem_keys_iff.mpr ⟨value, hvalue⟩
      exact mem_keys_touch.mpr (Or.inr (keys_parent_subset hl hagree hown hold hmem))

/-- The parent's copy of a user the cache does not have is not synced with anything. -/
private theorem get?_syncUser_uncached (hl : Linked h full) {s' : States} {old : UserStates}
    (hown : h.usersStates.get? u = none) (key : String) :
    (HighProfitSates.syncUser { h with toStates := s' } u old).reserves.get? key
      = old.reserves.get? key := by
  have hshared : u ∉ h.sharedUsers := fun hmem ↦ by
    obtain ⟨own, hown', -⟩ := hl.consistent.shared u hmem
    exact Option.some_ne_none own (hown'.symm.trans hown)
  have hreserves : ∀ key, (u, key) ∉ h.sharedReserves := fun key hmem ↦ by
    obtain ⟨own, hown'⟩ := hl.consistent.cached (u, key) hmem
    exact Option.some_ne_none own (hown'.symm.trans hown)
  rw [HighProfitSates.syncUser]
  rcases s'.usersStates.get? u with _ | own'
  · rfl
  · simp only [if_neg hshared, hreserves, ↓reduceIte, Dict.get?_mapWithKey, Option.map_id']

/-- The cache does not have the user and the merge is made. -/
private theorem safeMerged_iff {old old₁ : UserStates}
    (hget : ∀ key, old₁.reserves.get? key = old.reserves.get? key)
    (hraises : ¬ change.raises h.ctokens reserve)
    (hf : change.post h.ctokens reserve u = some f) :
    SameReserves ((newUserStates.touch reserve f).reserves.mergeWith CompReserve.absorb
        old₁.reserves) (old.touch reserve f).reserves ↔ SafeMerged h reserve change old := by
  have hblank : ∀ key, newUserStates.reserves.get? key = none := fun _ ↦ rfl
  have hopened : ∀ value : CompReserve,
      ((f newReserve).absorb value).amounts = (f value).amounts ↔ (change.isDebt →
        value.debtAmount = 0 ∧ ∀ infos, h.ctokens.get? reserve = some infos →
          infos.risks.borrowIndex = 0 → value.debtInterest = 0) := by
    intro value
    obtain ⟨δ, rfl, hdebt, -⟩ | ⟨-, -, hr⟩ | ⟨infos, hinfos, rfl, hdebt, -⟩ :=
      UsersChange.post_cases hf
    · simp [CompReserve.amounts, CompReserve.absorb, newReserve, hdebt, add_comm]
    · exact absurd hr hraises
    · simp only [CompReserve.amounts, CompReserve.absorb, newReserve, hdebt, hinfos, Prod.mk.injEq,
        zero_add, add_eq_left, true_and, forall_const, Option.some_inj, forall_eq',
        ite_eq_right_iff]
      refine and_congr_right fun _ ↦ forall_congr' fun hindex ↦ ?_
      rw [hindex]
  constructor
  · intro hsame hdebt value hvalue
    have hkey := hsame reserve
    rw [Dict.get?_mergeWith, UserStates.get?_touch, UserStates.get?_touch, if_pos rfl, if_pos rfl,
      Dict.getD_of_get?_eq_none (hblank reserve), Dict.getD_of_get? hvalue, hget, hvalue] at hkey
    exact (hopened value).mp (Option.some_inj.mp hkey) hdebt
  · intro hsafe key
    rw [Dict.get?_mergeWith, UserStates.get?_touch, UserStates.get?_touch, hget]
    by_cases hkey : key = reserve
    · subst hkey
      rw [if_pos rfl, if_pos rfl, Dict.getD_of_get?_eq_none (hblank key)]
      rcases hvalue : old.reserves.get? key with _ | value
      · rw [Dict.getD_of_get?_eq_none hvalue]
      · rw [Dict.getD_of_get? hvalue]
        exact congrArg some ((hopened value).mpr fun hdebt ↦ hsafe hdebt value hvalue)
    · rw [if_neg hkey, if_neg hkey, hblank]

/-- The cache does not have the user and the merge is left out. -/
private theorem safeUnmerged_iff {old : UserStates}
    (hskip : change.raises h.ctokens reserve ∨ change.toItself)
    (hf : change.post h.ctokens reserve u = some f) :
    SameReserves (newUserStates.touch reserve f).reserves (old.touch reserve f).reserves ↔
      SafeUnmerged reserve change old := by
  have hblank : ∀ key, newUserStates.reserves.get? key = none := fun _ ↦ rfl
  have hopened : ∀ value : CompReserve, (f newReserve).amounts = (f value).amounts ↔
      value.colAmount = 0 ∧ value.debtInterest = 0 ∧
        (¬ change.isDebt → value.debtAmount = 0) := by
    intro value
    obtain ⟨δ, rfl, hdebt, hδ, -⟩ | ⟨rfl, hdebt, -⟩ | ⟨infos, -, -, -, hr, hself⟩ :=
      UsersChange.post_cases hf
    · simp only [CompReserve.amounts, newReserve, hδ hskip, Prod.mk.injEq, hdebt,
        not_false_eq_true, forall_const]
      omega
    · simp only [CompReserve.amounts, newReserve, Prod.mk.injEq, hdebt, not_true_eq_false,
        false_implies, and_true, true_and]
      omega
    · exact absurd hskip (not_or.mpr ⟨hr, hself⟩)
  constructor
  · intro hsame key value hvalue
    have hget := hsame key
    rw [UserStates.get?_touch, UserStates.get?_touch] at hget
    by_cases hkey : key = reserve
    · rw [if_pos hkey, if_pos hkey, Dict.getD_of_get?_eq_none (hblank reserve),
        Dict.getD_of_get? (hkey ▸ hvalue)] at hget
      exact ⟨hkey, (hopened value).mp (Option.some_inj.mp hget)⟩
    · rw [if_neg hkey, if_neg hkey, hblank, hvalue] at hget
      exact absurd hget.symm (Option.some_ne_none _)
  · intro hsafe key
    rw [UserStates.get?_touch, UserStates.get?_touch]
    by_cases hkey : key = reserve
    · rw [if_pos hkey, if_pos hkey, Dict.getD_of_get?_eq_none (hblank reserve)]
      rcases hvalue : old.reserves.get? reserve with _ | value
      · rw [Dict.getD_of_get?_eq_none hvalue]
      · rw [Dict.getD_of_get? hvalue]
        exact congrArg some ((hopened value).mpr (hsafe reserve value hvalue).2)
    · rw [if_neg hkey, if_neg hkey, hblank]
      rcases hvalue : old.reserves.get? key with _ | value
      · rfl
      · exact absurd (hsafe key value hvalue).1 hkey

/-- A user of the cache after the changes of a log and the merge. -/
private theorem merged_withStates {s' : States} {own' : UserStates}
    (hown' : s'.usersStates.get? u = some own') : (h.withStates s').merged u
      = some (match h.parentUsers.get? u with
        | none => own'
        | some old =>
          { own' with
            reserves := own'.reserves.mergeWith CompReserve.absorb
              (HighProfitSates.syncUser { h with toStates := s' } u old).reserves }) := by
  have husers : (h.withStates s').usersStates.get? u = some own' := hown'
  have hparent : (h.withStates s').parentUsers.get? u = (h.parentUsers.get? u).map
      (HighProfitSates.syncUser { h with toStates := s' } u) :=
    HighProfitSates.get?_writeThrough _ u
  rw [HighProfitSates.merged, hparent, husers]
  rcases h.parentUsers.get? u with _ | old
  · rfl
  · rfl

variable {lib : EthLibs} {log : LogReceipt}

/-- **One log, one user.** Where cache and replay agree on a user the log names, they still do
after it exactly if the log does no harm to the user. -/
theorem agreeAt_step_iff (hl : Linked h full)
    (hchange : States.logChange lib log = some (reserve, change)) (hu : change.names u)
    (hagree : AgreeAt h full u) :
    AgreeAt (h.step lib log) (full.step lib log) u ↔ SafeFor h reserve change u := by
  obtain ⟨s', hs, hcache⟩ := hl.get?_step hchange
  have hfull := States.applied_step hchange full
  rcases hf : change.post h.ctokens reserve u with _ | f
  · exact absurd hu (UsersChange.post_eq_none_iff.mp hf)
  have hown' := hs.users u
  have hall' := hfull.users u
  rw [hf] at hown'
  rw [← hl.ctokens, hf] at hall'
  simp only at hown' hall'
  rcases hown : h.usersStates.get? u with _ | own
  · rw [Dict.getD_of_get?_eq_none hown] at hown'
    have hparent := hl.uncached u hown
    rcases hold : h.parentUsers.get? u with _ | old
    · -- nobody knows the user
      rw [hold] at hparent
      rw [Dict.getD_of_get?_eq_none hparent] at hall'
      have hstep : (h.step lib log).usersStates.get? u
          = some (newUserStates.touch reserve f) := by
        by_cases hm : Merges h reserve change u
        · rw [(hcache u).1 ⟨hu, hm⟩, merged_withStates hown', hold]
        · rw [(hcache u).2 fun h ↦ hm h.2, hown']
      refine iff_of_true ((agreeAt_iff hstep hall').mpr fun _ ↦ rfl) fun old hold' ↦ ?_
      exact absurd (hold.symm.trans hold') (Option.some_ne_none old).symm
    · rw [hold] at hparent
      rw [Dict.getD_of_get? hparent] at hall'
      by_cases hm : Merges h reserve change u
      · have hstep := (hcache u).1 ⟨hu, hm⟩
        rw [merged_withStates hown', hold] at hstep
        rw [agreeAt_iff hstep hall', safeMerged_iff (get?_syncUser_uncached hl hown) hm.1 hf]
        simp [SafeFor, hold, hown, hm]
      · have hstep := (hcache u).2 fun h ↦ hm h.2
        have hskip : change.raises h.ctokens reserve ∨ change.toItself := by
          rw [merges_iff_of_uncached hown, not_and_or, not_not, not_not] at hm
          exact hm
        rw [agreeAt_iff (hstep.trans hown') hall', safeUnmerged_iff hskip hf]
        simp [SafeFor, hold, hown, hm]
  · rw [Dict.getD_of_get? hown] at hown'
    obtain ⟨all, hall, hsame⟩ := hagree own hown
    rw [Dict.getD_of_get? hall] at hall'
    have htouched := hsame.touch reserve (onAmounts_post hf)
    by_cases hm : Merges h reserve change u
    · have hstep := (hcache u).1 ⟨hu, hm⟩
      rw [merged_withStates hown'] at hstep
      rw [agreeAt_iff hstep hall']
      rcases hold : h.parentUsers.get? u with _ | old
      · exact iff_of_true htouched fun old hold' ↦
          absurd (hold.symm.trans hold') (Option.some_ne_none old).symm
      · have hsafe := safeCached_iff hl hagree hown hold hm hf hown'
        refine Iff.trans ⟨fun h ↦ h.trans htouched.symm, fun h ↦ h.trans htouched⟩ ?_
        refine hsafe.trans ?_
        simp [SafeFor, hold, hown, hm]
    · have hstep := (hcache u).2 fun h ↦ hm h.2
      refine iff_of_true ((agreeAt_iff (hstep.trans hown') hall').mpr htouched) fun old hold ↦ ?_
      simp [hown, hm]

end User

/-! ## Runs -/

section Run

variable (lib : EthLibs)

/-- A user the log does not name stays in agreement. -/
theorem agreeAt_step_of_not_names {h : HighProfitSates} {full : States} {log : LogReceipt}
    {reserve u : String} {change : UsersChange} (hl : Linked h full)
    (hchange : States.logChange lib log = some (reserve, change)) (hu : ¬ change.names u)
    (hagree : AgreeAt h full u) : AgreeAt (h.step lib log) (full.step lib log) u := by
  obtain ⟨s', hs, hcache⟩ := hl.get?_step hchange
  have hown' := hs.users u
  have hall' := (States.applied_step hchange full).users u
  rw [UsersChange.post_eq_none_iff.mpr hu] at hown' hall'
  rw [AgreeAt, (hcache u).2 fun h ↦ hu h.1, hown', hall']
  exact hagree

/-- **One log.** Cache and replay stay in agreement exactly if the log does no harm. -/
theorem agree_step_iff {h : HighProfitSates} {full : States} (hl : Linked h full)
    (hagree : Agree h full) (log : LogReceipt) :
    Agree (h.step lib log) (full.step lib log) ↔ SafeLog lib h log := by
  rcases hchange : States.logChange lib log with _ | ⟨reserve, change⟩
  · obtain ⟨⟨plugIn, updateUsers, hcache⟩, plugIn', hfull⟩ := step_of_no_change h full hchange
    refine iff_of_true ?_ fun reserve change hsome ↦ ?_
    · rw [hcache, hfull]
      exact hagree
    · exact absurd (hchange.symm.trans hsome) (Option.some_ne_none _).symm
  · constructor
    · intro hafter reserve' change' hsome u hu
      obtain ⟨rfl, rfl⟩ := Prod.mk.inj (Option.some_inj.mp (hchange.symm.trans hsome))
      exact (agreeAt_step_iff hl hchange hu (hagree u)).mp (hafter u)
    · intro hsafe u
      by_cases hu : change.names u
      · exact (agreeAt_step_iff hl hchange hu (hagree u)).mpr (hsafe reserve change hchange u hu)
      · exact agreeAt_step_of_not_names lib hl hchange hu (hagree u)

/-- The cache of the full state after some logs. -/
def cacheAfter (fullStates : States) (profitThres : ℚ) (logs : List LogReceipt) :
    HighProfitSates :=
  runFrom (HighProfitSates.step lib) (HighProfitSates.new fullStates profitThres) logs

/-- A plain `States` on a copy of the full state after some logs. -/
def replayAfter (fullStates : States) (logs : List LogReceipt) : States :=
  runFrom (States.step lib) (States.new fullStates.usersStates fullStates.ctokens
    fullStates.lastUpdate fullStates.blockHash) logs

theorem linked_after (fullStates : States) (profitThres : ℚ) (logs : List LogReceipt) :
    Linked (cacheAfter lib fullStates profitThres logs) (replayAfter lib fullStates logs) := by
  induction logs using List.reverseRecOn with
  | nil => exact linked_new fullStates profitThres
  | append_singleton logs log ih =>
    rw [cacheAfter, replayAfter, runFrom_concat, runFrom_concat]
    exact ih.after lib log

theorem agree_new (fullStates : States) (profitThres : ℚ) :
    Agree (cacheAfter lib fullStates profitThres []) (replayAfter lib fullStates []) := by
  intro u own hown
  have hfull : fullStates.usersStates.get? u = some own := by
    have hfilter : (filterStates fullStates.usersStates (toFloat (profitThres * 20))).get? u
        = some own := hown
    rw [filterStates, Dict.get?_filter, Option.filter_eq_some_iff] at hfilter
    exact hfilter.1
  exact ⟨own, hfull, fun _ ↦ rfl⟩

/-- **The cache agrees with the replay after every log exactly if no log does harm** to the cache
it comes to. -/
theorem agree_after_iff (fullStates : States) (profitThres : ℚ) (logs : List LogReceipt) :
    (∀ past, past <+: logs → Agree (cacheAfter lib fullStates profitThres past)
      (replayAfter lib fullStates past)) ↔
    ∀ past log, past ++ [log] <+: logs →
      SafeLog lib (cacheAfter lib fullStates profitThres past) log := by
  refine forall_prefix_iff logs (agree_new lib fullStates profitThres) ?_
  intro past log _ hagree
  have hstep := agree_step_iff lib (linked_after lib fullStates profitThres past) hagree log
  rw [cacheAfter, replayAfter, runFrom_concat, runFrom_concat]
  exact hstep

end Run

/-! ## A second market -/

/-- The libraries with the spelling of two markets. -/
def marketLibs : EthLibs := staticLibs [(vUSDC, vUSDC), (vUSDT, vUSDT)]

def oneUser : String := "0x9109358674f1c9a1a945a1d9880fb7ef1ddc43a3"

/-- A state with one user, who is profitable and has five units in one market. -/
def oneUserStates : States where
  usersStates := Dict.set ∅ oneUser
    { newUserStates with
      reserves := Dict.set ∅ vUSDC { newReserve with colAmount := 5 }
      healthFactor := { newHealthFactor with debtVolume := 100 } }
  ctokens := Dict.set (Dict.set ∅ vUSDC ⟨newCtokenRisks, newCtokenBalances, none⟩) vUSDT
    ⟨newCtokenRisks, newCtokenBalances, none⟩
  lastUpdate := 100
  blockHash := ""
  plugIn := none

/-- A transfer to the user of seven units of another market. -/
def secondMarketLog : LogReceipt where
  address := vUSDT
  topics := [natToBytes 32 0xddf252ad1be2c89b69c2b068fc378daa952ba7f163c4a11628f55a4df523b3ef,
    natToBytes 32 0x1610bc33319e9398de5f57b33a5b184c806ad217,
    natToBytes 32 0x9109358674f1c9a1a945a1d9880fb7ef1ddc43a3]
  data := hexBytesHex (natToBytes 32 7)
  blockNumber := 101
  blockHash := []
  transactionIndex := 0
  transactionHash := []

/-- The user's balance in the first market. -/
def firstBalance (s : States) : Option ℤ :=
  (s.usersStates.get? oneUser).bind fun states ↦ (states.reserves.get? vUSDC).map (·.colAmount)

/-- The balance in the first market is five in the replay and ten in the cache. -/
theorem cache_doubles_first_market :
    ¬ ∀ past, past <+: [secondMarketLog] → Agree (cacheAfter marketLibs oneUserStates 0 past)
      (replayAfter marketLibs oneUserStates past) := by
  intro hall
  have hagree := hall [secondMarketLog] (List.prefix_refl _) oneUser
  have hcache : firstBalance (cacheAfter marketLibs oneUserStates 0 [secondMarketLog]).toStates
      = some 10 := by decide +kernel
  have hreplay : firstBalance (replayAfter marketLibs oneUserStates [secondMarketLog])
      = some 5 := by decide +kernel
  rcases hown : (cacheAfter marketLibs oneUserStates 0 [secondMarketLog]).usersStates.get? oneUser
    with _ | own
  · rw [firstBalance, hown] at hcache
    exact Option.some_ne_none _ hcache.symm
  · obtain ⟨all, hget, hsame⟩ := hagree own hown
    have hcol := congrArg (Option.map Prod.fst) (hsame vUSDC)
    rw [Option.map_map, Option.map_map] at hcol
    rw [firstBalance, hown, Option.bind_some] at hcache
    rw [firstBalance, hget, Option.bind_some] at hreplay
    have hten : some (10 : ℤ) = some 5 := hcache.symm.trans (hcol.trans hreplay)
    exact absurd (Option.some_inj.mp hten) (by decide)

end CompoundLiquidation
