import CompoundLiquidation.Liquidation.Start
import CompoundLiquidation.Python.Run

/-!
# Who has been liquidated before

A user with an entry in `users_to_liquidate` is left alone as long as the amount to repay is about
the same. The entry is to say that a liquidation of this amount has been sent. It does when no call
writes an entry and then gives up. A call may: `is_user_liquidated` replaces the amount of an old
entry before gas costs and route are looked at, and `set_user_liquidated` comes before the signing.
The next call finds an amount that nobody has sent.

On BSC every call that writes an entry gives up, as the receiver that it sets lacks the prefix and
cannot be signed for. There the entries are those of attempts, and no call should be suppressed.
-/

namespace CompoundLiquidation

open Python

/-! ## One call -/

/-- The table and the accounts after a call, also where it raised. -/
def Liquidator.after (env : LiqEnv) (s : Liquidator) (call : LiqCall) : Liquidator :=
  ((call.start env).run s).2

namespace LiqCall

/-- `is_user_liquidated` reports true. -/
def Suppressed (call : LiqCall) (s : Liquidator) : Prop :=
  ((isUserLiquidated call.usr call.liqPair.debtCtoken call.liqPair.repayAmount).run s).1 = .ok true

/-- The call returns tasks. -/
def ReturnsTasks (env : LiqEnv) (call : LiqCall) (s : Liquidator) : Prop :=
  ∃ tasks, ((call.start env).run s).1 = .ok tasks ∧ tasks ≠ []

/-- The call is about the user and the debt. -/
def IsAbout (call : LiqCall) (user debt : String) : Prop :=
  user = call.usr ∧ debt = call.liqPair.debtCtoken

/-- There are accounts and all of them sign. -/
def AllSign (env : LiqEnv) (tx : TxParams) (accounts : List AccCompound) : Prop :=
  accounts ≠ [] ∧ ∀ acc ∈ accounts, ∃ signedTxRaw,
    env.signTransaction acc.key { tx with nonce := acc.nonce } = .ok signedTxRaw

/-- Gas is paid for, there is a route, and the accounts sign. -/
def Sends (env : LiqEnv) (call : LiqCall) (s : Liquidator) : Prop :=
  ∃ tx profit, call.transaction env = .ok (some (tx, profit)) ∧ AllSign env tx s.accounts

/-- There is an old entry with another amount, or none and the call gets to making one. -/
def Writes (env : LiqEnv) (call : LiqCall) (s : Liquidator) : Prop :=
  match s.record? call.usr call.liqPair.debtCtoken with
  | some (prevDebtToCover, _) => sameDebt call.liqPair.repayAmount prevDebtToCover = .ok false
  | none => ∃ made, call.transaction env = .ok (some made)

end LiqCall

/-- An amount that differs from an earlier one by less than ten percent of it. -/
def WithinTenth (amount prevAmount : ℤ) : Prop := 10 * |amount - prevAmount| < prevAmount

instance (amount prevAmount : ℤ) : Decidable (WithinTenth amount prevAmount) :=
  inferInstanceAs (Decidable (_ < _))

/-- The comparison of the call is right about ten percent, and if the call writes an entry, it goes
through. -/
structure LiqCall.Orderly (env : LiqEnv) (call : LiqCall) (s : Liquidator) : Prop where
  compares : ∀ prevDebtToCover prevIndex,
    s.record? call.usr call.liqPair.debtCtoken = some (prevDebtToCover, prevIndex) →
    sameDebt call.liqPair.repayAmount prevDebtToCover = .ok true →
    WithinTenth call.liqPair.repayAmount prevDebtToCover
  sends : call.Writes env s → call.Sends env s

section Call

variable {env : LiqEnv}

/-- With accounts that sign there is a task for each of them. -/
theorem signSendingTxToTasks_of_allSign {index : String} {tx : TxParams} {profit : ℚ}
    {accounts : List AccCompound} (h : LiqCall.AllSign env tx accounts) : ∃ tasks,
    (signSendingTxToTasks env.signTransaction index tx profit accounts).1 = .ok tasks ∧
      tasks ≠ [] := by
  have hall : ∀ accounts : List AccCompound, (∀ acc ∈ accounts, ∃ signedTxRaw,
      env.signTransaction acc.key { tx with nonce := acc.nonce } = .ok signedTxRaw) →
      ∃ tasks, (signSendingTxToTasks env.signTransaction index tx profit accounts).1 = .ok tasks ∧
        tasks.length = accounts.length := by
    intro accounts
    induction accounts with
    | nil => exact fun _ ↦ ⟨[], rfl, rfl⟩
    | cons acc accounts ih =>
      intro hsign
      obtain ⟨raw, hraw⟩ := hsign acc List.mem_cons_self
      obtain ⟨tasks, htasks, hlength⟩ := ih fun a ha ↦ hsign a (List.mem_cons_of_mem acc ha)
      refine ⟨⟨index, raw, profit⟩ :: tasks, ?_, congrArg (· + 1) hlength⟩
      simp only [signSendingTxToTasks, hraw, htasks, Except.map]
  obtain ⟨tasks, htasks, hlength⟩ := hall accounts h.2
  refine ⟨tasks, htasks, fun hnil ↦ h.1 ?_⟩
  rw [hnil] at hlength
  exact List.length_eq_zero_iff.mp hlength.symm

theorem run_isUserLiquidated (user debt : String) (debtToCover : ℤ) (s : Liquidator) :
    (isUserLiquidated user debt debtToCover).run s = match s.record? user debt with
      | none => (.ok false, s)
      | some (prevDebtToCover, prevIndex) => match sameDebt debtToCover prevDebtToCover with
        | .error e => (.error e, s)
        | .ok true => (.ok true, s)
        | .ok false => (.ok false, s.setUserLiquidated prevIndex user debt debtToCover) := by
  rw [isUserLiquidated, Proc.run_bind, Proc.run_read]
  rcases hrecord : s.record? user debt with _ | ⟨prevDebtToCover, prevIndex⟩
  · simp only [hrecord]
    rfl
  · simp only [hrecord, Proc.run_bind, Proc.run_ofExcept]
    rcases hsame : sameDebt debtToCover prevDebtToCover with e | same
    · rfl
    · rcases same with _ | _
      · rfl
      · rfl

/-- The stages of a call. -/
theorem LiqCall.run_start (call : LiqCall) (s : Liquidator) :
    (call.start env).run s
      = match (isUserLiquidated call.usr call.liqPair.debtCtoken
          call.liqPair.repayAmount).run s with
        | (.error e, s₁) => (.error e, s₁)
        | (.ok true, s₁) => (.ok [], s₁)
        | (.ok false, s₁) => match call.transaction env with
          | .error e => (.error e, s₁)
          | .ok none => (.ok [], s₁)
          | .ok (some (tx, profit)) =>
            let signed := signSendingTxToTasks env.signTransaction call.index tx profit s₁.accounts
            (signed.1, { s₁.setUserLiquidated call.index call.usr call.liqPair.debtCtoken
              call.liqPair.repayAmount with accounts := signed.2 }) := by
  rw [start, Proc.run_bind]
  match (isUserLiquidated call.usr call.liqPair.debtCtoken call.liqPair.repayAmount).run s with
  | (.error e, s₁) => rfl
  | (.ok true, s₁) => rfl
  | (.ok false, s₁) =>
    simp only [Bool.false_eq_true, if_false, Proc.run_bind, Proc.run_ofExcept]
    rcases call.transaction env with e | _ | ⟨tx, profit⟩
    · rfl
    · rfl
    · rfl

/-- A call that gets as far as signing, with accounts that sign. -/
theorem LiqCall.returnsTasks_of_sends {call : LiqCall} {s s₁ : Liquidator}
    (hfresh : (isUserLiquidated call.usr call.liqPair.debtCtoken call.liqPair.repayAmount).run s
      = (.ok false, s₁)) (hsends : call.Sends env s₁) :
    call.ReturnsTasks env s ∧ ∀ u d, (s.after env call).record? u d
      = if u = call.usr ∧ d = call.liqPair.debtCtoken
        then some (call.liqPair.repayAmount, call.index)
        else s₁.record? u d := by
  obtain ⟨tx, profit, htransaction, hsign⟩ := hsends
  have hrun := @run_start env call s
  simp only [hfresh, htransaction] at hrun
  refine ⟨?_, fun u d ↦ ?_⟩
  · rw [ReturnsTasks, hrun]
    exact signSendingTxToTasks_of_allSign hsign
  · rw [Liquidator.after, hrun]
    exact Liquidator.record?_setUserLiquidated _ _ _ _ s₁ u d

/-- A user of whom the same debt is remembered. -/
theorem LiqCall.run_start_of_liquidated {call : LiqCall} {l : Liquidator}
    {debtToCover : ℤ} {index : String}
    (hrecord : l.record? call.usr call.liqPair.debtCtoken = some (debtToCover, index))
    (hsame : sameDebt call.liqPair.repayAmount debtToCover = .ok true) :
    (call.start env).run l = (.ok [], l) := by
  rw [call.run_start, run_isUserLiquidated, hrecord]
  simp only [hsame]

/-- An orderly call leaves an entry as it was, or it is the one that has sent its amount. -/
theorem LiqCall.Orderly.record?_after {call : LiqCall} {s : Liquidator} (h : call.Orderly env s)
    (u d : String) : (s.after env call).record? u d = s.record? u d ∨
      call.IsAbout u d ∧ call.ReturnsTasks env s ∧
        (s.after env call).record? u d = some (call.liqPair.repayAmount, call.index) := by
  have hliquidated := run_isUserLiquidated call.usr call.liqPair.debtCtoken
    call.liqPair.repayAmount s
  have hrun := @run_start env call s
  have hwrites := h.sends
  rw [Writes] at hwrites
  rcases hrecord : s.record? call.usr call.liqPair.debtCtoken with _ | ⟨prevDebtToCover, prevIndex⟩
  · -- there is no entry
    simp only [hrecord] at hliquidated hwrites
    rcases htransaction : call.transaction env with e | _ | made
    · simp only [hliquidated, htransaction] at hrun
      rw [Liquidator.after, hrun]
      exact .inl rfl
    · simp only [hliquidated, htransaction] at hrun
      rw [Liquidator.after, hrun]
      exact .inl rfl
    · obtain ⟨htasks, hafter⟩ := returnsTasks_of_sends hliquidated (hwrites ⟨made, htransaction⟩)
      rw [hafter]
      by_cases hmine : u = call.usr ∧ d = call.liqPair.debtCtoken
      · rw [if_pos hmine]
        exact .inr ⟨hmine, htasks, rfl⟩
      · rw [if_neg hmine]
        exact .inl rfl
  · simp only [hrecord] at hliquidated hwrites
    rcases hsame : sameDebt call.liqPair.repayAmount prevDebtToCover with e | same
    · simp only [hsame] at hliquidated
      simp only [hliquidated] at hrun
      rw [Liquidator.after, hrun]
      exact .inl rfl
    rcases same with _ | _
    · -- the amount is a new one
      simp only [hsame] at hliquidated
      have hsends : call.Sends env (s.setUserLiquidated prevIndex call.usr call.liqPair.debtCtoken
          call.liqPair.repayAmount) := hwrites hsame
      obtain ⟨htasks, hafter⟩ := returnsTasks_of_sends hliquidated hsends
      rw [hafter, Liquidator.record?_setUserLiquidated]
      by_cases hmine : u = call.usr ∧ d = call.liqPair.debtCtoken
      · rw [if_pos hmine]
        exact .inr ⟨hmine, htasks, rfl⟩
      · rw [if_neg hmine, if_neg hmine]
        exact .inl rfl
    · simp only [hsame] at hliquidated
      simp only [hliquidated] at hrun
      rw [Liquidator.after, hrun]
      exact .inl rfl

theorem LiqCall.suppressed_iff {call : LiqCall} {s : Liquidator} : call.Suppressed s ↔
    ∃ prevDebtToCover prevIndex,
      s.record? call.usr call.liqPair.debtCtoken = some (prevDebtToCover, prevIndex) ∧
        sameDebt call.liqPair.repayAmount prevDebtToCover = .ok true := by
  rw [Suppressed, run_isUserLiquidated]
  rcases s.record? call.usr call.liqPair.debtCtoken with _ | ⟨prevDebtToCover, prevIndex⟩
  · simp
  · rcases hsame : sameDebt call.liqPair.repayAmount prevDebtToCover with e | same
    · simp [hsame]
    · cases same <;> simp [hsame]

/-- What is written where there is an entry is another amount. -/
theorem LiqCall.Writes.differs {call : LiqCall} {s : Liquidator} (h : call.Writes env s)
    {prevDebtToCover : ℤ} {prevIndex : String}
    (hrecord : s.record? call.usr call.liqPair.debtCtoken = some (prevDebtToCover, prevIndex)) :
    sameDebt call.liqPair.repayAmount prevDebtToCover = .ok false := by
  rw [Writes, hrecord] at h
  exact h

end Call

/-! ## Runs -/

/-- A call of the run has returned tasks for the user, the debt and the amount. -/
def SentBefore (env : LiqEnv) (s₀ : Liquidator) (past : List LiqCall) (user debt : String)
    (amount : ℤ) : Prop :=
  ∃ before call, before ++ [call] <+: past ∧ call.IsAbout user debt ∧
    call.liqPair.repayAmount = amount ∧
    call.ReturnsTasks env (runFrom (Liquidator.after env) s₀ before)

section Run

variable {env : LiqEnv} {s₀ : Liquidator}

theorem SentBefore.concat {past : List LiqCall} {user debt : String} {amount : ℤ}
    (h : SentBefore env s₀ past user debt amount) (call : LiqCall) :
    SentBefore env s₀ (past ++ [call]) user debt amount := by
  obtain ⟨before, sent, hpre, hrest⟩ := h
  exact ⟨before, sent, hpre.trans (List.prefix_append past [call]), hrest⟩

/-- In a run of orderly calls every entry stands for tasks that were returned. -/
theorem sentBefore_of_record {calls : List LiqCall} (hempty : s₀.usersToLiquidate = ∅)
    (horderly : ∀ past call, past ++ [call] <+: calls →
      call.Orderly env (runFrom (Liquidator.after env) s₀ past)) :
    ∀ past, past <+: calls → ∀ user debt amount index,
      (runFrom (Liquidator.after env) s₀ past).record? user debt = some (amount, index) →
      SentBefore env s₀ past user debt amount := by
  refine forall_prefix calls ?_ ?_
  · intro user debt amount index hrecord
    rw [runFrom_nil, Liquidator.record?, hempty] at hrecord
    exact absurd hrecord (Option.some_ne_none _).symm
  · intro past call hpre ih user debt amount index hrecord
    rw [runFrom_concat] at hrecord
    rcases (horderly past call hpre).record?_after user debt with hsame | ⟨habout, htasks, hset⟩
    · rw [hsame] at hrecord
      exact (ih user debt amount index hrecord).concat call
    · rw [hset, Option.some_inj] at hrecord
      exact ⟨past, call, List.prefix_refl _, habout, (Prod.mk.inj hrecord).1, htasks⟩

variable (env s₀) in
/-- No liquidation is suppressed that was not sent: a call that is suppressed comes after one for
the same user and debt that has returned tasks, and the amounts differ by less than ten percent. -/
def EverySuppressedSent (calls : List LiqCall) : Prop :=
  ∀ past call, past ++ [call] <+: calls →
    call.Suppressed (runFrom (Liquidator.after env) s₀ past) →
    ∃ amount, WithinTenth call.liqPair.repayAmount amount ∧
      SentBefore env s₀ past call.usr call.liqPair.debtCtoken amount

theorem everySuppressedSent_of_orderly {calls : List LiqCall} (hempty : s₀.usersToLiquidate = ∅)
    (horderly : ∀ past call, past ++ [call] <+: calls →
      call.Orderly env (runFrom (Liquidator.after env) s₀ past)) :
    EverySuppressedSent env s₀ calls := by
  intro past call hpre hsuppressed
  obtain ⟨amount, index, hrecord, hsame⟩ := LiqCall.suppressed_iff.mp hsuppressed
  refine ⟨amount, (horderly past call hpre).compares amount index hrecord hsame, ?_⟩
  exact sentBefore_of_record hempty horderly past ((List.prefix_append past [call]).trans hpre) _ _
    _ index hrecord

end Run

/-! ## Attempts -/

section Attempts

variable {env : LiqEnv} {s₀ : Liquidator}

variable (env) in
/-- What a call makes of the amount of the last attempt at a user and a debt. -/
def LiqCall.attempt (user debt : String) (prev : Option ℤ) (call : LiqCall) : Option ℤ :=
  if user = call.usr ∧ debt = call.liqPair.debtCtoken then
    match prev with
    | none => match call.transaction env with
      | .ok (some _) => some call.liqPair.repayAmount
      | _ => none
    | some prevDebtToCover => match sameDebt call.liqPair.repayAmount prevDebtToCover with
      | .ok false => some call.liqPair.repayAmount
      | _ => some prevDebtToCover
  else prev

variable (env) in
/-- The amount of the last attempt of a run. It does not matter what has been signed. -/
def attempted (user debt : String) (calls : List LiqCall) : Option ℤ :=
  calls.foldl (LiqCall.attempt env user debt) none

/-- A call leaves the entries of other users and debts alone. -/
theorem LiqCall.record?_after_of_not {call : LiqCall} {user debt : String}
    (hother : ¬ call.IsAbout user debt) (s : Liquidator) :
    (s.after env call).record? user debt = s.record? user debt := by
  let R : Liquidator → Liquidator → Prop := fun s s' ↦ s'.record? user debt = s.record? user debt
  have hrefl : ∀ s, R s s := fun _ ↦ rfl
  have htrans : ∀ s t u, R s t → R t u → R s u := fun _ _ _ h h' ↦ h'.trans h
  have hset : ∀ index, Proc.Keeps R (Proc.modify (Liquidator.setUserLiquidated index call.usr
      call.liqPair.debtCtoken call.liqPair.repayAmount) : Proc Liquidator Error Unit) :=
    fun index ↦ Proc.keeps_modify fun s ↦
      (Liquidator.record?_setUserLiquidated index _ _ _ s user debt).trans (if_neg hother)
  have hliquidated : Proc.Keeps R (isUserLiquidated call.usr call.liqPair.debtCtoken
      call.liqPair.repayAmount) := by
    refine Proc.keeps_bind htrans (Proc.keeps_read hrefl) fun s ↦ ?_
    rcases s.record? call.usr call.liqPair.debtCtoken with _ | ⟨prevDebtToCover, prevIndex⟩
    · exact Proc.keeps_pure hrefl false
    · refine Proc.keeps_bind htrans (Proc.keeps_ofExcept hrefl _) fun same ↦ ?_
      refine Proc.keeps_ite (fun _ ↦ Proc.keeps_pure hrefl true) fun _ ↦ ?_
      exact Proc.keeps_bind htrans (hset prevIndex) fun _ ↦ Proc.keeps_pure hrefl false
  have hstart : Proc.Keeps R (call.start env) := by
    refine Proc.keeps_bind htrans hliquidated fun res ↦ ?_
    refine Proc.keeps_ite (fun _ ↦ Proc.keeps_pure hrefl []) fun _ ↦ ?_
    refine Proc.keeps_bind htrans (Proc.keeps_ofExcept hrefl _) fun transaction ↦ ?_
    rcases transaction with _ | ⟨tx, profit⟩
    · exact Proc.keeps_pure hrefl []
    · exact Proc.keeps_bind htrans (hset call.index) fun _ s ↦ hrefl s
  exact hstart s

/-- A call that reaches the signing, or finds another amount, has made an attempt. -/
theorem LiqCall.record?_after_self (call : LiqCall) (s : Liquidator) :
    ((s.after env call).record? call.usr call.liqPair.debtCtoken).map Prod.fst
      = call.attempt env call.usr call.liqPair.debtCtoken
          ((s.record? call.usr call.liqPair.debtCtoken).map Prod.fst) := by
  have hset : ∀ index (t : Liquidator), ((t.setUserLiquidated index call.usr
      call.liqPair.debtCtoken call.liqPair.repayAmount).record? call.usr
        call.liqPair.debtCtoken).map Prod.fst = some call.liqPair.repayAmount := fun index t ↦
    congrArg _ ((Liquidator.record?_setUserLiquidated index _ _ _ t _ _).trans (if_pos ⟨rfl, rfl⟩))
  have hliquidated := run_isUserLiquidated call.usr call.liqPair.debtCtoken
    call.liqPair.repayAmount s
  have hrun := @run_start env call s
  rw [Liquidator.after, attempt.eq_def, if_pos ⟨rfl, rfl⟩]
  rcases hrecord : s.record? call.usr call.liqPair.debtCtoken with _ | ⟨prevDebtToCover, prevIndex⟩
  · simp only [hrecord] at hliquidated
    rcases htransaction : call.transaction env with e | _ | made
    all_goals
      simp only [hliquidated, htransaction] at hrun
      rw [hrun]
    · exact congrArg _ hrecord
    · exact congrArg _ hrecord
    · exact hset call.index s
  · simp only [hrecord] at hliquidated
    rcases hsame : sameDebt call.liqPair.repayAmount prevDebtToCover with e | _ | _
    · simp only [hsame] at hliquidated
      simp only [hliquidated] at hrun
      simp only [hrun, hrecord, Option.map_some, hsame]
    · -- the amount is replaced at once, whatever comes after
      simp only [hsame] at hliquidated
      rcases htransaction : call.transaction env with e | _ | made
      all_goals
        simp only [hliquidated, htransaction] at hrun
        simp only [hrun, Option.map_some, hsame]
      · exact hset prevIndex s
      · exact hset prevIndex s
      · exact hset call.index _
    · simp only [hsame] at hliquidated
      simp only [hliquidated] at hrun
      simp only [hrun, hrecord, Option.map_some, hsame]

/-- The table has the amounts of the attempts. -/
theorem record?_runFrom (hempty : s₀.usersToLiquidate = ∅) (user debt : String)
    (calls : List LiqCall) :
    ((runFrom (Liquidator.after env) s₀ calls).record? user debt).map Prod.fst
      = attempted env user debt calls := by
  induction calls using List.reverseRecOn with
  | nil =>
    rw [runFrom_nil, Liquidator.record?, hempty]
    rfl
  | append_singleton calls call ih =>
    rw [runFrom_concat, attempted, List.foldl_concat, ← attempted, ← ih]
    by_cases hmine : call.IsAbout user debt
    · obtain ⟨rfl, rfl⟩ := hmine
      exact call.record?_after_self _
    · rw [LiqCall.record?_after_of_not hmine]
      exact (if_neg hmine).symm

/-- A call is suppressed by the last attempt. -/
theorem suppressed_runFrom_iff (hempty : s₀.usersToLiquidate = ∅) (past : List LiqCall)
    (call : LiqCall) : call.Suppressed (runFrom (Liquidator.after env) s₀ past) ↔
      ∃ prevDebtToCover,
        attempted env call.usr call.liqPair.debtCtoken past = some prevDebtToCover ∧
        sameDebt call.liqPair.repayAmount prevDebtToCover = .ok true := by
  rw [LiqCall.suppressed_iff, ← record?_runFrom hempty]
  constructor
  · rintro ⟨prevDebtToCover, prevIndex, hrecord, hsame⟩
    exact ⟨prevDebtToCover, congrArg _ hrecord, hsame⟩
  · rintro ⟨prevDebtToCover, hattempted, hsame⟩
    obtain ⟨⟨_, prevIndex⟩, hrecord, rfl⟩ := Option.map_eq_some_iff.mp hattempted
    exact ⟨_, prevIndex, hrecord, hsame⟩

/-- On BSC no call returns a task. -/
theorem LiqCall.not_returnsTasks_of_bsc (hchecks : ChecksReceiver env.signTransaction)
    (hnet : env.net = .bsc) (call : LiqCall) (s : Liquidator) : ¬ call.ReturnsTasks env s := by
  rintro ⟨tasks, htasks, hsome⟩
  rw [call.run_start] at htasks
  rcases hliquidated : (isUserLiquidated call.usr call.liqPair.debtCtoken
    call.liqPair.repayAmount).run s with ⟨e | _ | _, s₁⟩
  · simp only [hliquidated] at htasks
    cases htasks
  · simp only [hliquidated] at htasks
    rcases htransaction : call.transaction env with e | _ | ⟨tx, profit⟩
    · simp only [htransaction] at htasks
      cases htasks
    · simp only [htransaction] at htasks
      exact hsome (Except.ok.inj htasks).symm
    · simp only [htransaction] at htasks
      have hreceiver := (transaction_eq_some_iff.mp htransaction).not_isReceiver hnet
      rcases haccounts : s₁.accounts with _ | ⟨acc, accounts⟩
      · rw [haccounts] at htasks
        exact hsome (Except.ok.inj htasks).symm
      · have hraises := hchecks acc.key { tx with nonce := acc.nonce } hreceiver
        simp only [haccounts, signSendingTxToTasks, hraises] at htasks
        cases htasks
  · simp only [hliquidated] at htasks
    exact hsome (Except.ok.inj htasks).symm

theorem everySuppressedSent_iff_of_bsc (hchecks : ChecksReceiver env.signTransaction)
    (hnet : env.net = .bsc) (hempty : s₀.usersToLiquidate = ∅) (calls : List LiqCall) :
    EverySuppressedSent env s₀ calls ↔ ∀ past call, past ++ [call] <+: calls →
      ∀ prevDebtToCover,
        attempted env call.usr call.liqPair.debtCtoken past = some prevDebtToCover →
        sameDebt call.liqPair.repayAmount prevDebtToCover ≠ .ok true := by
  constructor
  · intro h past call hpre prevDebtToCover hattempted hsame
    obtain ⟨amount, -, before, sent, -, -, -, htasks⟩ := h past call hpre
      ((suppressed_runFrom_iff hempty past call).mpr ⟨prevDebtToCover, hattempted, hsame⟩)
    exact sent.not_returnsTasks_of_bsc hchecks hnet _ htasks
  · intro h past call hpre hsuppressed
    obtain ⟨prevDebtToCover, hattempted, hsame⟩ :=
      (suppressed_runFrom_iff hempty past call).mp hsuppressed
    exact absurd hsame (h past call hpre prevDebtToCover hattempted)

end Attempts

/-- **What is suppressed.** In a run of orderly calls no liquidation is suppressed that was not
sent. On BSC, where nothing is signed, this holds of a run if and only if no call finds about the
amount of the last attempt. -/
theorem sent_of_suppressed {env : LiqEnv} {s₀ : Liquidator} {calls : List LiqCall}
    (hchecks : ChecksReceiver env.signTransaction) (hempty : s₀.usersToLiquidate = ∅) :
    ((∀ past call, past ++ [call] <+: calls →
      call.Orderly env (runFrom (Liquidator.after env) s₀ past)) →
        EverySuppressedSent env s₀ calls) ∧
    (env.net = .bsc → (EverySuppressedSent env s₀ calls ↔
      ∀ past call, past ++ [call] <+: calls → ∀ prevDebtToCover,
        attempted env call.usr call.liqPair.debtCtoken past = some prevDebtToCover →
        sameDebt call.liqPair.repayAmount prevDebtToCover ≠ .ok true)) :=
  ⟨everySuppressedSent_of_orderly hempty,
    fun hnet ↦ everySuppressedSent_iff_of_bsc hchecks hnet hempty calls⟩

/-! ## A liquidation that nobody has sent -/

/-- BNB at 300 dollars. -/
def testCtk : Dict String CtokenInfosFull :=
  (∅ : Dict String CtokenInfosFull).set vBNB
    { risks := newCtokenRisks
      balances := newCtokenBalances
      price := some (.init (300 * 10 ^ 18) 0)
      configs := ⟨18, 0, 0⟩ }

/-- `init_send_type` on BSC, with the token that the start fills in. -/
def testSendType : SendType where
  estimateGas := 1500000
  mevRatio := 0
  mapSig := .createType0Tx
  mapNet := .createType0Tx
  priceToken := some vBNB
  priceDecimals := 8

/-- `init_send_type` on Ethereum. -/
def ethereumSendType : SendType where
  estimateGas := 1500000
  mevRatio := toFloat (4 / 5)
  mapSig := .createType2Tx
  mapNet := .createType2Tx
  priceToken := none
  priceDecimals := 0

/-- USDC is repaid for BNB, with a profit of a thousand. Gas is at five gwei on BSC. -/
def testCall (sendType : SendType) (usr : String) (repayAmount : ℤ) : LiqCall where
  index := usr
  usr := usr
  ctk := testCtk
  blockInfos := ⟨0, 5 * 10 ^ 9⟩
  paths := testPaths.take 1
  liqPair := {
    profit := 10 ^ 21
    colCtoken := vBNB
    debtCtoken := vUSDC
    repayAmount := repayAmount }
  sigGasPrice := none
  sendType := sendType

/-- A test user. -/
def testUser : String := "0x9109358674f1c9a1a945a1d9880fb7ef1ddc43a3"

/-- Another test user. -/
def testUser' : String := "0x1111111111111111111111111111111111111111"

/-- Four fifths of a thousand dollars, by unit of gas. -/
def ethereumFees : TxFees :=
  .type2 533333333333333265876073039527936 533333333333333265876073039527936

/-- What an account is asked to sign for it. -/
def ethereumTx (data : Bytes) (nonce : ℤ) : TxParams where
  fees := ethereumFees
  data := data
  chainId := 1
  nonce := nonce

/-- The bytes of a signed `ethereumTx` with one path: the chain, the nonce, the fees, 22000 for the
gas, no receiver, no value, the data, an empty access list and the signature. -/
def ethereumRaw (data : Bytes) (nonce parity : UInt8) (r s : ℕ) : Bytes :=
  [0x02, 0xf9, 0x01, 0xd0, 0x01, nonce] ++
    0x8e :: natToBytes 14 533333333333333265876073039527936 ++
    0x8e :: natToBytes 14 533333333333333265876073039527936 ++
    [0x82, 0x55, 0xf0, 0x80, 0x80] ++
    [0xb9, 0x01, 0x64] ++ data ++
    [0xc0, parity] ++ 0xa0 :: natToBytes 32 r ++ 0xa0 :: natToBytes 32 s

/-- An account with the signatures of the two transactions that it is asked for. -/
def signTwo (first second : TxParams × Bytes) (_ : String) (tx : TxParams) : Except Error Bytes :=
  if ¬ IsReceiver tx.toAddr then .error .typeError
  else if tx = first.1 then .ok first.2
  else if tx = second.1 then .ok second.2
  else .error .valueError

theorem checksReceiver_signTwo (first second : TxParams × Bytes) :
    ChecksReceiver (signTwo first second) := fun _ _ h ↦ if_pos h

theorem signTwo_first {first : TxParams × Bytes} (h : IsReceiver first.1.toAddr)
    (second : TxParams × Bytes) (key : String) :
    signTwo first second key first.1 = .ok first.2 := by
  rw [signTwo, if_neg (not_not_intro h), if_pos rfl]

theorem signTwo_second {first second : TxParams × Bytes} (h : IsReceiver second.1.toAddr)
    (hother : second.1 ≠ first.1) (key : String) :
    signTwo first second key second.1 = .ok second.2 := by
  rw [signTwo, if_neg (not_not_intro h), if_neg hother, if_pos rfl]

/-- The call for a user on the first of the test paths. -/
def testData (usr : String) : Bytes := swapData usr vUSDC vBNB (testPaths.take 1)

/-- The signature of the first transaction of the test account. -/
def testSignedTx : Bytes := ethereumRaw (testData testUser) 7 0x01
  0x51ad722c2ce91b4880cc35eb5a025f708f1124d95c3e820c15032034ad9498d1
  0x5a672ee4380ba31c0c679ee08b12d1713cdc89e1cf41fed19b6cd66be36f5f81

/-- The signature of the second one. -/
def testSignedTx' : Bytes := ethereumRaw (testData testUser') 8 0x80
  0xc0bf1509a14518a65826b601b60398482531c53ab192c0693a813a5aaf57404f
  0x546e6d85b653560f0a9e6988bd1abd922f49ae8c1200fb5fb3a52ddb6b54a2c7

/-- The test account. -/
def testSign : String → TxParams → Except Error Bytes :=
  signTwo (ethereumTx (testData testUser) 7, testSignedTx)
    (ethereumTx (testData testUser') 8, testSignedTx')

theorem testSign_first (key : String) :
    testSign key { ethereumTx (testData testUser) 0 with nonce := 7 } = .ok testSignedTx :=
  signTwo_first (.inl rfl) _ key

theorem checksReceiver_testSign : ChecksReceiver testSign := checksReceiver_signTwo _ _

def testLiqEnv : LiqEnv where
  net := .bsc
  sel := .venus
  signTransaction := testSign

def ethereumEnv : LiqEnv where
  net := .ethereum
  sel := .v2
  signTransaction := testSign

/-- One account, and nobody liquidated so far. -/
def testLiquidator : Liquidator where
  usersToLiquidate := ∅
  accounts := [
    { key := "4646464646464646464646464646464646464646464646464646464646464646"
      nonce := 7 }]

theorem bytesFromPrefixed_testCall {usr : String} (husr : IsAddress usr) :
    bytesFromPrefixed (BSCVenusPancakeV2.gen usr vUSDC vBNB (testPaths.take 1))
      = .ok (testData usr) := by
  have hfirst : ∀ path ∈ testPaths.take 1, path.Valid := by
    intro path hpath
    rw [testPaths, List.take_one, List.head?_cons, Option.toList_some, List.mem_singleton] at hpath
    subst hpath
    exact ⟨by decide +kernel, by decide, by decide, by decide, by decide +kernel,
      by decide +kernel, by decide, by decide⟩
  have hdebt : IsAddress vUSDC := by decide +kernel
  have hcol : IsAddress vBNB := by decide +kernel
  exact bytesFromPrefixed_gen husr hdebt hcol hfirst (by decide : 1 < 2 ^ 256)

/-- A profit of a thousand dollars is worth the gas on BSC, at five gwei. -/
theorem transaction_testCall {usr : String} (husr : IsAddress usr) (repayAmount : ℤ) :
    (testCall testSendType usr repayAmount).transaction testLiqEnv = .ok (some ({
      fees := .type0 (5 * 10 ^ 9)
      data := testData usr
      toAddr := strFrom "0x57e0148EBA3eaB22295d668757BBF41a338E9bca" 2
      chainId := 56 }, 775 * 10 ^ 18)) := by
  have hcreate : testSendType.createLiqTransaction .bsc (10 ^ 21) ⟨0, 5 * 10 ^ 9⟩ none
      = .ok ({ fees := .type0 (5 * 10 ^ 9) }, 5 * 10 ^ 9) := by decide +kernel
  have hprice : testSendType.price .bsc .venus testCtk = .ok (3 * 10 ^ 22) := by decide +kernel
  have hgas : trueDiv (5 * 10 ^ 9) (10 ^ 18) = .ok (toFloat (5 / 10 ^ 9)) := by decide +kernel
  have hprofit : 775 * 10 ^ 18 = toFloat (toFloat (10 ^ 21 : ℤ) - toFloat (toFloat (
      toFloat (5 / 10 ^ 9) * toFloat (1500000 : ℤ)) * (3 * 10 ^ 22))) := by decide +kernel
  exact LiqCall.transaction_eq_some_iff.mpr ⟨_, _, _, _, _, _, _, hcreate, hprice, hgas, hprofit,
    by decide +kernel, List.cons_ne_nil _ _, bytesFromPrefixed_testCall husr, rfl, rfl, rfl⟩

/-- On Ethereum four fifths of it are bid for the gas. -/
theorem LiqCall.builds_ethereum {env : LiqEnv} (hnet : env.net = .ethereum) (hsel : env.sel = .v2)
    {call : LiqCall} (hsendType : call.sendType = ethereumSendType)
    (hblock : call.blockInfos = ⟨0, 5 * 10 ^ 9⟩) (hsig : call.sigGasPrice = none)
    (hrevenue : call.liqPair.profit = 10 ^ 21) (hpaths : call.paths ≠ []) {data : Bytes}
    (hdata : bytesFromPrefixed (BSCVenusPancakeV2.gen call.usr call.liqPair.debtCtoken
      call.liqPair.colCtoken call.paths) = .ok data) :
    call.Builds env (ethereumTx data 0) 200000000000000131072 := by
  have hcreate : ethereumSendType.createLiqTransaction .ethereum (10 ^ 21) ⟨0, 5 * 10 ^ 9⟩ none
      = .ok ({ fees := ethereumFees, chainId := 1 }, 533333333333333265876073039527936) := by
    decide +kernel
  have hgas : trueDiv 533333333333333265876073039527936 (10 ^ 18)
      = .ok (toFloat (533333333333333265876073039527936 / 10 ^ 18)) := by decide +kernel
  have hprofit : 200000000000000131072 = toFloat (toFloat (10 ^ 21 : ℤ) - toFloat (toFloat (
      toFloat (533333333333333265876073039527936 / 10 ^ 18) * toFloat (1500000 : ℤ)) * 1)) := by
    decide +kernel
  rw [Builds, hnet, hsel, hsendType, hblock, hsig, hrevenue]
  exact ⟨_, _, _, _, _, _, _, hcreate, rfl, hgas, hprofit, by norm_num, hpaths, hdata, rfl, rfl,
    rfl⟩

theorem transaction_testCall_ethereum {usr : String} (husr : IsAddress usr) (repayAmount : ℤ) :
    (testCall ethereumSendType usr repayAmount).transaction ethereumEnv
      = .ok (some (ethereumTx (testData usr) 0, 200000000000000131072)) :=
  LiqCall.transaction_eq_some_iff.mpr (LiqCall.builds_ethereum rfl rfl rfl rfl rfl rfl
    (List.cons_ne_nil _ _) (bytesFromPrefixed_testCall husr))

theorem isAddress_testUser : IsAddress testUser := by decide +kernel

/-- The first of the two calls has tried to send its amount. -/
private theorem attempted_testCall (repayAmount : ℤ) :
    attempted testLiqEnv testUser vUSDC [testCall testSendType testUser repayAmount]
      = some repayAmount := by
  rw [attempted, List.foldl_cons, List.foldl_nil, LiqCall.attempt.eq_def,
    transaction_testCall isAddress_testUser]
  exact if_pos ⟨rfl, rfl⟩

/-- On BSC the first call raises when its transaction is to be signed, and the second one is
suppressed. -/
theorem not_sent_of_suppressed_unsigned : ¬ ∀ (env : LiqEnv) (s₀ : Liquidator)
    (calls : List LiqCall), ChecksReceiver env.signTransaction → s₀.usersToLiquidate = ∅ →
    EverySuppressedSent env s₀ calls := by
  intro h
  have hnone := (everySuppressedSent_iff_of_bsc checksReceiver_testSign rfl rfl _).mp
    (h testLiqEnv testLiquidator [testCall testSendType testUser 1000,
      testCall testSendType testUser 1000] checksReceiver_testSign rfl)
  exact hnone [testCall testSendType testUser 1000] (testCall testSendType testUser 1000)
    (List.prefix_refl _) 1000 (attempted_testCall 1000) (by decide +kernel)

/-- On Ethereum a call sends. -/
private theorem sends_testCall (repayAmount : ℤ) :
    (testCall ethereumSendType testUser repayAmount).Sends ethereumEnv testLiquidator := by
  refine ⟨_, _, transaction_testCall_ethereum isAddress_testUser repayAmount, List.cons_ne_nil _ _,
    fun acc hacc ↦ ⟨testSignedTx, ?_⟩⟩
  have hnonce : acc.nonce = 7 := by
    obtain rfl := List.mem_singleton.mp hacc
    rfl
  have hsign : ethereumEnv.signTransaction = testSign := rfl
  rw [hnonce, hsign, testSign_first]

private theorem record?_after_testCall :
    (testLiquidator.after ethereumEnv (testCall ethereumSendType testUser 1000)).record? testUser
      vUSDC = some (1000, testUser) := by
  have hfresh : (isUserLiquidated testUser vUSDC 1000).run testLiquidator
      = (.ok false, testLiquidator) := by
    rw [run_isUserLiquidated]
    rfl
  exact ((LiqCall.returnsTasks_of_sends hfresh (sends_testCall 1000)).2 _ _).trans
    (if_pos ⟨rfl, rfl⟩)

/-- Twice the same call on Ethereum. The first one sends, and the second one does not write. -/
private theorem orderly_testCall {past : List LiqCall} {call : LiqCall}
    (hpre : past ++ [call] <+: [testCall ethereumSendType testUser 1000,
      testCall ethereumSendType testUser 1000]) :
    call.Orderly ethereumEnv (runFrom (Liquidator.after ethereumEnv) testLiquidator past) := by
  rcases past with _ | ⟨first, _ | ⟨second, past⟩⟩
  · obtain ⟨rfl, -⟩ := List.cons_prefix_cons.mp hpre
    exact ⟨fun _ _ h ↦ absurd h (Option.some_ne_none _).symm, fun _ ↦ sends_testCall 1000⟩
  · obtain ⟨hpast, hpre⟩ := List.cons_prefix_cons.mp hpre
    obtain ⟨rfl, -⟩ := List.cons_prefix_cons.mp hpre
    rw [hpast, runFrom_singleton]
    refine ⟨fun prevDebtToCover prevIndex hrecord _ ↦ ?_, fun hwrites ↦ ?_⟩
    · obtain ⟨rfl, -⟩ := Prod.mk.inj (Option.some.inj (record?_after_testCall.symm.trans hrecord))
      exact (by decide : WithinTenth 1000 1000)
    · exact absurd (hwrites.differs record?_after_testCall)
        (by decide +kernel : sameDebt 1000 1000 ≠ .ok false)
  · have hlength := hpre.length_le
    simp at hlength

/-- On BSC with an amount and twice that amount nobody is suppressed, and on Ethereum only a call
that follows one that has sent. -/
theorem sent_of_suppressed_twice :
    EverySuppressedSent testLiqEnv testLiquidator
      [testCall testSendType testUser 1000, testCall testSendType testUser 2000] ∧
    EverySuppressedSent ethereumEnv testLiquidator
      [testCall ethereumSendType testUser 1000, testCall ethereumSendType testUser 1000] := by
  refine ⟨?_, (sent_of_suppressed checksReceiver_testSign rfl).1 fun _ _ h ↦ orderly_testCall h⟩
  refine ((sent_of_suppressed checksReceiver_testSign rfl).2 rfl).mpr ?_
  intro past call hpre prevDebtToCover hattempted
  rcases past with _ | ⟨first, _ | ⟨second, past⟩⟩
  · cases hattempted
  · obtain ⟨hpast, hpre⟩ := List.cons_prefix_cons.mp hpre
    obtain ⟨rfl, -⟩ := List.cons_prefix_cons.mp hpre
    rw [hpast] at hattempted
    obtain rfl := Option.some_inj.mp ((attempted_testCall 1000).symm.trans hattempted)
    exact (by decide +kernel : sameDebt 2000 1000 ≠ .ok true)
  · have hlength := hpre.length_le
    simp at hlength

end CompoundLiquidation
