import CompoundLiquidation.Python.Proc

/-!
# Loops that collect

A loop looks at one element after the other, puts what it finds at the end of a list or into a
dictionary, and is over when looking raises. What it has collected then is what it found at the
elements, in their order, and it comes to its end exactly if looking raises nowhere.
-/

namespace Python

variable {α β ε : Type}

/-- A result that is changed. -/
theorem exists_of_map_ok {x : Except ε α} {f : α → β} {b : β} (h : x.map f = .ok b) :
    ∃ a, x = .ok a ∧ f a = b := by
  cases x with
  | error e => cases h
  | ok a => exact ⟨a, rfl, Except.ok.inj h⟩

/-- What `f` finds at the elements. -/
def collect (f : α → Except ε (Option β)) : List α → Except ε (List β)
  | [] => .ok []
  | a :: l => do
    let found ← f a
    let rest ← collect f l
    return found.toList ++ rest

section Collect

variable {f : α → Except ε (Option β)} {l : List α}

/-- A loop over one element more. -/
theorem collect_cons_eq_ok {a : α} {out : List β} (h : collect f (a :: l) = .ok out) :
    ∃ found rest, f a = .ok found ∧ collect f l = .ok rest ∧ out = found.toList ++ rest := by
  rw [collect] at h
  rcases hfound : f a with e | found
  · rw [hfound] at h
    cases h
  rcases hrest : collect f l with e | rest
  · rw [hfound, hrest] at h
    cases h
  · rw [hfound, hrest] at h
    exact ⟨found, rest, rfl, rfl, (Except.ok.inj h).symm⟩

/-- Where looking does not raise the loop is a filter. -/
theorem collect_of_forall {g : α → Option β} (h : ∀ a ∈ l, f a = .ok (g a)) :
    collect f l = .ok (l.filterMap g) := by
  induction l with
  | nil => rfl
  | cons a l ih =>
    rw [collect, h a List.mem_cons_self, ok_bind, ih fun b hb ↦ h b (List.mem_cons_of_mem a hb),
      ok_bind, List.filterMap_cons]
    rcases g a with _ | b
    · rfl
    · rfl

/-- The loop comes to its end exactly if looking raises nowhere. -/
theorem exists_collect_iff :
    (∃ out, collect f l = .ok out) ↔ ∀ a ∈ l, ∃ found, f a = .ok found := by
  constructor
  · rintro ⟨out, h⟩
    induction l generalizing out with
    | nil => exact fun a ha ↦ absurd ha List.not_mem_nil
    | cons b l ih =>
      obtain ⟨found, rest, hfound, hrest, -⟩ := collect_cons_eq_ok h
      intro a ha
      rcases List.mem_cons.mp ha with rfl | ha
      · exact ⟨found, hfound⟩
      · exact ih rest hrest a ha
  · intro h
    induction l with
    | nil => exact ⟨[], rfl⟩
    | cons a l ih =>
      obtain ⟨found, hfound⟩ := h a List.mem_cons_self
      obtain ⟨rest, hrest⟩ := ih fun b hb ↦ h b (List.mem_cons_of_mem a hb)
      refine ⟨found.toList ++ rest, ?_⟩
      rw [collect, hfound, ok_bind, hrest]
      rfl

theorem mem_collect_iff {out : List β} (h : collect f l = .ok out) (b : β) :
    b ∈ out ↔ ∃ a ∈ l, f a = .ok (some b) := by
  induction l generalizing out with
  | nil =>
    rw [← Except.ok.inj h]
    refine iff_of_false List.not_mem_nil ?_
    rintro ⟨a, ha, -⟩
    exact List.not_mem_nil ha
  | cons a l ih =>
    obtain ⟨found, rest, hfound, hrest, rfl⟩ := collect_cons_eq_ok h
    rw [List.mem_append, Option.mem_toList, ih hrest]
    simp only [List.exists_mem_cons_iff, hfound, Except.ok.injEq]

/-- The labels of what is found are labels of the elements, in their order. -/
theorem sublist_of_collect {κ : Type} {label : α → κ} {label' : β → κ}
    (hlabel : ∀ a b, f a = .ok (some b) → label' b = label a) {out : List β}
    (h : collect f l = .ok out) : (out.map label').Sublist (l.map label) := by
  induction l generalizing out with
  | nil =>
    rw [← Except.ok.inj h]
    exact List.Sublist.refl []
  | cons a l ih =>
    obtain ⟨found, rest, hfound, hrest, rfl⟩ := collect_cons_eq_ok h
    rw [List.map_cons]
    rcases found with _ | b
    · exact (ih hrest).cons (label a)
    · rw [Option.toList_some, List.singleton_append, List.map_cons, hlabel a b hfound]
      exact (ih hrest).cons_cons (label a)

end Collect

/-- A loop that has come to its end has looked at each element. -/
theorem exists_step_of_foldlM {σ : Type} {step : σ → α → Except ε σ} {l : List α} {s t : σ}
    (h : l.foldlM step s = .ok t) {a : α} (ha : a ∈ l) : ∃ s' t', step s' a = .ok t' := by
  induction l generalizing s with
  | nil => exact absurd ha List.not_mem_nil
  | cons b l ih =>
    rw [List.foldlM_cons] at h
    rcases hstep : step s b with e | s'
    · rw [hstep] at h
      cases h
    rw [hstep, ok_bind] at h
    rcases List.mem_cons.mp ha with rfl | ha
    · exact ⟨s, s', hstep⟩
    · exact ih h ha

/-- A loop that appends. -/
theorem foldlM_append (f : α → Except ε (Option β)) (l : List α) : ∀ acc : List β,
    l.foldlM (fun acc a ↦ (f a).map fun found ↦ acc ++ found.toList) acc
      = (collect f l).map (acc ++ ·) := by
  induction l with
  | nil => exact fun acc ↦ by rw [List.foldlM_nil, collect, Except.map, List.append_nil]; rfl
  | cons a l ih =>
    intro acc
    rw [List.foldlM_cons, collect]
    rcases f a with e | found
    · rfl
    rw [Except.map, ok_bind, ok_bind, ih]
    rcases collect f l with e | rest
    · rfl
    · exact congrArg Except.ok (List.append_assoc acc found.toList rest)

/-- A loop that changes its state by what it finds. -/
theorem foldlM_elim {σ : Type} (f : α → Except ε (Option β)) (step : σ → β → σ) (l : List α) :
    ∀ s : σ, l.foldlM (fun s a ↦ (f a).map fun found ↦ found.elim s (step s)) s
      = (collect f l).map fun bs ↦ bs.foldl step s := by
  induction l with
  | nil => exact fun s ↦ rfl
  | cons a l ih =>
    intro s
    rw [List.foldlM_cons, collect]
    rcases f a with e | found
    · rfl
    rw [Except.map, ok_bind, ok_bind, ih]
    rcases collect f l with e | rest
    · rfl
    · rcases found with _ | b
      · rfl
      · rfl

/-- A loop that sets entries. -/
theorem foldlM_set {κ ν : Type} [DecidableEq κ] (f : α → Except ε (Option (κ × ν))) (l : List α) :
    ∀ d : Dict κ ν,
      l.foldlM (fun d a ↦ (f a).map fun found ↦ found.elim d fun e ↦ d.set e.1 e.2) d
        = (collect f l).map fun es ↦ es.foldl (fun d e ↦ d.set e.1 e.2) d :=
  foldlM_elim f (fun (d : Dict κ ν) e ↦ d.set e.1 e.2) l

/-- A loop that has gone through an element has a last one. -/
theorem exists_getLast?_of_mem {l : List α} {a : α} (h : a ∈ l) :
    ∃ last, l.getLast? = some last :=
  Option.isSome_iff_exists.mp (List.getLast?_isSome.mpr (List.ne_nil_of_mem h))

/-- A loop of loops. -/
theorem foldlM_flatMap {σ : Type} {step : σ → β → Except ε σ} {f : α → List β} (l : List α) :
    ∀ s, (l.flatMap f).foldlM step s = l.foldlM (fun s a ↦ (f a).foldlM step s) s := by
  induction l with
  | nil => exact fun _ ↦ rfl
  | cons a l ih =>
    intro s
    rw [List.flatMap_cons, List.foldlM_append, List.foldlM_cons]
    exact congrArg _ (funext ih)

/-- Two loops that do the same at each element. -/
theorem foldlM_congr_of_forall {σ : Type} {step step' : σ → α → Except ε σ} {l : List α}
    (h : ∀ a ∈ l, ∀ s, step s a = step' s a) : ∀ s, l.foldlM step s = l.foldlM step' s := by
  induction l with
  | nil => exact fun _ ↦ rfl
  | cons a l ih =>
    intro s
    rw [List.foldlM_cons, List.foldlM_cons, h a List.mem_cons_self]
    rcases step' s a with e | t
    · rfl
    · exact ih (fun b hb ↦ h b (List.mem_cons_of_mem a hb)) t

/-- Two loops side by side. Where the first one does not raise and their states stay related at each
element, the second one does not raise either and they end in related states. -/
theorem foldlM_related {σ τ : Type} {R : σ → τ → Prop} {step : σ → α → Except ε σ}
    {step' : τ → α → Except ε τ} {l : List α}
    (h : ∀ a ∈ l, ∀ s t s', R s t → step s a = .ok s' → ∃ t', step' t a = .ok t' ∧ R s' t') :
    ∀ {s s' t}, R s t → l.foldlM step s = .ok s' → ∃ t', l.foldlM step' t = .ok t' ∧ R s' t' := by
  induction l with
  | nil =>
    intro s s' t hst hs
    exact ⟨t, rfl, Except.ok.inj hs ▸ hst⟩
  | cons a l ih =>
    intro s s' t hst hs
    rw [List.foldlM_cons] at hs
    rcases hstep : step s a with e | s₁
    · rw [hstep] at hs
      cases hs
    rw [hstep, ok_bind] at hs
    obtain ⟨t₁, ht₁, hrel⟩ := h a List.mem_cons_self s t s₁ hst hstep
    rw [List.foldlM_cons, ht₁, ok_bind]
    exact ih (fun b hb ↦ h b (List.mem_cons_of_mem a hb)) hrel hs

end Python
