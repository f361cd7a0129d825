import CompoundLiquidation.Python.Dict
import Mathlib.Data.Int.Notation

/-!
# Computations that may raise and keep what they did

A method that raises half way leaves the assignments it has already made. So the state is threaded
*outside* the exception: a computation returns an outcome and a state in every case, and the state
that comes with an error is the one the exception left behind. `StateT σ (Except ε)` would throw
that state away, and with it every question about what a caller that catches the exception finds.

The two rules at the end are the ones used over and over. `Keeps` is the frame rule: a relation
between the state before and the state after that is reflexive and transitive is respected by a
whole computation as soon as its pieces respect it, whether or not one of them raises. The
inversion lemma `run_bind_ok` takes a successful run of a sequence apart.
-/

namespace Python

/-- The exceptions of the language a modelled program can raise. `exception` is an explicit
`raise Exception(..)` together with its text. -/
inductive Error where
  | keyError (key : String)
  | indexError
  | valueError
  | typeError
  | attributeError
  | zeroDivisionError
  | fileNotFoundError (path : String)
  | exception (text : String)
deriving DecidableEq, Repr

section Except

universe u

variable {ε : Type*} {α β : Type u}

@[simp] theorem ok_bind (a : α) (f : α → Except ε β) : (Except.ok a >>= f) = f a := rfl

@[simp] theorem error_bind (e : ε) (f : α → Except ε β) : (Except.error e >>= f) = .error e := rfl

/-- A sequence that returns. -/
theorem exists_of_bind_ok {x : Except ε α} {f : α → Except ε β} {b : β} (h : x >>= f = .ok b) :
    ∃ a, x = .ok a ∧ f a = .ok b := by
  cases x with
  | error e => cases h
  | ok a => exact ⟨a, rfl, h⟩

/-- The value of an option that must be there; `e` is raised when it is not. -/
def okOr (x : Option α) (e : ε) : Except ε α :=
  match x with
  | some a => .ok a
  | none => .error e

@[simp] theorem okOr_some (a : α) (e : ε) : okOr (some a) e = .ok a := rfl

@[simp] theorem okOr_none (e : ε) : okOr (none : Option α) e = .error e := rfl

/-- `d[k]`. -/
def Dict.item {ν : Type*} (d : Dict String ν) (k : String) : Except Error ν :=
  okOr (d.get? k) (.keyError k)

theorem Dict.item_eq_ok_iff {ν : Type*} {d : Dict String ν} {k : String} {v : ν} :
    d.item k = .ok v ↔ d.get? k = some v := by
  rw [Dict.item]
  rcases d.get? k with _ | w
  · exact ⟨fun h ↦ (by cases h), fun h ↦ (by cases h)⟩
  · rw [okOr_some, Except.ok.injEq, Option.some_inj]

/-- `a // b` for integers. -/
def floorDiv (a b : ℤ) : Except Error ℤ :=
  if b = 0 then .error .zeroDivisionError else .ok (a.fdiv b)

theorem floorDiv_of_pos {a b : ℤ} (hb : 0 < b) : floorDiv a b = .ok (a / b) := by
  rw [floorDiv, if_neg (Int.ne_of_gt hb), Int.fdiv_eq_ediv_of_nonneg a (Int.le_of_lt hb)]

end Except

/-- A computation over a state `σ` that may raise an `ε`. -/
def Proc (σ ε α : Type*) := σ → Except ε α × σ

namespace Proc

variable {σ ε α β : Type*}

/-- Run a computation from a state. -/
def run (x : Proc σ ε α) (s : σ) : Except ε α × σ := x s

/-- Return a value. -/
def ret (a : α) : Proc σ ε α := fun s ↦ (.ok a, s)

/-- Sequencing: a raise skips what follows and keeps the state reached. -/
def andThen (x : Proc σ ε α) (f : α → Proc σ ε β) : Proc σ ε β := fun s ↦
  match x s with
  | (.ok a, s') => f a s'
  | (.error e, s') => (.error e, s')

/-- Read the state. -/
def read : Proc σ ε σ := fun s ↦ (.ok s, s)

/-- Replace the state by `f` of it. -/
def modify (f : σ → σ) : Proc σ ε Unit := fun s ↦ (.ok (), f s)

/-- Raise. -/
def raise (e : ε) : Proc σ ε α := fun s ↦ (.error e, s)

/-- A computation that does not touch the state. -/
def ofExcept (x : Except ε α) : Proc σ ε α := fun s ↦ (x, s)

/-- `okOr` as a computation. -/
def ofOption (x : Option α) (e : ε) : Proc σ ε α := ofExcept (okOr x e)

/-- Run `f` on each element in turn. -/
def forEach (l : List α) (f : α → Proc σ ε Unit) : Proc σ ε Unit :=
  match l with
  | [] => ret ()
  | a :: l => andThen (f a) fun _ ↦ forEach l f

/-- Run a computation on one component of a larger state. -/
def zoom {τ : Type*} (get : τ → σ) (put : σ → τ → τ) (x : Proc σ ε α) : Proc τ ε α := fun t ↦
  ((x (get t)).1, put (x (get t)).2 t)

instance : Monad (Proc σ ε) where
  pure := ret
  bind := andThen

@[ext] theorem ext {x y : Proc σ ε α} (h : ∀ s, x.run s = y.run s) : x = y := funext h

@[simp] theorem run_pure (a : α) (s : σ) : (pure a : Proc σ ε α).run s = (.ok a, s) := rfl

theorem run_bind {α β : Type _} (x : Proc σ ε α) (f : α → Proc σ ε β) (s : σ) :
    (x >>= f).run s = match x.run s with
      | (.ok a, s') => (f a).run s'
      | (.error e, s') => (.error e, s') := rfl

@[simp] theorem run_read (s : σ) : (read : Proc σ ε σ).run s = (.ok s, s) := rfl

@[simp] theorem run_modify (f : σ → σ) (s : σ) :
    (modify f : Proc σ ε Unit).run s = (.ok (), f s) := rfl

@[simp] theorem run_raise (e : ε) (s : σ) : (raise e : Proc σ ε α).run s = (.error e, s) := rfl

@[simp] theorem run_ofExcept (x : Except ε α) (s : σ) :
    (ofExcept x : Proc σ ε α).run s = (x, s) := rfl

@[simp] theorem run_ofOption_some (a : α) (e : ε) (s : σ) :
    (ofOption (some a) e : Proc σ ε α).run s = (.ok a, s) := rfl

@[simp] theorem run_ofOption_none (e : ε) (s : σ) :
    (ofOption none e : Proc σ ε α).run s = (.error e, s) := rfl

@[simp] theorem run_zoom {τ : Type*} (get : τ → σ) (put : σ → τ → τ) (x : Proc σ ε α) (t : τ) :
    (zoom get put x).run t = ((x.run (get t)).1, put (x.run (get t)).2 t) := rfl

theorem forEach_nil (f : α → Proc σ ε Unit) : forEach [] f = (pure () : Proc σ ε Unit) := rfl

theorem forEach_cons (a : α) (l : List α) (f : α → Proc σ ε Unit) :
    forEach (a :: l) f = f a >>= fun _ ↦ forEach l f := rfl

/-- A loop of assignments. -/
theorem run_forEach_modify (f : α → σ → σ) (l : List α) : ∀ s : σ,
    (forEach l fun a ↦ (modify (f a) : Proc σ ε Unit)).run s
      = (.ok (), l.foldl (fun s a ↦ f a s) s) := by
  induction l with
  | nil => exact fun _ ↦ rfl
  | cons a l ih => exact fun s ↦ ih (f a s)

/-! ## Loops that read each element before they act on it -/

section Parsed

variable {π : Type*}

/-- The readings of the elements in front of the first one that cannot be read. -/
def parsedPrefix (read : α → Except ε π) : List α → List (α × π)
  | [] => []
  | a :: l =>
    match read a with
    | .ok p => (a, p) :: parsedPrefix read l
    | .error _ => []

theorem parsedPrefix_cons_of_ok {read : α → Except ε π} {a : α} {p : π} (h : read a = .ok p)
    (l : List α) : parsedPrefix read (a :: l) = (a, p) :: parsedPrefix read l := by
  rw [parsedPrefix, h]

/-- A loop whose body reads its element, or raises, and then acts on the state has acted on the
elements in front of the first unreadable one. -/
theorem state_forEach_parsed {π : Type} (read : α → Except ε π) (act : α → π → σ → σ)
    (l : List α) : ∀ s : σ,
    ((forEach l fun a ↦ (ofExcept (read a) >>= fun p ↦ modify (act a p) : Proc σ ε Unit)).run s).2
      = (parsedPrefix read l).foldl (fun s ap ↦ act ap.1 ap.2 s) s := by
  induction l with
  | nil => exact fun _ ↦ rfl
  | cons a l ih =>
    intro s
    rw [forEach_cons, parsedPrefix, run_bind, run_bind, run_ofExcept]
    rcases read a with e | p
    · rfl
    · exact ih _

theorem read_of_mem_parsedPrefix {read : α → Except ε π} {l : List α} {a : α} {p : π}
    (h : (a, p) ∈ parsedPrefix read l) : read a = .ok p := by
  induction l with
  | nil => simp [parsedPrefix] at h
  | cons b l ih =>
    rw [parsedPrefix] at h
    rcases hb : read b with e | q
    · simp [hb] at h
    · simp only [hb, List.mem_cons, Prod.mk.injEq] at h
      rcases h with ⟨rfl, rfl⟩ | h
      · exact hb
      · exact ih h

end Parsed

section Sequencing

variable {α β : Type _}

theorem run_bind_of_ok {x : Proc σ ε α} {f : α → Proc σ ε β} {s s' : σ} {a : α}
    (h : x.run s = (.ok a, s')) : (x >>= f).run s = (f a).run s' := by
  rw [run_bind, h]

theorem run_bind_of_error {x : Proc σ ε α} {f : α → Proc σ ε β} {s s' : σ} {e : ε}
    (h : x.run s = (.error e, s')) : (x >>= f).run s = (.error e, s') := by
  rw [run_bind, h]

/-- A sequence that returns did so piece by piece. -/
theorem run_bind_ok {x : Proc σ ε α} {f : α → Proc σ ε β} {s s'' : σ} {b : β}
    (h : (x >>= f).run s = (.ok b, s'')) :
    ∃ a s', x.run s = (.ok a, s') ∧ (f a).run s' = (.ok b, s'') := by
  rw [run_bind] at h
  match hx : x.run s with
  | (.ok a, s') =>
    rw [hx] at h
    exact ⟨a, s', rfl, h⟩
  | (.error e, s') =>
    rw [hx] at h
    simp at h

/-- What every round of a loop that returns has kept of the accumulator, the loop has. -/
theorem run_foldlM_ok {Inv : β → Prop} {f : β → α → Proc σ ε β} {l : List α}
    (hstep : ∀ b, ∀ a ∈ l, ∀ s b' s', Inv b → (f b a).run s = (.ok b', s') → Inv b') :
    ∀ {b b' : β} {s s' : σ}, Inv b → (l.foldlM f b).run s = (.ok b', s') → Inv b' := by
  induction l with
  | nil =>
    intro b b' s s' hb h
    rw [← Except.ok.inj (Prod.mk.inj h).1]
    exact hb
  | cons a l ih =>
    intro b b' s s' hb h
    rw [List.foldlM_cons] at h
    obtain ⟨b₁, s₁, hone, hrest⟩ := run_bind_ok h
    exact ih (fun b a' ha' ↦ hstep b a' (List.mem_cons_of_mem a ha'))
      (hstep b a List.mem_cons_self s b₁ s₁ hb hone) hrest

/-- What every round of a loop that returns has kept, the loop has. So it ends with what it began
with or some element brought about, where each round keeps that. -/
theorem run_forEach_ok {I Q : σ → Prop} {E : α → Prop} {f : α → Proc σ ε Unit} {l : List α}
    (hstep : ∀ a ∈ l, ∀ s s', I s → (f a).run s = (.ok (), s') → I s' ∧ (Q s ∨ E a → Q s')) :
    ∀ {s s' : σ}, I s → (forEach l f).run s = (.ok (), s') →
      I s' ∧ (Q s ∨ (∃ a ∈ l, E a) → Q s') := by
  induction l with
  | nil =>
    intro s s' hs h
    obtain ⟨-, rfl⟩ := Prod.mk.inj h
    refine ⟨hs, fun hq ↦ hq.resolve_right ?_⟩
    rintro ⟨a, ha, -⟩
    exact List.not_mem_nil ha
  | cons a l ih =>
    intro s s' hs h
    rw [forEach_cons] at h
    obtain ⟨_, s₁, hone, hrest⟩ := run_bind_ok h
    obtain ⟨hs₁, hq₁⟩ := hstep a List.mem_cons_self s s₁ hs hone
    obtain ⟨hs', hq'⟩ := ih (fun b hb ↦ hstep b (List.mem_cons_of_mem a hb)) hs₁ hrest
    refine ⟨hs', ?_⟩
    rw [List.exists_mem_cons_iff, ← or_assoc]
    exact fun hq ↦ hq' (hq.imp_left hq₁)

/-- What the second computation leaves alone is as the first one left it. -/
theorem proj_bind {γ : Type*} (g : σ → γ) {x : Proc σ ε α} {f : α → Proc σ ε β}
    (hf : ∀ a s, g ((f a).run s).2 = g s) (s : σ) : g ((x >>= f).run s).2 = g (x.run s).2 := by
  rw [run_bind]
  match x.run s with
  | (.ok a, s') => exact hf a s'
  | (.error e, s') => rfl

end Sequencing

/-! ## The frame rule -/

/-- Every run of `x`, whether it returns or raises, leaves a state related by `R` to the state it
started from. -/
def Keeps (R : σ → σ → Prop) (x : Proc σ ε α) : Prop := ∀ s, R s (x.run s).2

section Keeps

variable {R : σ → σ → Prop}

theorem keeps_ofExcept (hrefl : ∀ s, R s s) (x : Except ε α) :
    Keeps R (ofExcept x : Proc σ ε α) := fun s ↦ hrefl s

theorem keeps_pure (hrefl : ∀ s, R s s) (a : α) : Keeps R (pure a : Proc σ ε α) := fun s ↦ hrefl s

theorem keeps_read (hrefl : ∀ s, R s s) : Keeps R (read : Proc σ ε σ) := fun s ↦ hrefl s

theorem keeps_raise (hrefl : ∀ s, R s s) (e : ε) : Keeps R (raise e : Proc σ ε α) :=
  fun s ↦ hrefl s

theorem keeps_modify {f : σ → σ} (h : ∀ s, R s (f s)) : Keeps R (modify f : Proc σ ε Unit) := h

/-- The frame rule for a sequence: `T` holds across it when it follows from `R` across the first
part and `Q` across the second, and from `R` alone where the first part raises. -/
theorem keeps_then {α β : Type _} {Q T : σ → σ → Prop} (htrans : ∀ s t u, R s t → Q t u → T s u)
    (hraise : ∀ s t, R s t → T s t) {x : Proc σ ε α} {f : α → Proc σ ε β} (hx : Keeps R x)
    (hf : ∀ a, Keeps Q (f a)) : Keeps T (x >>= f) := by
  intro s
  have hs := hx s
  rw [run_bind]
  match hrun : x.run s with
  | (.ok a, s') =>
    rw [hrun] at hs
    exact htrans s s' _ hs (hf a s')
  | (.error e, s') =>
    rw [hrun] at hs
    exact hraise s s' hs

theorem keeps_bind {α β : Type _} (htrans : ∀ s t u, R s t → R t u → R s u)
    {x : Proc σ ε α} {f : α → Proc σ ε β} (hx : Keeps R x) (hf : ∀ a, Keeps R (f a)) :
    Keeps R (x >>= f) := keeps_then htrans (fun _ _ h ↦ h) hx hf

theorem keeps_ite {c : Prop} [Decidable c] {x y : Proc σ ε α} (hx : c → Keeps R x)
    (hy : ¬ c → Keeps R y) : Keeps R (if c then x else y) := by
  by_cases h : c
  · rw [if_pos h]
    exact hx h
  · rw [if_neg h]
    exact hy h

theorem keeps_forEach (hrefl : ∀ s, R s s) (htrans : ∀ s t u, R s t → R t u → R s u)
    (l : List α) {f : α → Proc σ ε Unit} (hf : ∀ a ∈ l, Keeps R (f a)) :
    Keeps R (forEach l f) := by
  induction l with
  | nil => exact keeps_pure hrefl ()
  | cons a l ih =>
    rw [forEach_cons]
    exact keeps_bind htrans (hf a List.mem_cons_self) fun _ ↦
      ih fun b hb ↦ hf b (List.mem_cons_of_mem a hb)

end Keeps

end Proc

end Python
