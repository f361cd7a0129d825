import CompoundLiquidation.Python.Proc
import Mathlib.Data.Rat.Defs

/-!
# JSON values

What `json.load` returns for what `json.dump` wrote, as long as only integers, floats, texts, lists
and objects with text keys are written. A file can then be represented by the value itself. Finite
floats are exact rationals.

The one round trip that takes an argument is that of dictionaries: an object keeps the order of its
keys, so rebuilding a dictionary entry by entry gives back the same dictionary.
-/

namespace Python

/-- A JSON value. -/
inductive Json where
  | int (n : ℤ)
  | float (q : ℚ)
  | str (s : String)
  | list (items : List Json)
  | obj (entries : List (String × Json))

namespace Json

/-- `j[key]`. -/
def item (j : Json) (key : String) : Except Error Json :=
  match j with
  | .obj entries => okOr (entries.lookup key) (.keyError key)
  | _ => .error .typeError

/-- `j.get(key, default)`. -/
def getD (j : Json) (key : String) (default : Json) : Except Error Json :=
  match j with
  | .obj entries => .ok ((entries.lookup key).getD default)
  | _ => .error .attributeError

/-- `j[i]`. -/
def index (j : Json) (i : ℕ) : Except Error Json :=
  match j with
  | .list items => okOr items[i]? .indexError
  | _ => .error .typeError

/-- The entries of `j.items()`. -/
def items (j : Json) : Except Error (List (String × Json)) :=
  match j with
  | .obj entries => .ok entries
  | _ => .error .attributeError

/-- The elements of a list that is unpacked. -/
def elements (j : Json) : Except Error (List Json) :=
  match j with
  | .list items => .ok items
  | _ => .error .typeError

/-- A value that is used as an integer. -/
def asInt (j : Json) : Except Error ℤ :=
  match j with
  | .int n => .ok n
  | _ => .error .typeError

/-- A value that is used as a number. -/
def asNumber (j : Json) : Except Error ℚ :=
  match j with
  | .int n => .ok n
  | .float q => .ok q
  | _ => .error .typeError

/-- A value that is used as a text. -/
def asStr (j : Json) : Except Error String :=
  match j with
  | .str s => .ok s
  | _ => .error .typeError

/-- Lookup in an object, entry by entry. -/
@[simp] theorem item_obj_cons (e : String × Json) (entries : List (String × Json)) (key : String) :
    item (.obj (e :: entries)) key
      = if key = e.1 then .ok e.2 else item (.obj entries) key := by
  rw [item, item, Dict.lookup_cons_ite]
  by_cases h : key = e.1
  · rw [if_pos h, if_pos h, okOr_some]
  · rw [if_neg h, if_neg h]

@[simp] theorem getD_obj_cons (e : String × Json) (entries : List (String × Json)) (key : String)
    (default : Json) : getD (.obj (e :: entries)) key default
      = if key = e.1 then .ok e.2 else getD (.obj entries) key default := by
  rw [getD, getD, Dict.lookup_cons_ite]
  by_cases h : key = e.1
  · rw [if_pos h, if_pos h, Option.getD_some]
  · rw [if_neg h, if_neg h]

@[simp] theorem getD_obj_nil (key : String) (default : Json) :
    getD (.obj []) key default = .ok default := rfl

@[simp] theorem asInt_int (n : ℤ) : asInt (.int n) = .ok n := rfl

@[simp] theorem asNumber_float (q : ℚ) : asNumber (.float q) = .ok q := rfl

@[simp] theorem asStr_str (s : String) : asStr (.str s) = .ok s := rfl

end Json

/-! ## Dictionaries -/

section Dict

variable {ν μ : Type}

/-- The object with `write` of every value. -/
def Dict.toJson (write : ν → Json) (d : Dict String ν) : Json :=
  .obj (d.entries.map fun e ↦ (e.1, write e.2))

/-- `results = {}; for key, value in j.items(): results[key] = read(value)`. -/
def Json.toDict (read : Json → Except Error ν) (j : Json) : Except Error (Dict String ν) := do
  let entries ← j.items
  entries.foldlM (fun results e ↦ do
    let value ← read e.2
    return results.set e.1 value) ∅

private theorem foldlM_read {write : ν → Json} {read : Json → Except Error μ} {f : ν → μ}
    (h : ∀ v, read (write v) = .ok (f v)) (l : List (String × ν)) : ∀ d : Dict String μ,
    (l.map fun e ↦ (e.1, write e.2)).foldlM (fun results e ↦ do
      let value ← read e.2
      return results.set e.1 value) d
      = (.ok ((l.map fun e ↦ (e.1, f e.2)).foldl (fun acc p ↦ acc.set p.1 p.2) d) :
          Except Error (Dict String μ)) := by
  induction l with
  | nil => exact fun _ ↦ rfl
  | cons e l ih =>
    intro d
    rw [List.map_cons, List.foldlM_cons, h, List.map_cons, List.foldl_cons]
    exact ih (d.set e.1 (f e.2))

/-- Reading back a dictionary whose values are read back as `f` of themselves. -/
theorem Json.toDict_toJson {write : ν → Json} {read : Json → Except Error μ} {f : ν → μ}
    (h : ∀ v, read (write v) = .ok (f v)) (d : Dict String ν) :
    (d.toJson write).toDict read = .ok (d.mapWithKey fun _ v ↦ f v) := by
  rw [toDict, Dict.toJson, items, ok_bind, foldlM_read h, Except.ok.injEq]
  apply Dict.ext
  refine (Dict.entries_foldl_set _ ?_).trans (List.nil_append _)
  rw [Dict.keys_empty, List.nil_append]
  exact (d.mapWithKey fun _ v ↦ f v).nodup_keys

/-- A dictionary comes back as it was written. -/
theorem Json.toDict_toJson_self {write : ν → Json} {read : Json → Except Error ν}
    (h : ∀ v, read (write v) = .ok v) (d : Dict String ν) :
    (d.toJson write).toDict read = .ok d := by
  rw [Json.toDict_toJson h, Dict.mapWithKey_id]

end Dict

end Python
