import CompoundLiquidation.Python.Bytes

/-!
# The canonical ABI encoding

The encoding of a sequence has two parts. The head holds one entry for each component: the
encoding itself where the component is static, and otherwise the offset of its encoding in the
tail. Offsets count from the start of the head. Values carry what is needed to encode them, so the
type of a value, and in particular whether it is dynamic, can be read off the value.

A reader of encoded data follows offsets, so the results say what stands at an offset: the head
entry of a dynamic component is the offset of its encoding, and behind that many bytes the
encoding begins.
-/

namespace Abi

open Python

/-- A value: a 32-byte word, a byte string, an array of values of one type, or a tuple. -/
inductive Val where
  | word (w : BitVec 256)
  | bytes (bs : Bytes)
  | array (vs : List Val)
  | tuple (vs : List Val)

/-- A number as a word. -/
def wordOf (n : ℕ) : Bytes := natToBytes 32 n

@[simp] theorem length_wordOf (n : ℕ) : (wordOf n).length = 32 := length_natToBytes 32 n

theorem natOfBytes_wordOf {n : ℕ} (h : n < 256 ^ 32) : natOfBytes (wordOf n) = n :=
  natOfBytes_natToBytes_of_lt h

/-- A byte string filled up with zeros to whole words. -/
def padRight (bs : Bytes) : Bytes := bs ++ List.replicate ((32 - bs.length % 32) % 32) 0

/-! ## Heads and tails -/

/-- A component of a sequence: whether it is dynamic, and its encoding. -/
abbrev Part := Bool × Bytes

/-- The length of a component's head entry. -/
def headSize (p : Part) : ℕ := if p.1 then 32 else p.2.length

/-- The head, when the next dynamic encoding stands at `offset`. -/
def heads (offset : ℕ) : List Part → Bytes
  | [] => []
  | p :: ps =>
    if p.1 then wordOf offset ++ heads (offset + p.2.length) ps
    else p.2 ++ heads offset ps

/-- The tail: the encodings of the dynamic components. -/
def tails (ps : List Part) : Bytes := ps.flatMap fun p ↦ if p.1 then p.2 else []

/-- Where the tail begins. -/
def headsLength (ps : List Part) : ℕ := (ps.map headSize).sum

/-- Head and tail of a sequence. -/
def assemble (ps : List Part) : Bytes := heads (headsLength ps) ps ++ tails ps

mutual

/-- Whether a value is encoded through an offset. -/
def Val.isDynamic : Val → Bool
  | .word _ => false
  | .bytes _ => true
  | .array _ => true
  | .tuple vs => Val.anyDynamic vs

/-- Whether some value is. -/
def Val.anyDynamic : List Val → Bool
  | [] => false
  | v :: vs => v.isDynamic || Val.anyDynamic vs

end

mutual

/-- The encoding of a value. -/
def Val.encode : Val → Bytes
  | .word w => wordOf w.toNat
  | .bytes bs => wordOf bs.length ++ padRight bs
  | .array vs => wordOf vs.length ++ assemble (Val.parts vs)
  | .tuple vs => assemble (Val.parts vs)

/-- The components of a sequence of values. -/
def Val.parts : List Val → List Part
  | [] => []
  | v :: vs => (v.isDynamic, v.encode) :: Val.parts vs

end

@[simp] theorem length_heads (ps : List Part) : ∀ offset,
    (heads offset ps).length = headsLength ps := by
  induction ps with
  | nil => exact fun _ ↦ rfl
  | cons p ps ih =>
    intro offset
    rw [heads, headsLength, List.map_cons, List.sum_cons, headSize, ← headsLength]
    by_cases hp : p.1 = true
    · rw [if_pos hp, if_pos hp, List.length_append, length_wordOf, ih]
    · rw [if_neg hp, if_neg hp, List.length_append, ih]

theorem tails_cons (p : Part) (ps : List Part) :
    tails (p :: ps) = (if p.1 then p.2 else []) ++ tails ps := List.flatMap_cons

theorem heads_append (ps qs : List Part) : ∀ offset,
    heads offset (ps ++ qs) = heads offset ps ++ heads (offset + (tails ps).length) qs := by
  induction ps with
  | nil => exact fun _ ↦ rfl
  | cons p ps ih =>
    intro offset
    rw [List.cons_append, heads, heads, ih, ih, tails_cons]
    by_cases hp : p.1 = true
    · rw [if_pos hp, if_pos hp, if_pos hp, List.append_assoc, List.length_append, Nat.add_assoc]
    · rw [if_neg hp, if_neg hp, if_neg hp, List.append_assoc, List.nil_append]

theorem tails_append (ps qs : List Part) : tails (ps ++ qs) = tails ps ++ tails qs :=
  List.flatMap_append

/-- The offset of a dynamic component that stands behind `pre` in a sequence `ps`. -/
def offsetIn (ps pre : List Part) : ℕ := headsLength ps + (tails pre).length

/-- The head entry of a dynamic component holds its offset. -/
theorem drop_headsLength_assemble {ps pre post : List Part} {enc : Bytes}
    (h : ps = pre ++ (true, enc) :: post) :
    ∃ rest, (assemble ps).drop (headsLength pre) = wordOf (offsetIn ps pre) ++ rest := by
  have hassoc : assemble ps = heads (headsLength ps) pre ++ (wordOf (offsetIn ps pre) ++
      (heads (offsetIn ps pre + enc.length) post ++ tails ps)) := by
    conv_lhs => rw [assemble]
    conv_lhs => arg 1; rw [h, heads_append, heads, if_pos rfl, ← h]
    rw [offsetIn, List.append_assoc, List.append_assoc]
  rw [hassoc, List.drop_left' (length_heads pre _)]
  exact ⟨_, rfl⟩

/-- At the offset of a dynamic component stands its encoding. -/
theorem drop_offsetIn_assemble {ps pre post : List Part} {enc : Bytes}
    (h : ps = pre ++ (true, enc) :: post) :
    (assemble ps).drop (offsetIn ps pre) = enc ++ tails post := by
  have htails : tails ps = tails pre ++ (enc ++ tails post) := by
    rw [h, tails_append]
    rfl
  have hlen : (heads (headsLength ps) ps ++ tails pre).length = offsetIn ps pre := by
    rw [List.length_append, length_heads, offsetIn]
  rw [assemble, htails, ← List.append_assoc, List.drop_left' hlen]

/-- A sequence of static components is their concatenation. -/
theorem assemble_static {ps : List Part} (h : ∀ p ∈ ps, p.1 = false) :
    assemble ps = (ps.map Prod.snd).flatten := by
  have htails : tails ps = [] := by
    rw [tails, List.flatMap_eq_nil_iff]
    intro p hp
    rw [h p hp, if_neg Bool.false_ne_true]
  have hheads : ∀ offset, heads offset ps = (ps.map Prod.snd).flatten := by
    clear htails
    induction ps with
    | nil => exact fun _ ↦ rfl
    | cons p ps ih =>
      intro offset
      rw [heads, h p List.mem_cons_self, if_neg Bool.false_ne_true,
        ih (fun q hq ↦ h q (List.mem_cons_of_mem p hq)), List.map_cons, List.flatten_cons]
  rw [assemble, hheads, htails, List.append_nil]

theorem parts_eq_map (vs : List Val) :
    Val.parts vs = vs.map fun v ↦ (v.isDynamic, v.encode) := by
  induction vs with
  | nil => rfl
  | cons v vs ih => rw [Val.parts, ih, List.map_cons]

theorem parts_words (ws : List (BitVec 256)) :
    Val.parts (ws.map Val.word) = ws.map fun w ↦ (false, wordOf w.toNat) := by
  rw [parts_eq_map, List.map_map]
  refine List.map_congr_left fun w _ ↦ ?_
  rw [Function.comp_apply, Val.isDynamic, Val.encode]

/-- An array of static values is its length and their encodings in order. -/
theorem encode_array_static {vs : List Val} (h : ∀ v ∈ vs, v.isDynamic = false) :
    (Val.array vs).encode = wordOf vs.length ++ vs.flatMap Val.encode := by
  have hstatic : ∀ p ∈ Val.parts vs, p.1 = false := by
    rw [parts_eq_map]
    intro p hp
    obtain ⟨v, hv, rfl⟩ := List.mem_map.mp hp
    exact h v hv
  rw [Val.encode, assemble_static hstatic, parts_eq_map, List.map_map, List.flatMap_def]
  rfl

/-- A tuple of words is the words in order. -/
theorem encode_tuple_words (ws : List (BitVec 256)) :
    (Val.tuple (ws.map Val.word)).encode = (ws.map fun w ↦ wordOf w.toNat).flatten := by
  rw [Val.encode, parts_words, assemble_static (by simp), List.map_map]
  rfl

/-- An array of words is its length and the words in order. -/
theorem encode_array_words (ws : List (BitVec 256)) :
    (Val.array (ws.map Val.word)).encode
      = wordOf ws.length ++ (ws.map fun w ↦ wordOf w.toNat).flatten := by
  rw [Val.encode, List.length_map, parts_words, assemble_static (by simp), List.map_map]
  rfl

end Abi
