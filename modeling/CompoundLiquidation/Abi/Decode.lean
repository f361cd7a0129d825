import CompoundLiquidation.Abi.Encode

/-!
# Decoding canonical data

A decoder reads a value of a given type from the front of a buffer and ignores what follows it, so
that decoders compose: a component of a sequence is decoded where it stands when its type is
static, and otherwise behind the offset that stands in its place. Nothing checks that the offsets
lead where the encoder would have put them.

The result of the module is the round trip: what the encoder writes for a well-typed value is read
back, whatever follows it. Well-typedness carries the size limits of the format, since a length or
an offset that does not fit in a word is written truncated.
-/

namespace Abi

open Python

/-- The type of a value. An address, a boolean and a number of any width are words below a power of
two. -/
inductive Ty where
  | uint (bits : ℕ)
  | bytes
  | array (t : Ty)
  | tuple (ts : List Ty)

mutual

/-- Whether values of a type are encoded through an offset. -/
def Ty.isDynamic : Ty → Bool
  | .uint _ => false
  | .bytes => true
  | .array _ => true
  | .tuple ts => Ty.anyDynamic ts

/-- Whether values of some type are. -/
def Ty.anyDynamic : List Ty → Bool
  | [] => false
  | t :: ts => t.isDynamic || Ty.anyDynamic ts

end

mutual

/-- The length of the head entry of a component. -/
def Ty.headSize : Ty → ℕ
  | .uint _ => 32
  | .bytes => 32
  | .array _ => 32
  | .tuple ts => if Ty.anyDynamic ts then 32 else Ty.headsSize ts

/-- The length of the head of a sequence. -/
def Ty.headsSize : List Ty → ℕ
  | [] => 0
  | t :: ts => t.headSize + Ty.headsSize ts

end

/-! ## Reading -/

/-- The number in the word at `pos`. -/
def wordAt (bs : Bytes) (pos : ℕ) : Option ℕ :=
  if pos + 32 ≤ bs.length then some (natOfBytes (slice bs pos (pos + 32))) else none

/-- The component whose head entry stands at `pos`. -/
def component (dynamic : Bool) (decode : Bytes → Option Val) (frame : Bytes) (pos : ℕ) :
    Option Val :=
  if dynamic then (wordAt frame pos).bind fun offset ↦ decode (frame.drop offset)
  else decode (frame.drop pos)

/-- Components of one type, read one after the other. -/
def readEach (read : ℕ → Option Val) (size : ℕ) : ℕ → ℕ → Option (List Val)
  | 0, _ => some []
  | n + 1, pos => (read pos).bind fun v ↦ (readEach read size n (pos + size)).map (v :: ·)

mutual

/-- The value at the front of a buffer. -/
def Ty.decode : Ty → Bytes → Option Val
  | .uint bits, bs =>
    (wordAt bs 0).bind fun n ↦ if n < 2 ^ bits then some (.word (BitVec.ofNat 256 n)) else none
  | .bytes, bs =>
    (wordAt bs 0).bind fun n ↦
      if 32 + n ≤ bs.length then some (.bytes (slice bs 32 (32 + n))) else none
  | .array t, bs =>
    (wordAt bs 0).bind fun n ↦
      (readEach (component t.isDynamic t.decode (bs.drop 32)) t.headSize n 0).map .array
  | .tuple ts, bs => (Ty.decodeSeq ts bs 0).map .tuple

/-- The components of a sequence, from the head entry at `pos` on. -/
def Ty.decodeSeq : List Ty → Bytes → ℕ → Option (List Val)
  | [], _, _ => some []
  | t :: ts, frame, pos =>
    (component t.isDynamic t.decode frame pos).bind fun v ↦
      (Ty.decodeSeq ts frame (pos + t.headSize)).map (v :: ·)

end

/-! ## Well-typed values -/

/-- Every offset in the encoding of a sequence fits in a word. -/
def OffsetsFit (ps : List Part) : Prop :=
  ∀ pre enc post, ps = pre ++ (true, enc) :: post → offsetIn ps pre < 256 ^ 32

mutual

/-- A value of a type, small enough to be encoded. -/
def Val.HasTy : Val → Ty → Prop
  | .word w, .uint bits => w.toNat < 2 ^ bits
  | .bytes bs, .bytes => bs.length < 256 ^ 32
  | .array vs, .array t =>
    vs.length < 256 ^ 32 ∧ Val.AllHaveTy vs t ∧ OffsetsFit (Val.parts vs)
  | .tuple vs, .tuple ts => Val.HaveTys vs ts ∧ OffsetsFit (Val.parts vs)
  | _, _ => False

/-- Values of one type. -/
def Val.AllHaveTy : List Val → Ty → Prop
  | [], _ => True
  | v :: vs, t => v.HasTy t ∧ Val.AllHaveTy vs t

/-- Values of the types of a list, in order. -/
def Val.HaveTys : List Val → List Ty → Prop
  | [], [] => True
  | v :: vs, t :: ts => v.HasTy t ∧ Val.HaveTys vs ts
  | _, _ => False

end

theorem Val.allHaveTy_iff {vs : List Val} {t : Ty} :
    Val.AllHaveTy vs t ↔ ∀ v ∈ vs, v.HasTy t := by
  induction vs with
  | nil => simp [Val.AllHaveTy]
  | cons v vs ih => simp [Val.AllHaveTy, ih]

theorem headsLength_append (ps qs : List Part) :
    headsLength (ps ++ qs) = headsLength ps + headsLength qs := by
  rw [headsLength, List.map_append, List.sum_append]
  rfl

theorem headsLength_cons (p : Part) (ps : List Part) :
    headsLength (p :: ps) = headSize p + headsLength ps := by
  rw [headsLength, List.map_cons, List.sum_cons]
  rfl

/-- A sequence without dynamic components has no offsets. -/
theorem offsetsFit_of_static {ps : List Part} (h : ∀ p ∈ ps, p.1 = false) : OffsetsFit ps := by
  intro pre enc post hps
  have hmem : (true, enc) ∈ ps := by
    rw [hps]
    exact List.mem_append_right pre List.mem_cons_self
  exact absurd (h _ hmem) Bool.noConfusion

mutual

theorem Val.isDynamic_of_hasTy : ∀ {v : Val} {t : Ty}, v.HasTy t → v.isDynamic = t.isDynamic
  | .word _, .uint _, _ => rfl
  | .bytes _, .bytes, _ => rfl
  | .array _, .array _, _ => rfl
  | .tuple vs, .tuple ts, h => by
    rw [Val.HasTy] at h
    rw [Val.isDynamic, Ty.isDynamic]
    exact Val.anyDynamic_of_haveTys h.1

theorem Val.anyDynamic_of_haveTys : ∀ {vs : List Val} {ts : List Ty}, Val.HaveTys vs ts →
    Val.anyDynamic vs = Ty.anyDynamic ts
  | [], [], _ => rfl
  | v :: vs, t :: ts, h => by
    rw [Val.HaveTys] at h
    rw [Val.anyDynamic, Ty.anyDynamic, Val.isDynamic_of_hasTy h.1, Val.anyDynamic_of_haveTys h.2]

end

/-- In a sequence of static values every part is static. -/
theorem Val.parts_static : ∀ {vs : List Val}, Val.anyDynamic vs = false →
    ∀ p ∈ Val.parts vs, p.1 = false
  | [], _ => fun p hp ↦ absurd hp List.not_mem_nil
  | v :: vs, h => by
    rw [Val.anyDynamic, Bool.or_eq_false_iff] at h
    intro p hp
    rw [Val.parts, List.mem_cons] at hp
    rcases hp with rfl | hp
    · exact h.1
    · exact Val.parts_static h.2 p hp

theorem length_assemble (ps : List Part) :
    (assemble ps).length = headsLength ps + (tails ps).length := by
  rw [assemble, List.length_append, length_heads]

theorem tails_static {ps : List Part} (h : ∀ p ∈ ps, p.1 = false) : tails ps = [] := by
  rw [tails, List.flatMap_eq_nil_iff]
  intro p hp
  rw [h p hp, if_neg Bool.false_ne_true]

mutual

/-- A type says how long the head entries of its values are. -/
theorem Val.headSize_of_hasTy : ∀ {v : Val} {t : Ty}, v.HasTy t →
    headSize (v.isDynamic, v.encode) = t.headSize
  | .word w, .uint _, _ => by
    rw [Val.isDynamic, Val.encode, headSize, if_neg Bool.false_ne_true, length_wordOf, Ty.headSize]
  | .bytes _, .bytes, _ => rfl
  | .array _, .array _, _ => rfl
  | .tuple vs, .tuple ts, h => by
    rw [Val.HasTy] at h
    have hdyn : Val.anyDynamic vs = Ty.anyDynamic ts := Val.anyDynamic_of_haveTys h.1
    rw [Val.isDynamic, Val.encode, headSize, Ty.headSize, ← hdyn]
    by_cases hs : Val.anyDynamic vs = true
    · rw [if_pos hs, if_pos hs]
    · have hstatic := Val.parts_static (Bool.not_eq_true _ ▸ hs)
      rw [if_neg hs, if_neg hs, length_assemble, tails_static hstatic, List.length_nil,
        Nat.add_zero, Val.headsLength_of_haveTys h.1]

theorem Val.headsLength_of_haveTys : ∀ {vs : List Val} {ts : List Ty}, Val.HaveTys vs ts →
    headsLength (Val.parts vs) = Ty.headsSize ts
  | [], [], _ => rfl
  | v :: vs, t :: ts, h => by
    rw [Val.HaveTys] at h
    rw [Val.parts, headsLength_cons, Val.headSize_of_hasTy h.1, Val.headsLength_of_haveTys h.2,
      Ty.headsSize]

end

/-! ## The round trip -/

theorem wordAt_append (pre rest : Bytes) {n pos : ℕ} (hpos : pos = pre.length)
    (hn : n < 256 ^ 32) : wordAt (pre ++ (wordOf n ++ rest)) pos = some n := by
  have hle : pos + 32 ≤ (pre ++ (wordOf n ++ rest)).length := by
    rw [List.length_append, List.length_append, length_wordOf]
    omega
  have hslice : slice (pre ++ (wordOf n ++ rest)) pos (pos + 32) = wordOf n :=
    slice_append_middle _ _ _ hpos (by rw [length_wordOf, hpos])
  rw [wordAt, if_pos hle, hslice, natOfBytes_wordOf hn]

theorem wordAt_zero (rest : Bytes) {n : ℕ} (hn : n < 256 ^ 32) :
    wordAt (wordOf n ++ rest) 0 = some n := wordAt_append [] rest rfl hn

/-- Where a static component stands in a sequence is its encoding. -/
theorem drop_headsLength_assemble_static {ps pre post : List Part} {enc : Bytes}
    (h : ps = pre ++ (false, enc) :: post) :
    ∃ rest, (assemble ps).drop (headsLength pre) = enc ++ rest := by
  have hassoc : assemble ps = heads (headsLength ps) pre ++ (enc ++
      (heads (headsLength ps + (tails pre).length) post ++ tails ps)) := by
    conv_lhs => rw [assemble]
    conv_lhs => arg 1; rw [h, heads_append, heads, if_neg Bool.false_ne_true, ← h]
    rw [List.append_assoc, List.append_assoc]
  rw [hassoc, List.drop_left' (length_heads pre _)]
  exact ⟨_, rfl⟩

theorem drop_append_of_drop_eq {bs enc rest : Bytes} {n : ℕ} (hn : n ≤ bs.length)
    (h : bs.drop n = enc) : (bs ++ rest).drop n = enc ++ rest := by
  rw [List.drop_append_of_le_length hn, h]

/-- A component is read back from its sequence when its encoding is read back from the front of a
buffer. -/
theorem component_assemble {ps pre post : List Part} {dynamic : Bool} {enc : Bytes} {v : Val}
    {decode : Bytes → Option Val} (h : ps = pre ++ (dynamic, enc) :: post) (hfit : OffsetsFit ps)
    (hdecode : ∀ rest, decode (enc ++ rest) = some v) (rest : Bytes) :
    component dynamic decode (assemble ps ++ rest) (headsLength pre) = some v := by
  have hpre : headsLength pre ≤ (assemble ps).length := by
    rw [length_assemble, h, headsLength_append]
    omega
  rcases hd : dynamic with _ | _
  · -- a static component stands in the head
    rw [hd] at h
    obtain ⟨behind, hbehind⟩ := drop_headsLength_assemble_static h
    rw [component, if_neg Bool.false_ne_true, drop_append_of_drop_eq hpre hbehind,
      List.append_assoc, hdecode]
  · -- the head holds the offset of a dynamic one
    rw [hd] at h
    obtain ⟨behind, hbehind⟩ := drop_headsLength_assemble h
    have hoffset : offsetIn ps pre ≤ (assemble ps).length := by
      rw [length_assemble, offsetIn, h, tails_append, List.length_append]
      omega
    have hword : wordAt (assemble ps ++ rest) (headsLength pre) = some (offsetIn ps pre) := by
      have hsplit : assemble ps ++ rest = (assemble ps).take (headsLength pre) ++
          (wordOf (offsetIn ps pre) ++ (behind ++ rest)) := by
        rw [← List.append_assoc (wordOf _), ← hbehind, ← List.append_assoc, List.take_append_drop]
      rw [hsplit]
      exact wordAt_append _ _ (by rw [List.length_take, Nat.min_eq_left hpre])
        (hfit pre enc post h)
    rw [component, if_pos rfl, hword, Option.bind_some,
      drop_append_of_drop_eq hoffset (drop_offsetIn_assemble h), List.append_assoc, hdecode]

/-- What a decoder that goes through a sequence needs of the component it has come to: it is read
back, and the next one begins where the sizes of the heads say. -/
theorem component_parts {v : Val} {vs : List Val} {t : Ty} (h : v.HasTy t)
    (hdecode : ∀ rest, t.decode (v.encode ++ rest) = some v) {ps pre : List Part}
    (hfit : OffsetsFit ps) {pos : ℕ} (hps : ps = pre ++ Val.parts (v :: vs))
    (hpos : pos = headsLength pre) (rest : Bytes) :
    component t.isDynamic t.decode (assemble ps ++ rest) pos = some v ∧
      pos + t.headSize = headsLength (pre ++ [(v.isDynamic, v.encode)]) ∧
      ps = (pre ++ [(v.isDynamic, v.encode)]) ++ Val.parts vs := by
  rw [Val.parts] at hps
  refine ⟨?_, ?_, ?_⟩
  · rw [hpos, ← Val.isDynamic_of_hasTy h]
    exact component_assemble hps hfit hdecode rest
  · rw [headsLength_append, headsLength_cons, Val.headSize_of_hasTy h, hpos]
    rfl
  · rw [hps, List.append_assoc]
    rfl

mutual

/-- **The round trip.** A decoder reads back the value at the front of a buffer. -/
theorem Ty.decode_encode : ∀ {v : Val} {t : Ty}, v.HasTy t → ∀ rest : Bytes,
    t.decode (v.encode ++ rest) = some v
  | .word w, .uint bits, h, rest => by
    rw [Val.HasTy] at h
    have hw : w.toNat < 256 ^ 32 := w.isLt
    rw [Val.encode, Ty.decode, wordAt_zero rest hw, Option.bind_some, if_pos h,
      BitVec.ofNat_toNat, BitVec.setWidth_eq]
  | .bytes bs, .bytes, h, rest => by
    rw [Val.HasTy] at h
    have hslice : slice (wordOf bs.length ++ (padRight bs ++ rest)) 32 (32 + bs.length) = bs := by
      rw [padRight, List.append_assoc]
      exact slice_append_middle _ _ _ (length_wordOf _).symm (by rw [length_wordOf])
    have hle : 32 + bs.length ≤ (wordOf bs.length ++ (padRight bs ++ rest)).length := by
      rw [List.length_append, List.length_append, length_wordOf, padRight, List.length_append]
      omega
    rw [Val.encode, Ty.decode, List.append_assoc, wordAt_zero _ h, Option.bind_some, if_pos hle,
      hslice]
  | .array vs, .array t, h, rest => by
    rw [Val.HasTy] at h
    obtain ⟨hlength, htys, hfit⟩ := h
    have hdrop : (wordOf vs.length ++ (assemble (Val.parts vs) ++ rest)).drop 32
        = assemble (Val.parts vs) ++ rest := List.drop_left' (length_wordOf _)
    have hread : readEach (component t.isDynamic t.decode (assemble (Val.parts vs) ++ rest))
        t.headSize vs.length 0 = some vs := Ty.readEach_parts htys rfl hfit rest [] rfl rfl
    rw [Val.encode, Ty.decode, List.append_assoc, wordAt_zero _ hlength, Option.bind_some, hdrop,
      hread, Option.map_some]
  | .tuple vs, .tuple ts, h, rest => by
    rw [Val.HasTy] at h
    have hread : Ty.decodeSeq ts (assemble (Val.parts vs) ++ rest) 0 = some vs :=
      Ty.decodeSeq_parts h.1 h.2 rest [] rfl rfl
    rw [Val.encode, Ty.decode, hread, Option.map_some]

theorem Ty.readEach_parts : ∀ {vs : List Val} {t : Ty}, Val.AllHaveTy vs t →
    ∀ {ps : List Part} {n : ℕ}, n = vs.length → OffsetsFit ps → ∀ (rest : Bytes)
    (pre : List Part) {pos : ℕ}, ps = pre ++ Val.parts vs → pos = headsLength pre →
    readEach (component t.isDynamic t.decode (assemble ps ++ rest)) t.headSize n pos = some vs
  | [], _, _, _, _, hn, _, _, _, _, _, _ => by
    subst hn
    rfl
  | v :: vs, t, h, ps, _, hn, hfit, rest, pre, pos, hps, hpos => by
    subst hn
    rw [Val.AllHaveTy] at h
    obtain ⟨hread, hnext, hps'⟩ :=
      component_parts h.1 (Ty.decode_encode h.1) hfit hps hpos rest
    rw [List.length_cons, readEach, hread, Option.bind_some,
      Ty.readEach_parts h.2 rfl hfit rest _ hps' hnext, Option.map_some]

theorem Ty.decodeSeq_parts : ∀ {vs : List Val} {ts : List Ty}, Val.HaveTys vs ts →
    ∀ {ps : List Part}, OffsetsFit ps → ∀ (rest : Bytes) (pre : List Part) {pos : ℕ},
    ps = pre ++ Val.parts vs → pos = headsLength pre →
    Ty.decodeSeq ts (assemble ps ++ rest) pos = some vs
  | [], [], _, _, _, _, _, _, _, _ => rfl
  | v :: vs, t :: ts, h, ps, hfit, rest, pre, pos, hps, hpos => by
    rw [Val.HaveTys] at h
    obtain ⟨hread, hnext, hps'⟩ :=
      component_parts h.1 (Ty.decode_encode h.1) hfit hps hpos rest
    rw [Ty.decodeSeq, hread, Option.bind_some, Ty.decodeSeq_parts h.2 hfit rest _ hps' hnext,
      Option.map_some]

end

end Abi
