import Mathlib.Data.Set.Function
import Mathlib.Order.MinMax
import Recycler.Constraint

/-!
# Words that hold a constraint

The word of a constraint is read as a number below 2 ^ 32, with its mode as a quotient and its size
as a remainder. As a signed word it is read by bits: the size is what the mask of the 30 low bits
leaves, and the mode what is left of the two high bits after a shift that brings the sign along.
Both readings are the same (`mode_eq`, `size_eq`), and a packed word is the two parts side by side
(`raw_pack`).

A word with both high bits set has no mode. All others are packed from exactly one mode and one
size in range, and nothing is lost on the way (`lossless`).
-/

namespace Recycler

/-- The two high bits of a word with a mode. -/
def Mode.bits : Mode → Int32
  | unspecified => 0
  | exactly => (1 : Int32) <<< 30
  | atMost => (2 : Int32) <<< 30

theorem Mode.code_lt (m : Mode) : m.code < 3 := by cases m <;> decide

theorem Mode.code_ofCode {n : Nat} (h : n < 3) : (ofCode n).code = n := by
  match n with
  | 0 => rfl
  | 1 => rfl
  | 2 => rfl

namespace Constraint

variable {c c' : Constraint} {m : Mode} {s d e : Int32}

/-! ## The word as a number -/

theorem word_lt (c : Constraint) : c.word < 4 * span := c.raw.toUInt32.toNat_lt

theorem word_mod_lt (c : Constraint) : c.word % span < span := Nat.mod_lt _ (by decide)

theorem eq_of_word (h : c.word = c'.word) : c = c' := by
  obtain ⟨raw⟩ := c
  obtain ⟨raw'⟩ := c'
  exact congrArg mk (Int32.toBitVec_inj.1 (BitVec.eq_of_toNat_eq h))

theorem clamp_lt (s : Int32) : clamp s < span := by
  rw [clamp, span]
  omega

theorem word_ofNat {n : Nat} (h : n < 4 * span) : word ⟨Int32.ofNat n⟩ = n :=
  Nat.mod_eq_of_lt h

theorem word_pack (m : Mode) (s : Int32) : (pack m s).word = m.code * span + clamp s := by
  have hcode := m.code_lt
  have hclamp := clamp_lt s
  refine word_ofNat ?_
  rw [span] at hclamp ⊢
  omega

theorem word_pack_div_span (m : Mode) (s : Int32) : (pack m s).word / span = m.code := by
  rw [word_pack, Nat.mul_comm, Nat.mul_add_div (by decide), Nat.div_eq_of_lt (clamp_lt s),
    Nat.add_zero]

theorem mode_pack (m : Mode) (s : Int32) : (pack m s).mode = m := by
  rw [mode, word_pack_div_span, Mode.ofCode_code]

theorem toInt_maxSize : maxSize.toInt = span - 1 := by decide

theorem toInt_size (c : Constraint) : c.size.toInt = (c.word % span : Nat) :=
  Int32.toInt_ofNat_of_lt (c.word_mod_lt.trans (by decide))

theorem clamp_size (c : Constraint) : clamp c.size = c.word % span := by
  have hlt := c.word_mod_lt
  rw [clamp, toInt_size, Int.toNat_natCast]
  omega

theorem toInt_max (a b : Int32) : (max a b).toInt = max a.toInt b.toInt := by
  change (if a ≤ b then b else a).toInt = _
  split
  · next h => exact (max_eq_right (Int32.le_iff_toInt_le.1 h)).symm
  · next h => exact (max_eq_left (not_le.1 (mt Int32.le_iff_toInt_le.2 h)).le).symm

theorem toInt_min (a b : Int32) : (min a b).toInt = min a.toInt b.toInt := by
  change (if a ≤ b then a else b).toInt = _
  split
  · next h => exact (min_eq_left (Int32.le_iff_toInt_le.1 h)).symm
  · next h => exact (min_eq_right (not_le.1 (mt Int32.le_iff_toInt_le.2 h)).le).symm

/-- A size out of range is replaced by the end of the range that it is beyond. -/
theorem ofNat_clamp (s : Int32) : Int32.ofNat (clamp s) = max 0 (min s maxSize) := by
  rw [← Int32.toInt_inj, Int32.toInt_ofNat_of_lt ((clamp_lt s).trans (by decide)), toInt_max,
    toInt_min, toInt_maxSize, Int32.toInt_zero, clamp, span]
  omega

theorem size_pack (m : Mode) (s : Int32) : (pack m s).size = max 0 (min s maxSize) := by
  rw [size, word_pack, Nat.mul_add_mod_self_right, Nat.mod_eq_of_lt (clamp_lt s), ofNat_clamp]

/-- A word that stands for a mode is packed from what it stands for. -/
theorem pack_mode_size (h : c.word / span ≠ 3) : pack c.mode c.size = c := by
  have hlt := c.word_lt
  have hcode : c.mode.code = c.word / span := by
    refine Mode.code_ofCode ?_
    rw [span] at hlt h ⊢
    omega
  refine eq_of_word ?_
  rw [word_pack, hcode, clamp_size, Nat.div_add_mod']

/-! ## The word as bits -/

/-- The bits of a word that hold its mode. -/
def modeMask : Int32 := (3 : Int32) <<< 30

/-- Both bits of the mode are set, which no mode has. -/
def IsModeless (c : Constraint) : Prop := c.raw &&& modeMask = modeMask

instance (c : Constraint) : Decidable c.IsModeless := inferInstanceAs (Decidable (_ = _))

theorem getElem_modeMask {i : Nat} (hi : i < 32) : modeMask.toBitVec[i] = decide (30 ≤ i) := by
  decide +revert

theorem getElem_three {i : Nat} (hi : i < 32) : (3#32)[i] = decide (i < 2) := by
  decide +revert

/-- The shift of the signed word brings the sign along, which the last mask takes away again. -/
theorem sshiftRight_modeMask (x : BitVec 32) :
    (x &&& modeMask.toBitVec).sshiftRight 30 &&& 3#32 = x >>> 30 := by
  ext i hi
  rw [BitVec.getElem_and, BitVec.getElem_sshiftRight, getElem_three]
  -- The two low bits are those of the mode, and above them there is nothing but the sign.
  by_cases h : i < 2
  · have hlt : 30 + i < 32 := by omega
    rw [dif_pos hlt, BitVec.getElem_and, getElem_modeMask, BitVec.getElem_ushiftRight,
      BitVec.getLsbD_eq_getElem hlt]
    simp [h]
  · rw [BitVec.getElem_ushiftRight, BitVec.getLsbD_of_ge _ _ (by omega), decide_eq_false h,
      Bool.and_false]

theorem and_modeMask (x : BitVec 32) : x &&& modeMask.toBitVec = (x >>> 30) <<< 30 := by
  ext i hi
  rw [BitVec.getElem_and, getElem_modeMask, BitVec.getElem_shiftLeft]
  by_cases h : i < 30
  · simp [h]
  · have hle : 30 ≤ i := not_lt.1 h
    simp [hi, hle, h]

theorem toNat_ushiftRight (c : Constraint) : (c.raw.toBitVec >>> 30).toNat = c.word / span :=
  Nat.shiftRight_eq_div_pow c.word 30

theorem modeBits_eq (c : Constraint) :
    (c.raw &&& modeMask) >>> 30 &&& 3 = Int32.ofNat (c.word / span) := by
  have hbits : ((c.raw &&& modeMask) >>> 30 &&& 3).toBitVec = c.raw.toBitVec >>> 30 :=
    sshiftRight_modeMask c.raw.toBitVec
  have hofNat : (Int32.ofNat (c.word / span)).toBitVec = BitVec.ofNat 32 (c.word / span) := rfl
  rw [← Int32.toBitVec_inj, hbits, hofNat, ← toNat_ushiftRight, BitVec.ofNat_toNat,
    BitVec.setWidth_eq]

theorem isModeless_iff : c.IsModeless ↔ c.word / span = 3 := by
  have hmask : c.IsModeless ↔ c.raw.toBitVec &&& modeMask.toBitVec = modeMask.toBitVec :=
    Int32.toBitVec_inj.symm
  rw [hmask, ← toNat_ushiftRight]
  constructor
  · intro h
    rw [← sshiftRight_modeMask, h]
    rfl
  · intro h
    have hthree : c.raw.toBitVec >>> 30 = 3#32 := BitVec.eq_of_toNat_eq h
    rw [and_modeMask, hthree]
    rfl

/-- The mode of a signed word is told by its two high bits. -/
theorem mode_eq (c : Constraint) :
    c.mode =
      if (c.raw &&& modeMask) >>> 30 &&& 3 = 1 then .exactly
      else if (c.raw &&& modeMask) >>> 30 &&& 3 = 2 then .atMost else .unspecified := by
  have hfour : c.word / span < 4 := Nat.div_lt_of_lt_mul c.word_lt
  rw [modeBits_eq, mode]
  generalize c.word / span = code at hfour
  decide +revert

/-- The size of a signed word is in its 30 low bits. -/
theorem size_eq (c : Constraint) : c.size = c.raw &&& maxSize := by
  have hlt : c.word % span < 2 ^ 32 := c.word_mod_lt.trans (by decide)
  have hsize : c.size.toBitVec.toNat = c.word % span := Nat.mod_eq_of_lt hlt
  have hand : (c.raw &&& maxSize).toBitVec.toNat = c.word &&& 2 ^ 30 - 1 := rfl
  refine Int32.toBitVec_inj.1 (BitVec.eq_of_toNat_eq ?_)
  rw [hsize, hand, Nat.and_two_pow_sub_one_eq_mod, span]

/-- A packed word has the bits of its mode beside those of its size. -/
theorem raw_pack (m : Mode) (s : Int32) : (pack m s).raw = m.bits ||| max 0 (min s maxSize) := by
  have hclamp : (Int32.ofNat (clamp s)).toBitVec.toNat = clamp s :=
    Nat.mod_eq_of_lt ((clamp_lt s).trans (by decide))
  have hbits : m.bits.toBitVec.toNat = m.code <<< 30 := by cases m <;> rfl
  refine Int32.toBitVec_inj.1 (BitVec.eq_of_toNat_eq ?_)
  calc (pack m s).raw.toBitVec.toNat = m.code <<< 30 + clamp s := by
        rw [Nat.shiftLeft_eq]
        exact word_pack m s
    _ = m.code <<< 30 ||| clamp s := Nat.shiftLeft_add_eq_or_of_lt (clamp_lt s) m.code
    _ = (m.bits ||| max 0 (min s maxSize)).toBitVec.toNat := by
        rw [Int32.toBitVec_or, BitVec.toNat_or, ← ofNat_clamp, hclamp, hbits]

/-! ## Packed words and other words -/

theorem not_isModeless_pack (m : Mode) (s : Int32) : ¬ (pack m s).IsModeless := by
  rw [isModeless_iff, word_pack_div_span]
  exact m.code_lt.ne

theorem mode_of_isModeless (h : c.IsModeless) : c.mode = .unspecified := by
  rw [mode, isModeless_iff.1 h]
  rfl

theorem size_mem (c : Constraint) : 0 ≤ c.size ∧ c.size ≤ maxSize := by
  have hlt := c.word_mod_lt
  rw [Int32.le_iff_toInt_le, Int32.le_iff_toInt_le, toInt_size, toInt_maxSize, Int32.toInt_zero]
  omega

theorem max_min_of_mem (hs : 0 ≤ s ∧ s ≤ maxSize) : max 0 (min s maxSize) = s := by
  rw [Int32.le_iff_toInt_le, Int32.le_iff_toInt_le] at hs
  rw [← Int32.toInt_inj, toInt_max, toInt_min, min_eq_left hs.2, max_eq_right hs.1]

/-- The words with a mode are packed from one mode and one size in range each. -/
theorem bijOn_pack :
    Set.BijOn (fun p : Mode × Int32 => pack p.1 p.2) {p | 0 ≤ p.2 ∧ p.2 ≤ maxSize}
      {c | ¬ c.IsModeless} := by
  have hinverse : Set.InvOn (fun c => (c.mode, c.size)) (fun p : Mode × Int32 => pack p.1 p.2)
      {p | 0 ≤ p.2 ∧ p.2 ≤ maxSize} {c | ¬ c.IsModeless} := by
    refine ⟨fun p hp => ?_, fun c hc => ?_⟩
    · exact Prod.ext (mode_pack p.1 p.2) ((size_pack p.1 p.2).trans (max_min_of_mem hp))
    · exact pack_mode_size (mt isModeless_iff.2 hc)
  exact hinverse.bijOn (fun p _ => not_isModeless_pack p.1 p.2) fun c _ => c.size_mem

/-! ## What a child may take -/

/-- A child may take a size. -/
def Admits (c : Constraint) (d : Int32) : Prop :=
  match c.mode with
  | .exactly => d = c.size
  | .atMost => d ≤ c.size
  | .unspecified => True

theorem resolve_of_exactly (h : c.mode = .exactly) (d : Int32) : c.resolve d = c.size := by
  rw [resolve, h]

theorem toInt_resolve_of_atMost (h : c.mode = .atMost) (d : Int32) :
    (c.resolve d).toInt = min d.toInt c.size.toInt := by
  rw [resolve, h]
  exact toInt_min d c.size

theorem resolve_of_unspecified (h : c.mode = .unspecified) (d : Int32) : c.resolve d = d := by
  rw [resolve, h]

theorem resolve_le_size (h : c.mode = .atMost) (d : Int32) : c.resolve d ≤ c.size := by
  rw [Int32.le_iff_toInt_le, toInt_resolve_of_atMost h]
  exact min_le_right _ _

/-- A child takes a size that it may take. -/
theorem admits_resolve (c : Constraint) (d : Int32) : c.Admits (c.resolve d) := by
  cases h : c.mode with
  | exactly => rw [Admits, h, resolve_of_exactly h]
  | atMost =>
      rw [Admits, h]
      exact resolve_le_size h d
  | unspecified =>
      rw [Admits, h]
      trivial

/-- A child takes the size that it would like to take if it may. -/
theorem resolve_of_admits (hd : c.Admits d) : c.resolve d = d := by
  cases h : c.mode with
  | exactly =>
      rw [Admits, h] at hd
      rw [resolve_of_exactly h, hd]
  | atMost =>
      rw [Admits, h] at hd
      rw [← Int32.toInt_inj, toInt_resolve_of_atMost h, min_eq_left (Int32.le_iff_toInt_le.1 hd)]
  | unspecified => exact resolve_of_unspecified h d

theorem resolve_le_resolve (c : Constraint) (hde : d ≤ e) : c.resolve d ≤ c.resolve e := by
  cases h : c.mode with
  | exactly =>
      rw [resolve_of_exactly h, resolve_of_exactly h]
      exact Int32.le_refl c.size
  | atMost =>
      rw [Int32.le_iff_toInt_le, toInt_resolve_of_atMost h, toInt_resolve_of_atMost h]
      exact min_le_min_right _ (Int32.le_iff_toInt_le.1 hde)
  | unspecified => rwa [resolve_of_unspecified h, resolve_of_unspecified h]

/-- What a word packed from a mode and a size reads as. It has the bits of its mode beside those of
its size, and reads back as this mode and as the size brought into the range `0..maxSize`. It is
never the word used before any layout. -/
structure Packs (m : Mode) (s : Int32) : Prop where
  raw : (pack m s).raw = m.bits ||| max 0 (min s maxSize)
  mode : (pack m s).mode = m
  size : (pack m s).size = max 0 (min s maxSize)
  isUninitialized : (pack m s).isUninitialized = false

/-- What any word reads as. The size is in its 30 low bits, and the mode is told by the two high
bits, shifted down with the sign. -/
structure Reads (c : Constraint) : Prop where
  size : c.size = c.raw &&& maxSize
  nonneg : 0 ≤ c.size
  le_maxSize : c.size ≤ maxSize
  mode : c.mode =
    if (c.raw &&& modeMask) >>> 30 &&& 3 = 1 then .exactly
    else if (c.raw &&& modeMask) >>> 30 &&& 3 = 2 then .atMost else .unspecified
  /-- A word whose high bits are not both set is packed from what it reads as. -/
  pack : ¬ c.IsModeless → pack c.mode c.size = c
  modeless : c.IsModeless → c.mode = .unspecified

/-- What a child does under a word. The size it takes grows with the one it would like, and is one
that it may take. If it would like such a size already, it takes that. -/
structure Resolves (c : Constraint) : Prop where
  mono : ∀ d e, d ≤ e → c.resolve d ≤ c.resolve e
  idem : ∀ d, c.resolve (c.resolve d) = c.resolve d
  exactly : c.mode = .exactly → ∀ d, c.resolve d = c.size
  atMost : c.mode = .atMost → ∀ d, c.resolve d ≤ c.size
  admits : ∀ d, c.Admits (c.resolve d)
  keeps : ∀ d, c.Admits d → c.resolve d = d

/-- In signed words of 32 bits a mode and a size in range are packed into exactly one word whose
high bits are not both set, and each such word is packed from exactly one mode and one size in
range. The word used before any layout is none of them. -/
theorem lossless :
    (∀ m s, Packs m s) ∧ (∀ c : Constraint, c.Reads ∧ c.Resolves) ∧
    Set.BijOn (fun p : Mode × Int32 => pack p.1 p.2) {p | 0 ≤ p.2 ∧ p.2 ≤ maxSize}
      {c | ¬ c.IsModeless} ∧
    uninitialized.IsModeless := by
  have huninitialized : uninitialized.IsModeless := by decide
  refine ⟨fun m s => ⟨raw_pack m s, mode_pack m s, size_pack m s, ?_⟩, fun c => ⟨?_, ?_⟩,
    bijOn_pack, huninitialized⟩
  · refine beq_eq_false_iff_ne.2 fun heq => not_isModeless_pack m s ?_
    rw [heq]
    exact huninitialized
  · exact ⟨c.size_eq, c.size_mem.1, c.size_mem.2, c.mode_eq,
      fun hc => pack_mode_size (mt isModeless_iff.2 hc), mode_of_isModeless⟩
  · exact ⟨fun d e => c.resolve_le_resolve, fun d => resolve_of_admits (c.admits_resolve d),
      resolve_of_exactly, resolve_le_size, c.admits_resolve, fun d => resolve_of_admits⟩

/-! ### Words from a host -/

namespace Hosted

/-- At most 720, a negative number. -/
def bounded : Constraint := ⟨-2147482928⟩

/-- A word with both high bits set. -/
def unclear : Constraint := ⟨-5⟩

theorem words_from_host :
    ¬ bounded.IsModeless ∧ pack bounded.mode bounded.size = bounded ∧
    bounded.mode = .atMost ∧ (∀ d, bounded.resolve d ≤ 720) ∧
    ((150 : Int32) ≤ 900 ∧ bounded.resolve 150 ≤ bounded.resolve 900) ∧
    (bounded.Admits 150 ∧ bounded.resolve 150 = 150) ∧
    unclear.IsModeless ∧ unclear.mode = .unspecified ∧ unclear.size = 1073741819 ∧
    (exactly (-5)).mode = .exactly ∧ ∀ d, (exactly (-5)).resolve d = 0 := by
  obtain ⟨hpack, hwords, -, -⟩ := lossless
  obtain ⟨hreads, hresolves⟩ := hwords bounded
  have hbounded : ¬ bounded.IsModeless := by decide
  have hunclear : unclear.IsModeless := by decide
  have hatMost : bounded.mode = .atMost := by decide
  have hadmits : bounded.Admits 150 := by
    rw [Admits, hatMost]
    decide
  have hexactly : (exactly (-5)).mode = .exactly := (hpack .exactly (-5)).mode
  exact ⟨hbounded, hreads.pack hbounded, hatMost, hresolves.atMost hatMost,
    ⟨by decide, hresolves.mono 150 900 (by decide)⟩, ⟨hadmits, hresolves.keeps 150 hadmits⟩,
    hunclear, (hwords unclear).1.modeless hunclear, (hwords unclear).1.size, hexactly,
    (hwords (exactly (-5))).2.exactly hexactly⟩

end Hosted

end Constraint

end Recycler
