import Mathlib.Tactic.SplitIfs
import Formula.Binary64

/-!
# The bits of doubles

* `sign`, `exponent`, `mantissa`: the parts of the bits; `Unpacked`: what they unpack to.
* `Unpacked.pack_eq`: they are packed again as they were.
* `neg_eq_abs`, **`neg_abs`**: negation and absolute value of a negative double undo each other.
* **`ofRank_rank`**: a double that is not negative is the one of its rank.
-/

namespace Formula.Binary64

open Float.Model (Format)
open Float.Model.UnpackedFloat

/-! ## Parts -/

/-- The bits of a double. -/
def bits (x : Float) : BitVec Format.binary64.numBits := x.toBits.toBitVec

/-- The sign of a double. -/
def sign (x : Float) : Sign := .ofBitVec (unpackSign (bits x))

/-- The exponent field of a double. -/
def exponent (x : Float) : BitVec 11 := unpackExponent (bits x)

/-- The mantissa field of a double. -/
def mantissa (x : Float) : BitVec 52 := unpackMantissa (bits x)

theorem toNat_unpackMantissa (b : BitVec Format.binary64.numBits) :
    (unpackMantissa b).toNat = b.toNat % 0x10000000000000 := by
  show (b.extractLsb' 0 52).toNat = _
  rw [BitVec.extractLsb'_toNat, Nat.shiftRight_zero]

theorem toNat_unpackExponent (b : BitVec Format.binary64.numBits) :
    (unpackExponent b).toNat = b.toNat / 0x10000000000000 % 0x800 := by
  show (b.extractLsb' 52 11).toNat = _
  rw [BitVec.extractLsb'_toNat, Nat.shiftRight_eq_div_pow]

theorem ofBitVec_unpackSign (b : BitVec Format.binary64.numBits) :
    Sign.ofBitVec (unpackSign b) =
      if 0x8000000000000000 ≤ b.toNat then .negative else .positive := by
  have hlt : b.toNat < 0x10000000000000000 := b.isLt
  have hsign : (unpackSign b).toNat = b.toNat / 0x8000000000000000 := by
    show (b.extractLsb' 63 1).toNat = _
    rw [BitVec.extractLsb'_toNat, Nat.shiftRight_eq_div_pow]
    show b.toNat / 0x8000000000000000 % 2 = _
    omega
  have hzero : unpackSign b = 0#1 ↔ ¬ 0x8000000000000000 ≤ b.toNat := by
    rw [← BitVec.toNat_inj, hsign]
    show _ = 0 ↔ _
    omega
  rw [Sign.ofBitVec]
  by_cases h : 0x8000000000000000 ≤ b.toNat
  · rw [if_pos h, if_neg fun hz => hzero.1 hz h]
  · rw [if_neg h, if_pos (hzero.2 h)]

section Parts

variable (x : Float)

theorem toNat_mantissa : (mantissa x).toNat = x.toBits.toNat % 0x10000000000000 :=
  toNat_unpackMantissa (bits x)

theorem toNat_exponent : (exponent x).toNat = x.toBits.toNat / 0x10000000000000 % 0x800 :=
  toNat_unpackExponent (bits x)

theorem exponent_eq_iff {e : Nat} (he : e < 0x800) :
    exponent x = BitVec.ofNat 11 e ↔ x.toBits.toNat / 0x10000000000000 % 0x800 = e := by
  rw [← BitVec.toNat_inj, toNat_exponent, BitVec.toNat_ofNat, Nat.mod_eq_of_lt he]

theorem mantissa_eq_zero_iff : mantissa x = 0#52 ↔ x.toBits.toNat % 0x10000000000000 = 0 := by
  rw [← BitVec.toNat_inj, toNat_mantissa]
  rfl

theorem sign_eq : sign x = if isNegative x then .negative else .positive := by
  simp only [isNegative, decide_eq_true_eq]
  exact ofBitVec_unpackSign (bits x)

end Parts

theorem toNat_packComponents (s : Sign) (e : BitVec 11) (m : BitVec 52) :
    (packComponents Format.binary64 s e m).toNat =
      s.toBitVec.toNat * 0x8000000000000000 + e.toNat * 0x10000000000000 + m.toNat := by
  show (s.toBitVec ++ e ++ m).toNat = _
  rw [BitVec.toNat_append, BitVec.toNat_append, ← Nat.shiftLeft_add_eq_or_of_lt e.isLt,
    ← Nat.shiftLeft_add_eq_or_of_lt m.isLt, Nat.shiftLeft_eq, Nat.shiftLeft_eq]
  show (s.toBitVec.toNat * 2048 + e.toNat) * 4503599627370496 + m.toNat =
    s.toBitVec.toNat * 9223372036854775808 + e.toNat * 4503599627370496 + m.toNat
  omega

/-! ## Unpacked doubles -/

/-- What exponent and mantissa unpack to. -/
inductive Unpacked (s : Sign) (e : BitVec 11) (m : BitVec 52) : Float.Model.UnpackedFloat → Prop
  | infinity : e = 0x7ff#11 → m = 0#_ → Unpacked s e m (.infinity s)
  | notANumber : e = 0x7ff#11 → m ≠ 0#_ → Unpacked s e m .notANumber
  | zero : e = 0#_ → m = 0#_ → Unpacked s e m (.zero s)
  | subnormal (h : 0 < m.toNat) : e = 0#_ → Unpacked s e m (.finite s m.toNat (0 - 1075 + 1) h)
  | normal (h : 0 < (1#1 ++ m).toNat) : e ≠ 0x7ff#11 →
    Unpacked s e m (.finite s (1#1 ++ m).toNat (e.toNat - 1075) h)

theorem unpacked_unpack (b : BitVec Format.binary64.numBits) :
    Unpacked (.ofBitVec (unpackSign b)) (unpackExponent b) (unpackMantissa b)
      (unpack Format.binary64 b) := by
  unfold unpack
  dsimp only
  by_cases he : unpackExponent b = -1#_
  · rw [if_pos he]
    by_cases hm : unpackMantissa b = 0#_
    · rw [if_pos hm]
      exact .infinity he hm
    · rw [if_neg hm]
      exact .notANumber he hm
  · rw [if_neg he]
    by_cases hz : unpackExponent b = 0#_
    · rw [if_pos hz]
      by_cases hm : unpackMantissa b = 0#_
      · rw [dif_pos hm]
        exact .zero hz hm
      · rw [dif_neg hm, hz]
        exact .subnormal _ rfl
    · rw [if_neg hz]
      exact .normal _ he

namespace Unpacked

variable {s : Sign} {e : BitVec 11} {m : BitVec 52} {x : Float.Model.UnpackedFloat}

theorem isNaN_iff (h : Unpacked s e m x) : x.isNaN ↔ e = 0x7ff#11 ∧ m ≠ 0#_ := by
  cases h with
  | infinity he hm => exact ⟨nofun, fun h => absurd hm h.2⟩
  | notANumber he hm => exact ⟨fun _ => ⟨he, hm⟩, fun _ => rfl⟩
  | zero he hm => exact ⟨nofun, fun h => absurd hm h.2⟩
  | subnormal h he => exact ⟨nofun, fun h => absurd (he.symm.trans h.1) (by decide)⟩
  | normal h he => exact ⟨nofun, fun h => absurd h.1 he⟩

theorem isInf_iff (h : Unpacked s e m x) : x.isInf ↔ e = 0x7ff#11 ∧ m = 0#_ := by
  cases h with
  | infinity he hm => exact ⟨fun _ => ⟨he, hm⟩, fun _ => rfl⟩
  | notANumber he hm => exact ⟨nofun, fun h => absurd h.2 hm⟩
  | zero he hm => exact ⟨nofun, fun h => absurd (he.symm.trans h.1) (by decide)⟩
  | subnormal h he => exact ⟨nofun, fun h => absurd (he.symm.trans h.1) (by decide)⟩
  | normal h he => exact ⟨nofun, fun h => absurd h.1 he⟩

theorem pack_subnormal (s : Sign) (m : BitVec 52) (h : 0 < m.toNat) :
    pack Format.binary64 (.finite s m.toNat (0 - 1075 + 1) h) =
      packComponents Format.binary64 s 0#_ m := by
  have hlog : m.toNat.log2 < 52 := (Nat.log2_lt (Nat.ne_of_gt h)).2 m.isLt
  have hsub : ¬ m.toNat.log2 + 1 = Format.binary64.mantissaBits := by
    show ¬ m.toNat.log2 + 1 = 53
    omega
  unfold pack
  dsimp only
  rw [if_neg (by decide), if_neg hsub, BitVec.ofNat_toNat, BitVec.setWidth_eq]

theorem pack_normal (s : Sign) {e : BitVec 11} (he : e ≠ 0x7ff#11) (m : BitVec 52)
    (h : 0 < (1#1 ++ m).toNat) :
    pack Format.binary64 (.finite s (1#1 ++ m).toNat (e.toNat - 1075) h) =
      packComponents Format.binary64 s e m := by
  have hm : (1#1 ++ m).toNat = 4503599627370496 + m.toNat := by
    rw [BitVec.toNat_append, ← Nat.shiftLeft_add_eq_or_of_lt m.isLt]
    rfl
  have hlog : (1#1 ++ m).toNat.log2 + 1 = Format.binary64.mantissaBits := by
    have hlt : m.toNat < 4503599627370496 := m.isLt
    have hlog : (1#1 ++ m).toNat.log2 = 52 :=
      (Nat.log2_eq_iff (Nat.ne_of_gt h)).2 ⟨by omega, by omega⟩
    rw [hlog]
    rfl
  have hexp : ((e.toNat : Int) - 1075 + Format.binary64.exponentBias +
      Format.binary64.mantissaBitsWithoutImplicit).toNat = e.toNat := by
    show ((e.toNat : Int) - 1075 + 1023 + 52).toNat = _
    omega
  have hbound : ¬ 2 ^ Format.binary64.exponentBits ≤ e.toNat + 1 := by
    have hlt : e.toNat < 2048 := e.isLt
    have hne : e.toNat ≠ 2047 := fun h => he (BitVec.eq_of_toNat_eq h)
    show ¬ 2048 ≤ e.toNat + 1
    omega
  have hmantissa : BitVec.ofNat 52 (1#1 ++ m).toNat = m := by
    refine BitVec.eq_of_toNat_eq ?_
    have hlt : m.toNat < 4503599627370496 := m.isLt
    rw [BitVec.toNat_ofNat, hm]
    omega
  unfold pack
  dsimp only
  rw [hexp, if_neg hbound, if_pos hlog, hmantissa, BitVec.ofNat_toNat, BitVec.setWidth_eq]

theorem pack_eq (h : Unpacked s e m x) (hx : x.isNaN = false) :
    pack Format.binary64 x = packComponents Format.binary64 s e m := by
  cases h with
  | infinity he hm =>
    rw [he, hm]
    rfl
  | notANumber => cases hx
  | zero he hm =>
    rw [he, hm]
    rfl
  | subnormal h he =>
    rw [he]
    exact pack_subnormal s m h
  | normal h he => exact pack_normal s he m h

theorem abs (h : Unpacked s e m x) : Unpacked .positive e m x.abs := by
  cases h with
  | infinity he hm => exact .infinity he hm
  | notANumber he hm => exact .notANumber he hm
  | zero he hm => exact .zero he hm
  | subnormal h he => exact .subnormal h he
  | normal h he => exact .normal h he

theorem neg (h : Unpacked .positive e m x) : Unpacked .negative e m x.neg := by
  cases h with
  | infinity he hm => exact .infinity he hm
  | notANumber he hm => exact .notANumber he hm
  | zero he hm => exact .zero he hm
  | subnormal h he => exact .subnormal h he
  | normal h he => exact .normal h he

theorem neg_eq_abs (h : Unpacked .negative e m x) : x.neg = x.abs := by
  cases h <;> rfl

theorem isNaN_abs (x : Float.Model.UnpackedFloat) : x.abs.isNaN = x.isNaN := by
  cases x <;> rfl

theorem isNaN_neg (x : Float.Model.UnpackedFloat) : x.neg.isNaN = x.isNaN := by
  cases x <;> rfl

end Unpacked

/-! ## Doubles -/

section Doubles

variable {x : Float}

theorem unpacked (x : Float) : Unpacked (sign x) (exponent x) (mantissa x) x.toModel.unpack :=
  unpacked_unpack (bits x)

theorem isNaN_iff : x.isNaN ↔ top < x.toBits.toNat % 0x8000000000000000 := by
  have h := (unpacked x).isNaN_iff
  show x.toModel.unpack.isNaN ↔ 0x7ff * 0x10000000000000 < _
  rw [h, ne_eq, mantissa_eq_zero_iff, exponent_eq_iff x (by decide)]
  omega

theorem isInf_iff : x.isInf ↔ x.toBits.toNat % 0x8000000000000000 = top := by
  have h := (unpacked x).isInf_iff
  show x.toModel.unpack.isInf ↔ _ = 0x7ff * 0x10000000000000
  rw [h, mantissa_eq_zero_iff, exponent_eq_iff x (by decide)]
  omega

theorem isNegative_iff : isNegative x ↔ 0x8000000000000000 ≤ x.toBits.toNat := decide_eq_true_iff

theorem toNat_toBits_abs (hx : x.isNaN = false) :
    x.abs.toBits.toNat = x.toBits.toNat % 0x8000000000000000 := by
  have h := (unpacked x).abs.pack_eq ((Unpacked.isNaN_abs _).trans hx)
  refine (congrArg BitVec.toNat h).trans ?_
  rw [toNat_packComponents, toNat_exponent, toNat_mantissa]
  show 0 * _ + _ * 0x10000000000000 + _ = _
  omega

theorem bits_of_isNaN (hx : x.isNaN) : bits x = packedNaN Format.binary64 :=
  have ⟨he, hm⟩ := (unpacked x).isNaN_iff.1 hx
  x.toModel.valid.eq_packedNaN he hm

/-- A NaN has no sign bit. -/
theorem isNaN_of_isNegative (h : isNegative x) : x.isNaN = false := by
  rw [Bool.eq_false_iff]
  intro hx
  have hnat : x.toBits.toNat = (packedNaN Format.binary64).toNat :=
    congrArg BitVec.toNat (bits_of_isNaN hx)
  rw [isNegative_iff, hnat] at h
  exact absurd h (by decide)

theorem neg_eq_abs (h : isNegative x) : -x = x.abs := by
  have hx := unpacked x
  rw [sign_eq, if_pos h] at hx
  exact congrArg (fun u => Float.ofModel (.pack u)) hx.neg_eq_abs

section Absolute

variable (hx : x.isNaN = false)
include hx

theorem isNegative_abs : isNegative x.abs = false := by
  rw [Bool.eq_false_iff, ne_eq, isNegative_iff, toNat_toBits_abs hx]
  omega

theorem isNaN_abs : x.abs.isNaN = false := by
  have habs := toNat_toBits_abs hx
  rw [Bool.eq_false_iff, ne_eq, isNaN_iff] at hx ⊢
  rwa [habs, Nat.mod_mod]

theorem isInf_abs : x.abs.isInf = x.isInf := by
  rw [Bool.eq_iff_iff, isInf_iff, isInf_iff, toNat_toBits_abs hx, Nat.mod_mod]

theorem exponent_abs : exponent x.abs = exponent x := by
  rw [← BitVec.toNat_inj, toNat_exponent, toNat_exponent, toNat_toBits_abs hx]
  omega

theorem mantissa_abs : mantissa x.abs = mantissa x := by
  rw [← BitVec.toNat_inj, toNat_mantissa, toNat_mantissa, toNat_toBits_abs hx]
  omega

end Absolute

theorem eq_of_toBits {y : Float} (h : x.toBits = y.toBits) : x = y := by
  obtain ⟨⟨b, hb⟩⟩ := x
  obtain ⟨⟨c, hc⟩⟩ := y
  cases h
  rfl

/-- There is one NaN. -/
theorem eq_of_isNaN {y : Float} (hx : x.isNaN) (hy : y.isNaN) : x = y :=
  eq_of_toBits (UInt64.toBitVec_inj.1 ((bits_of_isNaN hx).trans (bits_of_isNaN hy).symm))

/-- **Negation gives the sign back**, and nothing else changes. -/
theorem neg_abs (h : isNegative x) : -x.abs = x := by
  have hx := isNaN_of_isNegative h
  have hunpacked := unpacked x.abs
  rw [sign_eq, isNegative_abs hx, if_neg Bool.false_ne_true, exponent_abs hx, mantissa_abs hx]
    at hunpacked
  have hpack := hunpacked.neg.pack_eq ((Unpacked.isNaN_neg _).trans (isNaN_abs hx))
  refine eq_of_toBits (UInt64.toNat_inj.1 ((congrArg BitVec.toNat hpack).trans ?_))
  have hlt := x.toBits.toNat_lt
  rw [isNegative_iff] at h
  rw [toNat_packComponents, toNat_exponent, toNat_mantissa]
  show 1 * _ + _ * 0x10000000000000 + _ = x.toBits.toNat
  omega

theorem ofBits_toBits (hn : isNegative x = false) (hx : x.isNaN = false) :
    Float.ofBits x.toBits = x := by
  have hunpacked := unpacked x
  rw [sign_eq, hn, if_neg Bool.false_ne_true] at hunpacked
  have hpack := hunpacked.pack_eq hx
  refine eq_of_toBits (UInt64.toNat_inj.1 ((congrArg BitVec.toNat hpack).trans ?_))
  rw [toNat_packComponents, toNat_exponent, toNat_mantissa]
  rw [Bool.eq_false_iff, ne_eq, isNegative_iff] at hn
  show 0 * _ + _ * 0x10000000000000 + _ = x.toBits.toNat
  omega

theorem rank_le_top (hn : isNegative x = false) (hx : x.isNaN = false) : rank x ≤ top := by
  rw [Bool.eq_false_iff, ne_eq, isNegative_iff] at hn
  rw [Bool.eq_false_iff, ne_eq, isNaN_iff] at hx
  unfold rank
  omega

/-- A double that is not negative is the one of its rank. -/
theorem ofRank_rank (hn : isNegative x = false) (hx : x.isNaN = false) : ofRank (rank x) = x := by
  rw [ofRank, Nat.min_eq_left (rank_le_top hn hx), rank, UInt64.ofNat_toNat, ofBits_toBits hn hx]

theorem top_le_rank_iff (hn : isNegative x = false) (hx : x.isNaN = false) :
    top ≤ rank x ↔ x.isInf := by
  have hle := rank_le_top hn hx
  rw [Bool.eq_false_iff, ne_eq, isNegative_iff] at hn
  rw [isInf_iff]
  unfold rank at hle ⊢
  omega

end Doubles

/-! ## Ranks -/

theorem toNat_toBits_ofBits {b : UInt64} (h : b.toNat ≤ top) :
    (Float.ofBits b).toBits.toNat = b.toNat := by
  have hle : b.toBitVec.toNat ≤ 0x7ff * 0x10000000000000 := h
  have hunpacked := unpacked_unpack b.toBitVec
  rw [ofBitVec_unpackSign, if_neg (by omega)] at hunpacked
  have hnan : (unpack Format.binary64 b.toBitVec).isNaN = false := by
    rw [Bool.eq_false_iff, ne_eq, hunpacked.isNaN_iff, ← BitVec.toNat_inj, ne_eq,
      ← BitVec.toNat_inj, toNat_unpackExponent, toNat_unpackMantissa]
    show ¬ (_ = 0x7ff ∧ ¬ _ = 0)
    omega
  refine (congrArg BitVec.toNat (hunpacked.pack_eq hnan)).trans ?_
  rw [toNat_packComponents, toNat_unpackExponent, toNat_unpackMantissa]
  show 0 * _ + _ * 0x10000000000000 + _ = b.toBitVec.toNat
  omega

theorem rank_ofRank (r : Nat) : rank (ofRank r) = min r top := by
  have htop : top = 0x7ff * 0x10000000000000 := rfl
  have hnat : (UInt64.ofNat (min r top)).toNat = min r top := by
    rw [UInt64.toNat_ofNat']
    omega
  rw [rank, ofRank, toNat_toBits_ofBits, hnat]
  omega

theorem isNegative_ofRank (r : Nat) : isNegative (ofRank r) = false := by
  have hrank : (ofRank r).toBits.toNat = min r (0x7ff * 0x10000000000000) := rank_ofRank r
  rw [Bool.eq_false_iff, ne_eq, isNegative_iff, hrank]
  omega

theorem isNaN_ofRank (r : Nat) : (ofRank r).isNaN = false := by
  have hrank : (ofRank r).toBits.toNat = min r (0x7ff * 0x10000000000000) := rank_ofRank r
  rw [Bool.eq_false_iff, ne_eq, isNaN_iff, hrank]
  show ¬ 0x7ff * 0x10000000000000 < _
  omega

theorem isInf_ofRank (r : Nat) : (ofRank r).isInf ↔ top ≤ r := by
  rw [← top_le_rank_iff (isNegative_ofRank r) (isNaN_ofRank r), rank_ofRank]
  omega

theorem beq_self {x : Float} (h : x.isNaN = false) : (x == x) = true := by
  change x.toModel.unpack.isNaN = false at h
  show (x.toModel.unpack.compare x.toModel.unpack == some .eq) = true
  generalize x.toModel.unpack = u at h
  cases u with
  | infinity s => cases s <;> rfl
  | notANumber => cases h
  | zero s => rfl
  | finite s m e hm =>
    have hexponent : compare e e = .eq := Std.ReflCmp.compare_self
    have hmantissa : compare m m = .eq := Std.ReflCmp.compare_self
    have hcompare : (compare e e).then (compare m m) = .eq := by
      rw [hexponent, hmantissa]
      rfl
    cases s with
    | positive =>
      show (some ((compare e e).then (compare m m)) == some .eq) = true
      rw [hcompare]
      rfl
    | negative =>
      show (some ((compare e e).then (compare m m)).swap == some .eq) = true
      rw [hcompare]
      rfl

end Formula.Binary64
