import Mathlib
import SceneScript.Number.Binary

namespace SceneScript.Number
open Float.Model.UnpackedFloat
open Float.Model (Format UnpackedFloat)

def flipSign (b : BitVec Format.binary64.numBits) : BitVec Format.binary64.numBits :=
  packComponents Format.binary64 (-Sign.ofBitVec (unpackSign b)) (unpackExponent b)
    (unpackMantissa b)

theorem unpack_flipSign (b : BitVec Format.binary64.numBits) :
    unpack Format.binary64 (flipSign b) = (unpack Format.binary64 b).neg := by
  unfold unpack flipSign
  simp only [unpackSign_packComponents, unpackExponent_packComponents,
    unpackMantissa_packComponents, Sign.ofBitVec_toBitVec]
  split
  · split <;> rfl
  · split
    · split <;> rfl
    · rfl

theorem unpack_of_isNaNBits {b : BitVec Format.binary64.numBits} (h : isNaNBits b = true) :
    unpack Format.binary64 b = notANumber := by
  simp only [isNaNBits, decide_eq_true_eq] at h
  simp only [unpack, h.1, if_true]
  exact if_neg h.2

/-- A packed number is unpacked to itself where its bits came from unpacking. -/
theorem unpack_pack_neg (b : BitVec Format.binary64.numBits) :
    unpack Format.binary64 (pack Format.binary64 (unpack Format.binary64 b).neg) =
      (unpack Format.binary64 b).neg := by
  rw [← unpack_flipSign, pack_unpack]
  split
  next h => rw [unpack_packedNaN, unpack_of_isNaNBits h]
  next h => rfl

theorem neg_neg_unpacked (u : UnpackedFloat) : u.neg.neg = u := by
  have hsign (s : Sign) : -(-s) = s := by cases s <;> rfl
  cases u with
  | notANumber => rfl
  | infinity s => exact congrArg UnpackedFloat.infinity (hsign s)
  | zero s => exact congrArg zero (hsign s)
  | finite s m e hm =>
    simp only [UnpackedFloat.neg, hsign]

theorem neg_neg (x : Float) : -(-x) = x := by
  rcases x with ⟨⟨bits, hvalid⟩⟩
  rw [← Float.toBits_inj, ← UInt64.toBitVec_inj]
  show pack Format.binary64 (unpack Format.binary64
    (pack Format.binary64 (unpack Format.binary64 bits.toBitVec).neg)).neg = bits.toBitVec
  rw [unpack_pack_neg, neg_neg_unpacked, pack_unpack_of_valid hvalid]

def isMinus (s : Sign) : Bool :=
  match s with
  | .negative => true
  | .positive => false

/-- An unpacked number as a view. A zero has the least exponent. -/
def View.ofUnpacked (u : UnpackedFloat) : View :=
  match u with
  | .notANumber => .nan
  | .infinity s => .infinite (isMinus s)
  | .zero s => .finite ⟨isMinus s, 0, -1074⟩
  | .finite s m e _ => .finite ⟨isMinus s, m, e⟩

theorem toNat_unpackExponent (b : BitVec Format.binary64.numBits) :
    (unpackExponent b).toNat = b.toNat / Nat.pow 2 52 % Nat.pow 2 11 := by
  rw [unpackExponent_def, BitVec.extractLsb'_toNat, Nat.shiftRight_eq_div_pow]
  rfl

theorem toNat_unpackMantissa (b : BitVec Format.binary64.numBits) :
    (unpackMantissa b).toNat = b.toNat % Nat.pow 2 52 := by
  rw [unpackMantissa_def, BitVec.extractLsb'_toNat, Nat.shiftRight_eq_div_pow]
  simp

theorem isMinus_unpackSign (b : BitVec Format.binary64.numBits) :
    isMinus (Sign.ofBitVec (unpackSign b)) = (b.toNat / Nat.pow 2 63 % 2 == 1) := by
  have hsign : (unpackSign b).toNat = b.toNat / Nat.pow 2 63 % 2 := by
    rw [unpackSign_def, BitVec.extractLsb'_toNat, Nat.shiftRight_eq_div_pow]
    rfl
  have hbit (s : BitVec 1) : isMinus (Sign.ofBitVec s) = (s.toNat == 1) := by
    revert s
    decide
  rw [hbit, hsign]

theorem toNat_one_append (m : BitVec 52) :
    ((1#1 : BitVec 1) ++ m).toNat = Nat.pow 2 52 + m.toNat := by
  rw [BitVec.toNat_append]
  exact (Nat.shiftLeft_add_eq_or_of_lt m.isLt 1).symm

theorem ofBits_toNat (b : BitVec Format.binary64.numBits) :
    View.ofBits b.toNat = .ofUnpacked (unpack Format.binary64 b) := by
  rw [View.ofBits, ← isMinus_unpackSign, ← toNat_unpackExponent, ← toNat_unpackMantissa, unpack]
  have hmost : unpackExponent b = -1#_ ↔ (unpackExponent b).toNat = 2047 := BitVec.toNat_inj.symm
  have hleast : unpackExponent b = 0#_ ↔ (unpackExponent b).toNat = 0 := BitVec.toNat_inj.symm
  have hnone : unpackMantissa b = 0#_ ↔ (unpackMantissa b).toNat = 0 := BitVec.toNat_inj.symm
  have hbias : Format.binary64.exponentBias = 1023 := rfl
  simp only [hmost, hleast, hnone]
  split
  · split <;> rfl
  · split
    next h =>
      split
      next hm => rw [View.ofUnpacked, hm]
      next hm =>
        simp only [View.ofUnpacked, h, hbias]
        rfl
    next h =>
      simp only [View.ofUnpacked, hbias]
      congr 2
      exact (toNat_one_append _).symm

theorem ofFloat_eq_ofUnpacked (x : Float) : View.ofFloat x = .ofUnpacked x.toModel.unpack := by
  obtain ⟨⟨bits, -⟩⟩ := x
  exact ofBits_toNat bits.toBitVec

def View.neg : View → View
  | nan => nan
  | infinite negative => infinite !negative
  | finite d => finite { d with negative := !d.negative }

theorem ofUnpacked_neg (u : UnpackedFloat) : View.ofUnpacked u.neg = (View.ofUnpacked u).neg := by
  have hsign (s : Sign) : isMinus (-s) = !isMinus s := by cases s <;> rfl
  cases u with
  | notANumber => rfl
  | infinity s => exact congrArg View.infinite (hsign s)
  | zero s => exact congrArg (View.finite ⟨·, 0, -1074⟩) (hsign s)
  | finite s m e hm => exact congrArg (View.finite ⟨·, m, e⟩) (hsign s)

theorem ofFloat_neg (x : Float) : View.ofFloat (-x) = (View.ofFloat x).neg := by
  have hunpack : (-x).toModel.unpack = x.toModel.unpack.neg := unpack_pack_neg _
  rw [ofFloat_eq_ofUnpacked, hunpack, ofUnpacked_neg, ← ofFloat_eq_ofUnpacked]

/-- The mantissas and exponents of floats with 53 bits. -/
structure IsNormal (m : Nat) (e : Int) : Prop where
  low : 2 ^ 52 ≤ m
  high : m < 2 ^ 53
  least : -1074 ≤ e
  most : e ≤ 971

def biasedBits (e : Int) : BitVec 11 := BitVec.ofNat 11 (e + 1075).toNat

theorem toNat_biasedBits {e : Int} (hmost : e ≤ 971) : (biasedBits e).toNat = (e + 1075).toNat := by
  have hsmall : (e + 1075).toNat < 2 ^ 11 := by
    simp
    omega
  rw [biasedBits, BitVec.toNat_ofNat, Nat.mod_eq_of_lt hsmall]

/-- The bits are neither of the two that mark special numbers. -/
theorem biasedBits_ne_special {e : Int} (hleast : -1074 ≤ e) (hmost : e ≤ 971) :
    biasedBits e ≠ -1#11 ∧ biasedBits e ≠ 0#11 := by
  have hvalue := toNat_biasedBits hmost
  constructor
  · intro h
    have htoNat : (e + 1075).toNat = 2047 := hvalue.symm.trans (congrArg BitVec.toNat h)
    omega
  · intro h
    have htoNat : (e + 1075).toNat = 0 := hvalue.symm.trans (congrArg BitVec.toNat h)
    omega

theorem unpack_pack_of_normal {m : Nat} {e : Int} (h : IsNormal m e) (s : Sign) (hm : 0 < m) :
    unpack Format.binary64 (pack Format.binary64 (.finite s m e hm)) = .finite s m e hm := by
  obtain ⟨hlow, hhigh, hleast, hmost⟩ := h
  have hbits : m.log2 + 1 = Format.binary64.mantissaBits := by
    have hlog : m.log2 = 52 := (Nat.log2_eq_iff (Nat.ne_of_gt hm)).2 ⟨hlow, hhigh⟩
    rw [hlog]
    rfl
  have hbias : Format.binary64.exponentBias = 1023 := rfl
  unfold pack
  extract_lets actual biased
  have hbiased : biased = (e + 1075).toNat := by
    simp only [biased, hbias]
    congr 1
    simp
    omega
  rw [if_neg (by rw [hbiased]; simp; omega), if_pos hbits]
  unfold unpack
  simp only [unpackMantissa_packComponents, unpackExponent_packComponents,
    unpackSign_packComponents, Sign.ofBitVec_toBitVec]
  have hexponentBits : BitVec.ofNat 11 biased = biasedBits e := by rw [hbiased, biasedBits]
  have hmantissa : ((1#1 : BitVec 1) ++ BitVec.ofNat 52 m).toNat = m := by
    rw [toNat_one_append, BitVec.toNat_ofNat]
    simp at hlow hhigh ⊢
    omega
  have hexponent : ((BitVec.ofNat 11 biased).toNat : Int) - (1023 + 52) = e := by
    rw [hexponentBits, toNat_biasedBits hmost]
    omega
  obtain ⟨hlast, hfirst⟩ := biasedBits_ne_special hleast hmost
  rw [← hexponentBits] at hlast hfirst
  rw [if_neg hlast, if_neg hfirst]
  congr 1

theorem ofFloat_pack_of_normal {m : Nat} {e : Int} (h : IsNormal m e) (s : Sign) (hm : 0 < m) :
    View.ofFloat (.ofModel (.pack (.finite s m e hm))) = .finite ⟨isMinus s, m, e⟩ := by
  have hunpack := unpack_pack_of_normal h s hm
  rw [ofFloat_eq_ofUnpacked]
  exact congrArg View.ofUnpacked hunpack

theorem toBits_ofBits {bits : UInt64} (h : @isNaNBits Format.binary64 bits.toBitVec = false) :
    (Float.ofBits bits).toBits = bits := by
  apply UInt64.toBitVec_inj.1
  show pack Format.binary64 (unpack Format.binary64 bits.toBitVec) = bits.toBitVec
  rw [pack_unpack, h]
  rfl

/-- Bits with an exponent that is not the greatest one are kept. -/
theorem toNat_toBits_ofBits {n : Nat} (hn : n < Nat.pow 2 64)
    (hexponent : n / Nat.pow 2 52 % Nat.pow 2 11 ≠ 2047) :
    (Float.ofBits (UInt64.ofNat n)).toBits.toNat = n := by
  have hbits : @BitVec.toNat Format.binary64.numBits (UInt64.ofNat n).toBitVec = n :=
    Nat.mod_eq_of_lt hn
  rw [toBits_ofBits, UInt64.toNat_ofNat', Nat.mod_eq_of_lt hn]
  rw [isNaNBits, decide_eq_false_iff_not]
  rintro ⟨hall, -⟩
  have hvalue := congrArg BitVec.toNat hall
  rw [toNat_unpackExponent, hbits] at hvalue
  exact hexponent hvalue

theorem view_ofBits {e m : Nat} (negative : Bool) (he : 0 < e) (he' : e < 2047)
    (hm : Nat.pow 2 52 ≤ m) (hm' : m < Nat.pow 2 53) :
    View.ofFloat (Float.ofBits (UInt64.ofNat ((if negative then Nat.pow 2 63 else 0) +
      (e * Nat.pow 2 52 + (m - Nat.pow 2 52))))) = .finite ⟨negative, m, (e : Int) - 1075⟩ := by
  obtain ⟨f, rfl⟩ := Nat.exists_eq_add_of_le hm
  have hf : f < Nat.pow 2 52 := by simp at hm' ⊢; omega
  rw [Nat.add_sub_cancel_left]
  have hsmall : e % Nat.pow 2 11 = e := Nat.mod_eq_of_lt (by simp; omega)
  obtain ⟨bits, hbits⟩ : ∃ bits, bits = (if negative then Nat.pow 2 63 else 0) +
    (e * Nat.pow 2 52 + f) := ⟨_, rfl⟩
  have hsign : bits / Nat.pow 2 63 % 2 = if negative then 1 else 0 := by
    cases negative <;> simp at hbits hf ⊢ <;> omega
  have hexponent : bits / Nat.pow 2 52 % Nat.pow 2 11 = e := by
    cases negative <;> simp at hbits hf ⊢ <;> omega
  have hfraction : bits % Nat.pow 2 52 = f := by
    cases negative <;> simp at hbits hf ⊢ <;> omega
  have hlt : bits < Nat.pow 2 64 := by
    cases negative <;> simp at hbits hf ⊢ <;> omega
  rw [← hbits, View.ofFloat, toNat_toBits_ofBits hlt (by rw [hexponent]; omega), View.ofBits, hsign,
    hexponent, hfraction, if_neg (by omega), if_neg (by omega)]
  cases negative <;> rfl

/-- The dyadic numbers that floats are read as: with 53 bits, or fewer at the least exponent. -/
structure Dyadic.IsCanonical (d : Dyadic) : Prop where
  mantissa_lt : d.mantissa < 2 ^ 53
  least : -1074 ≤ d.exponent
  most : d.exponent ≤ 971
  full : 2 ^ 52 ≤ d.mantissa ∨ d.exponent = -1074

theorem isCanonical_of_view {x : Float} {d : Dyadic} (h : View.ofFloat x = .finite d) :
    d.IsCanonical := by
  rw [View.ofFloat, View.ofBits] at h
  have hfraction : x.toBits.toNat % Nat.pow 2 52 < 2 ^ 52 := Nat.mod_lt _ (by decide)
  have hexponent : x.toBits.toNat / Nat.pow 2 52 % Nat.pow 2 11 < 2 ^ 11 := Nat.mod_lt _ (by decide)
  split at h
  · split at h <;> cases h
  · split at h
    · cases h
      exact ⟨Nat.lt_trans hfraction (by decide), Int.le_refl _,
        (by decide : (-1074 : Int) ≤ 971), .inr rfl⟩
    · cases h
      refine ⟨Nat.add_lt_add_left hfraction _, ?_, ?_, .inl (Nat.le_add_right ..)⟩ <;>
        dsimp only <;> omega

theorem exists_view_of_isFinite {x : Float} (h : x.isFinite = true) :
    ∃ d, View.ofFloat x = .finite d := by
  rw [ofFloat_eq_ofUnpacked]
  have hunpack : x.toModel.unpack.isFinite = true := h
  cases hu : x.toModel.unpack with
  | zero s => exact ⟨_, rfl⟩
  | finite s m e hm => exact ⟨_, rfl⟩
  | _ =>
    rw [hu] at hunpack
    cases hunpack

theorem cases_of_not_isNaN {x : Float} (h : x.isNaN = false) :
    (∃ negative, View.ofFloat x = .infinite negative) ∨ ∃ d, View.ofFloat x = .finite d := by
  rw [ofFloat_eq_ofUnpacked]
  have hunpack : x.toModel.unpack.isNaN = false := h
  cases hu : x.toModel.unpack with
  | notANumber =>
    rw [hu] at hunpack
    cases hunpack
  | infinity s => exact .inl ⟨_, rfl⟩
  | zero s => exact .inr ⟨_, rfl⟩
  | finite s m e hm => exact .inr ⟨_, rfl⟩

theorem ofUnpacked_injective : Function.Injective View.ofUnpacked := by
  have hsign {s t : Sign} (h : isMinus s = isMinus t) : s = t := by
    cases s <;> cases t <;> first | rfl | cases h
  intro u v h
  cases u <;> cases v <;>
    simp only [View.ofUnpacked, View.infinite.injEq, View.finite.injEq,
      Dyadic.mk.injEq, reduceCtorEq]
      at h
  case notANumber.notANumber => rfl
  case infinity.infinity s t => exact congrArg UnpackedFloat.infinity (hsign h)
  case zero.zero s t => exact congrArg zero (hsign h.1)
  case zero.finite s t m e hm => exact absurd h.2.1.symm (Nat.ne_of_gt hm)
  case finite.zero s m e hm t => exact absurd h.2.1 (Nat.ne_of_gt hm)
  case finite.finite s m e hm t n f hn =>
    obtain ⟨hs, rfl, rfl⟩ := h
    cases hsign hs
    rfl

/-- A float is known by its view. -/
theorem ofFloat_injective : Function.Injective View.ofFloat := by
  intro x y h
  rw [ofFloat_eq_ofUnpacked, ofFloat_eq_ofUnpacked] at h
  have hunpack := ofUnpacked_injective h
  obtain ⟨⟨bits, hbits⟩⟩ := x
  obtain ⟨⟨others, hothers⟩⟩ := y
  have hvec : bits.toBitVec = others.toBitVec := (unpack_inj_of_valid hbits hothers).1 hunpack
  cases UInt64.toBitVec_inj.1 hvec
  rfl

end SceneScript.Number
