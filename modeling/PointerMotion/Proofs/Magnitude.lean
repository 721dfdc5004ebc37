/-
How far doubles are from zero.  A product, or a sum of one sign, is at least as
large as the power of two that its parts reach.
-/
import Mathlib
import PointerMotion.Scalar

namespace PointerMotion

namespace Double

open Float.Model Float.Model.UnpackedFloat

/-- A double taken apart. -/
def parts (x : Float) : UnpackedFloat :=
  x.toModel.unpack

/-- A number with all bits of its significand in use, of magnitude at least `2 ^
power`. -/
inductive Reaches (sign : Sign) (power : Int) : UnpackedFloat → Prop where
  | infinity : Reaches sign power (.infinity sign)
  | finite {significand : Nat} {exponent : Int} {pos : 0 < significand}
      (full : significand.log2 = 52) (least : power ≤ exponent + 52) :
      Reaches sign power (.finite sign significand exponent pos)

section Packing

/-- A significand with the leading bit in front has all its bits in use. -/
theorem log2_leading_append (significand : BitVec 52) :
    (1#1 ++ significand).toNat.log2 = 52 := by
  have hvalue : (1#1 ++ significand).toNat = 2 ^ 52 + significand.toNat := by
    rw [BitVec.toNat_append, ← Nat.shiftLeft_add_eq_or_of_lt significand.isLt]
    rfl
  have hlt := significand.isLt
  rw [hvalue, Nat.log2_eq_iff (by omega)]
  omega

/-- Fields that say neither zero nor infinity are those of a number with all
bits in use. -/
theorem reaches_unpack_packComponents (sign : Sign) {field : Nat}
    (significand : BitVec 52) (hlow : 1 ≤ field) (hhigh : field < 2047)
    {power : Int} (hpower : power ≤ field - 1023) :
    Reaches sign power (UnpackedFloat.unpack Format.binary64
      (packComponents Format.binary64 sign (BitVec.ofNat 11 field)
          significand)) := by
  have hfield : (BitVec.ofNat 11 field).toNat = field := by
    rw [BitVec.toNat_ofNat, Nat.mod_eq_of_lt (by omega)]
  have hzero : BitVec.ofNat 11 field ≠ 0#11 := by
    intro h
    have hval := congrArg BitVec.toNat h
    rw [hfield] at hval
    simp at hval
    omega
  have hones : BitVec.ofNat 11 field ≠ -1#11 := by
    intro h
    have hval := congrArg BitVec.toNat h
    rw [hfield] at hval
    simp at hval
    omega
  rw [UnpackedFloat.unpack]
  simp only [unpackExponent_packComponents, unpackMantissa_packComponents,
    unpackSign_packComponents, Sign.ofBitVec_toBitVec, hzero, hones, if_false]
  refine .finite (log2_leading_append significand) ?_
  simp only [hfield, Format.exponentBias]
  omega

theorem Reaches.pack {sign : Sign} {power : Int} {u : UnpackedFloat}
    (h : Reaches sign power u) (hpower : -1022 ≤ power) :
    Reaches sign power (Float.Model.pack u).unpack := by
  cases h with
  | infinity => cases sign <;> exact .infinity
  | @finite significand exponent hpos hfull hleast =>
      have hfield : ((exponent + 1023 + 52).toNat : Int) =
          exponent + 1075 := by omega
      change Reaches sign power (UnpackedFloat.unpack Format.binary64
        (UnpackedFloat.pack Format.binary64
          (.finite sign significand exponent hpos)))
      rw [UnpackedFloat.pack]
      split
      · cases sign <;> exact .infinity
      next hhigh =>
        rw [if_pos (by rw [hfull]; rfl)]
        apply reaches_unpack_packComponents
        · change 1 ≤ (exponent + 1023 + 52).toNat
          omega
        · exact Nat.lt_of_succ_lt_succ (Nat.lt_of_not_le hhigh)
        · change power ≤ ((exponent + 1023 + 52).toNat : Int) - 1023
          omega

end Packing

section Rounding

theorem mantissa_shiftRight (m : ExtendedMantissa) (count : Nat) :
    (m >>> count).mantissa = m.mantissa / 2 ^ count := by
  induction count with
  | zero => rw [Nat.pow_zero, Nat.div_one]; rfl
  | succ count ih =>
      change (m >>> count).mantissa / 2 = m.mantissa / 2 ^ (count + 1)
      rw [ih, Nat.div_div_eq_div_mul, Nat.pow_succ]

/-- Rounding moves a significand up by at most one. -/
theorem roundedMantissa_bounds (m : ExtendedMantissa) :
    m.mantissa ≤ m.roundedMantissa ∧ m.roundedMantissa ≤ m.mantissa + 1 := by
  rcases m with ⟨mantissa, roundBit, stickyBit⟩
  cases roundBit <;> cases stickyBit <;>
    simp only [ExtendedMantissa.roundedMantissa, ExtendedMantissa.accuracy,
      Accuracy.roundToNearestEven] <;> omega

/-- A significand with more bits than fit is cut to those that fit. -/
theorem shiftToTargetExponent_eq {m : Nat} {e : Int} {surplus : Nat}
    (hfull : m.log2 = 52 + surplus) (hlow : -1074 ≤ e + surplus) :
    shiftToTargetExponent Format.binary64 m e .exact =
      (ExtendedMantissa.ofMantissaAndAccuracy m .exact >>> surplus,
          e + surplus) := by
  have htarget : Format.binary64.targetExponent (totalExponent m e) =
      e + surplus := by
    simp only [Format.targetExponent, totalExponent, Format.mantissaBits,
      Format.minExponent, hfull]
    omega
  have hshift : (e + (surplus : Int) - e).toNat = surplus := by omega
  rw [shiftToTargetExponent, htarget, shiftToExponent, hshift]

theorem log2_div_two_pow {m surplus : Nat} (h : m.log2 = 52 + surplus) :
    (m / 2 ^ surplus).log2 = 52 := by
  have hm : m ≠ 0 := by
    rintro rfl
    rw [Nat.log2_zero] at h
    omega
  obtain ⟨hlow, hhigh⟩ := (Nat.log2_eq_iff hm).mp h
  have hpos : 0 < 2 ^ surplus := Nat.two_pow_pos surplus
  have hleast : 2 ^ 52 ≤ m / 2 ^ surplus := by
    rw [Nat.le_div_iff_mul_le hpos, ← Nat.pow_add]
    exact hlow
  rw [Nat.log2_eq_iff (Nat.ne_of_gt (Nat.lt_of_lt_of_le (by decide) hleast))]
  refine ⟨hleast, ?_⟩
  rw [Nat.div_lt_iff_lt_mul hpos, ← Nat.pow_add, Nat.add_right_comm]
  exact hhigh

/-- Rounding leaves all bits in use and does not go below the power that is
reached. -/
theorem reaches_roundWithAccuracy (sign : Sign) {m : Nat} {e : Int}
    {surplus : Nat} (hfull : m.log2 = 52 + surplus) (hlow : -1074 ≤ e + surplus)
    {power : Int} (hpower : power ≤ e + surplus + 52) :
    Reaches sign power (roundWithAccuracy Format.binary64 sign m e .exact) := by
  let first := ExtendedMantissa.ofMantissaAndAccuracy m .exact >>> surplus
  have hfirst : first.mantissa.log2 = 52 := by
    rw [mantissa_shiftRight]
    exact log2_div_two_pow hfull
  have hround := roundedMantissa_bounds first
  -- the rounded significand fits, unless the carry makes it the next power of
  -- two
  obtain ⟨carry, hcarry⟩ : ∃ carry,
    first.roundedMantissa.log2 = 52 + carry := by
    have hpos : first.mantissa ≠ 0 := by
      intro hzero
      rw [hzero, Nat.log2_zero] at hfirst
      cases hfirst
    obtain ⟨hleast, hmost⟩ := (Nat.log2_eq_iff hpos).mp hfirst
    by_cases hnext : first.roundedMantissa = 2 ^ 53
    · exact ⟨1, by rw [hnext, Nat.log2_two_pow]⟩
    · exact ⟨0, (Nat.log2_eq_iff (by omega)).mpr (by omega)⟩
  have hfinal :
      (ExtendedMantissa.ofMantissaAndAccuracy first.roundedMantissa .exact
      >>> carry).mantissa.log2 = 52 := by
    rw [mantissa_shiftRight]
    exact log2_div_two_pow hcarry
  rw [roundWithAccuracy, shiftToTargetExponent_eq hfull hlow]
  simp only
  rw [shiftToTargetExponent_eq hcarry (by omega)]
  simp only
  split
  next hzero =>
    rw [hzero, Nat.log2_zero] at hfinal
    cases hfinal
  · exact .finite hfinal (by omega)

/-- A significand with enough bits needs no more before it is rounded. -/
theorem reaches_round (sign : Sign) {m : Nat} {e : Int} {surplus : Nat}
    (hfull : m.log2 = 52 + surplus) (hlow : -1074 ≤ e + surplus) {power : Int}
    (hpower : power ≤ e + surplus + 52) :
    Reaches sign power (UnpackedFloat.round Format.binary64 sign m e) := by
  have htarget : Format.binary64.targetExponent (totalExponent m e) =
      e + surplus := by
    simp only [Format.targetExponent, totalExponent, Format.mantissaBits,
      Format.minExponent, hfull]
    omega
  have hshift : (e - (e + (surplus : Int))).toNat = 0 := by omega
  rw [UnpackedFloat.round, htarget, decreaseExponent, hshift]
  simp only [Nat.shiftLeft_zero, Int.natCast_zero, Int.sub_zero]
  exact reaches_roundWithAccuracy sign hfull hlow hpower

end Rounding

section Operations

variable {sign sign' : Sign} {power power' : Int}

theorem log2_mul {m n : Nat} (hm : m.log2 = 52) (hn : n.log2 = 52) :
    (m * n).log2 = 52 + 52 ∨ (m * n).log2 = 52 + 53 := by
  have hne : ∀ {k : Nat}, k.log2 = 52 → k ≠ 0 := by
    rintro k hk rfl
    rw [Nat.log2_zero] at hk
    cases hk
  obtain ⟨hmleast, hmmost⟩ := (Nat.log2_eq_iff (hne hm)).mp hm
  obtain ⟨hnleast, hnmost⟩ := (Nat.log2_eq_iff (hne hn)).mp hn
  have hleast : 2 ^ 52 * 2 ^ 52 ≤ m * n := Nat.mul_le_mul hmleast hnleast
  have hmost : m * n < 2 ^ 53 * 2 ^ 53 := Nat.mul_lt_mul'' hmmost hnmost
  rw [← Nat.pow_add] at hleast hmost
  have hpos : m * n ≠ 0 :=
    Nat.ne_of_gt (Nat.lt_of_lt_of_le (Nat.two_pow_pos _) hleast)
  by_cases hcarry : m * n < 2 ^ (52 + 52 + 1)
  · exact .inl ((Nat.log2_eq_iff hpos).mpr ⟨hleast, hcarry⟩)
  · exact .inr ((Nat.log2_eq_iff hpos).mpr ⟨Nat.le_of_not_lt hcarry, hmost⟩)

/-- The powers that two factors reach add up. -/
theorem Reaches.mul {u v : UnpackedFloat} (hu : Reaches sign power u)
    (hv : Reaches sign' power' v) (hpower : -1022 ≤ power + power') :
    Reaches (sign * sign') (power + power')
      (UnpackedFloat.mul Format.binary64 u v) := by
  cases hu with
  | infinity =>
      cases hv with
      | infinity => exact .infinity
      | finite hfull' hleast' => exact .infinity
  | finite hfull hleast =>
      cases hv with
      | infinity => exact .infinity
      | finite hfull' hleast' =>
          rw [UnpackedFloat.mul]
          rcases log2_mul hfull hfull' with hlog | hlog
          · exact reaches_roundWithAccuracy _ hlog (by omega) (by omega)
          · exact reaches_roundWithAccuracy _ hlog (by omega) (by omega)

/-- A sum of positive numbers is as large as either of them. -/
theorem Reaches.add {u v : UnpackedFloat} (hu : Reaches .positive power u)
    (hv : Reaches .positive power' v) (hpower : -1022 ≤ power) :
    Reaches .positive power (UnpackedFloat.add Format.binary64 u v) := by
  cases hu with
  | infinity =>
      cases hv with
      | infinity => exact .infinity
      | finite hfull' hleast' => exact .infinity
  | @finite m e hpos hfull hleast =>
      cases hv with
      | infinity => exact .infinity
      | @finite m' e' hpos' hfull' hleast' =>
          let sum := m <<< (e - min e e').toNat + m' <<< (e' - min e e').toNat
          have hsumLeast : 2 ^ (52 + (e - min e e').toNat) ≤ sum := by
            rw [Nat.pow_add]
            refine Nat.le_trans ?_ (Nat.le_add_right _ _)
            rw [Nat.shiftLeft_eq]
            exact Nat.mul_le_mul_right
              _ ((Nat.log2_eq_iff (Nat.ne_of_gt hpos)).mp hfull).1
          have hsumPos : 0 < sum :=
            Nat.lt_of_lt_of_le (Nat.two_pow_pos _) hsumLeast
          obtain ⟨surplus, hsurplus⟩ :=
            Nat.le.dest ((Nat.le_log2 (Nat.ne_of_gt hsumPos)).mpr hsumLeast)
          have hnormalize : UnpackedFloat.add Format.binary64
              (.finite .positive m e hpos) (.finite .positive m' e' hpos') =
                UnpackedFloat.round Format.binary64 .positive sum
                  (min e e') := by
            have hgt : compare (sum : Int) 0 = .gt :=
              Int.compare_eq_gt.mpr (by omega)
            change UnpackedFloat.normalize Format.binary64 (sum : Int)
              (min e e') .positive = _
            rw [UnpackedFloat.normalize, hgt]
            rfl
          have hsumLog : sum.log2 = 52 + ((e - min e e').toNat + surplus) := by
            omega
          rw [hnormalize]
          exact reaches_round .positive hsumLog (by omega) (by omega)

end Operations

def signOf (negative : Bool) : Sign :=
  if negative then .negative else .positive

section Numbers

theorem toNat_packComponents (sign : Sign) (exponent : BitVec 11)
    (significand : BitVec 52) :
    (packComponents Format.binary64 sign exponent significand).toNat =
      sign.toBitVec.toNat * 2 ^ 63 + exponent.toNat * 2 ^ 52 +
        significand.toNat := by
  have hexponent := exponent.isLt
  rw [packComponents, BitVec.toNat_append,
    ← Nat.shiftLeft_add_eq_or_of_lt significand.isLt, BitVec.toNat_append,
    ← Nat.shiftLeft_add_eq_or_of_lt hexponent, Nat.shiftLeft_eq,
    Nat.shiftLeft_eq]
  omega

/-- The pattern of a magnitude of at least one, up to infinity. -/
theorem reaches_assemble (negative : Bool) {magnitude : Nat}
    (hleast : 1023 * 2 ^ 52 ≤ magnitude)
    (hmost : magnitude ≤ Binary.infinityPattern) :
    Reaches (signOf negative) 0
      (parts (Binary.assemble negative magnitude)) := by
  have hmost' : magnitude ≤ 2047 * 2 ^ 52 := hmost
  have hsign : (signOf negative).toBitVec.toNat * 2 ^ 63 =
      if negative then 1 <<< 63 else 0 := by
    cases negative <;> rfl
  have hbits :
      (UInt64.ofNat (magnitude + if negative then 1 <<< 63 else 0)).toBitVec =
      packComponents Format.binary64 (signOf negative)
        (BitVec.ofNat 11 (magnitude / 2 ^ 52))
        (BitVec.ofNat 52 magnitude) := by
    apply BitVec.eq_of_toNat_eq
    rw [toNat_packComponents, hsign, BitVec.toNat_ofNat, BitVec.toNat_ofNat]
    change (magnitude + if negative then 1 <<< 63 else 0) % 2 ^ 64 = _
    cases negative <;> simp <;> omega
  apply Reaches.pack _ (by decide)
  rw [hbits]
  by_cases hinfinite : magnitude = 2047 * 2 ^ 52
  · rw [hinfinite]
    cases negative <;> exact .infinity
  · apply reaches_unpack_packComponents <;> omega

theorem leadingPower_one {num : Nat} (h : num ≠ 0) :
    Binary.leadingPower num 1 = num.log2 := by
  have hone : (1 : Nat).log2 = 0 := by decide
  have hleast : ¬ num < 2 ^ num.log2 := Nat.not_lt.mpr (Nat.log2_self_le h)
  rw [Binary.leadingPower, hone]
  simp [Nat.shiftLeft_eq, hleast]

theorem div_le_roundHalfEven (num den : Nat) :
    num / den ≤ Binary.roundHalfEven num den := by
  rw [Binary.roundHalfEven]
  split
  · exact Nat.le_refl _
  · split
    · exact Nat.le_succ _
    · exact Nat.le_add_right _ _

/-- The quotient that a whole number is rounded from has all bits of a
significand. -/
theorem leading_le_significand {num : Nat} (h : num ≠ 0) :
    2 ^ 52 ≤ Binary.roundHalfEven (num <<< (52 - num.log2))
      (1 <<< (num.log2 - 52)) := by
  refine Nat.le_trans ?_ (div_le_roundHalfEven _ _)
  rw [Nat.shiftLeft_eq, Nat.one_shiftLeft,
    Nat.le_div_iff_mul_le (Nat.two_pow_pos _), ← Nat.pow_add,
    show 52 + (num.log2 - 52) = num.log2 + (52 - num.log2) by
    omega, Nat.pow_add]
  exact Nat.mul_le_mul_right _ (Nat.log2_self_le h)

/-- A whole number other than zero is at least one in magnitude. -/
theorem reaches_ofInt {n : Int} (h : n ≠ 0) :
    Reaches (signOf (n < 0)) 0 (parts (Binary.ofInt n)) := by
  have hnum : n.natAbs ≠ 0 := Int.natAbs_ne_zero.mpr h
  have hexponent : max ((n.natAbs.log2 : Int) - 52) (-1074) =
      n.natAbs.log2 - 52 := by omega
  have hup : (-((n.natAbs.log2 : Int) - 52)).toNat =
      52 - n.natAbs.log2 := by omega
  have hdown : ((n.natAbs.log2 : Int) - 52).toNat =
      n.natAbs.log2 - 52 := by omega
  have hsignificand := leading_le_significand hnum
  rw [Binary.ofInt, Binary.nearest, if_neg hnum,
    leadingPower_one hnum, hexponent]
  simp only [hup, hdown]
  apply reaches_assemble
  · refine Nat.le_min.mpr ⟨?_, by decide⟩
    have hleading : Binary.leadingBit = 2 ^ 52 := rfl
    have hfield : 1022 ≤ ((n.natAbs.log2 : Int) - 52 + 1074).toNat := by omega
    have hfields := Nat.mul_le_mul_right (2 ^ 52) hfield
    rw [hleading]
    omega
  · exact Nat.min_le_right _ _

end Numbers

def isNegative : UnpackedFloat → Bool
  | .infinity .negative => true
  | .finite .negative _ _ _ => true
  | _ => false

section Signs

theorem isNegative_unpack_packComponents (exponent : BitVec 11)
    (significand : BitVec 52) :
    isNegative (UnpackedFloat.unpack Format.binary64
      (packComponents Format.binary64 .positive exponent significand)) =
        false := by
  rw [UnpackedFloat.unpack]
  simp only [unpackSign_packComponents]
  split
  · split <;> rfl
  · split
    · split <;> rfl
    · rfl

theorem isNegative_pack {u : UnpackedFloat} (h : isNegative u = false) :
    isNegative (Float.Model.pack u).unpack = false := by
  cases u with
  | notANumber => rfl
  | infinity sign =>
      cases sign with
      | negative => cases h
      | positive => rfl
  | zero sign => cases sign <;> rfl
  | finite sign m e hpos =>
      cases sign with
      | negative => cases h
      | positive =>
          change isNegative (UnpackedFloat.unpack Format.binary64
            (UnpackedFloat.pack Format.binary64 (.finite .positive m e hpos))) =
              false
          rw [UnpackedFloat.pack]
          split
          · rfl
          · split
            · exact isNegative_unpack_packComponents _ _
            · exact isNegative_unpack_packComponents _ _

theorem isNegative_roundWithAccuracy (m : Nat) (e : Int) (accuracy : Accuracy) :
    isNegative (roundWithAccuracy Format.binary64 .positive m e accuracy) =
      false := by
  rw [roundWithAccuracy]
  simp only
  split <;> rfl

theorem isNegative_mul_self (u : UnpackedFloat) :
    isNegative (UnpackedFloat.mul Format.binary64 u u) = false := by
  cases u with
  | notANumber => rfl
  | infinity sign => cases sign <;> rfl
  | zero sign => cases sign <;> rfl
  | finite sign m e hpos =>
      cases sign <;> exact isNegative_roundWithAccuracy _ _ _

theorem isNegative_normalize {m : Int} (h : 0 ≤ m) (e : Int) :
    isNegative (UnpackedFloat.normalize Format.binary64 m e .positive) =
      false := by
  rw [UnpackedFloat.normalize]
  split
  next hlt => exact absurd (Int.compare_eq_lt.mp hlt) (Int.not_lt.mpr h)
  · rfl
  · exact isNegative_roundWithAccuracy _ _ _

theorem isNegative_add {u v : UnpackedFloat} (hu : isNegative u = false)
    (hv : isNegative v = false) :
    isNegative (UnpackedFloat.add Format.binary64 u v) = false := by
  cases u with
  | notANumber => rfl
  | infinity sign =>
      cases v with
      | infinity sign' =>
          cases sign with
          | negative => cases hu
          | positive => cases sign' <;> rfl
      | _ => first | rfl | exact hu
  | zero sign =>
      cases v with
      | zero sign' => cases sign <;> cases sign' <;> rfl
      | _ => first | rfl | exact hv
  | finite sign m e hpos =>
      cases v with
      | notANumber => rfl
      | infinity sign' => exact hv
      | zero sign' => exact hu
      | finite sign' m' e' hpos' =>
          cases sign with
          | negative => cases hu
          | positive =>
              cases sign' with
              | negative => cases hv
              | positive =>
                  exact isNegative_normalize
                    (Int.add_nonneg (Int.natCast_nonneg _)
                        (Int.natCast_nonneg _)) _

end Signs

section Zero

/-- Both zeros compare alike with every number. -/
theorem compare_zero (sign sign' : Sign) (u : UnpackedFloat) :
    (UnpackedFloat.zero sign).compare u =
      (UnpackedFloat.zero sign').compare u := by
  cases u with
  | infinity sign => cases sign <;> rfl
  | finite sign m e hpos => cases sign <;> rfl
  | _ => rfl

theorem compare_zero_right (u : UnpackedFloat) (sign sign' : Sign) :
    u.compare (.zero sign) = u.compare (.zero sign') := by
  cases u with
  | infinity sign => cases sign <;> rfl
  | finite sign m e hpos => cases sign <;> rfl
  | _ => rfl

theorem parts_of_beq_zero {x : Float} (h : (x == 0.0) = true) :
    ∃ sign, parts x = .zero sign := by
  change (parts x).beq (.zero .positive) = true at h
  generalize parts x = u at h ⊢
  cases u with
  | zero sign => exact ⟨sign, rfl⟩
  | notANumber => cases h
  | infinity sign => cases sign <;> cases h
  | finite sign m e hpos => cases sign <;> cases h

/-- What equals zero is less than every number above zero. -/
theorem lt_of_beq_zero {x y : Float} (h : (x == 0.0) = true)
    (hy : 0.0 < y) : x < y := by
  obtain ⟨sign, hsign⟩ := parts_of_beq_zero h
  change decide ((parts x).lt (parts y) = true) = true
  rw [hsign, UnpackedFloat.lt, compare_zero sign .positive]
  exact hy

/-- What is less than something that equals zero is less than zero. -/
theorem lt_zero_of_lt {x y : Float} (h : (x == 0.0) = true)
    (hy : y < x) : y < 0.0 := by
  obtain ⟨sign, hsign⟩ := parts_of_beq_zero h
  change decide ((parts y).lt (parts x) = true) = true at hy
  rw [hsign, UnpackedFloat.lt, compare_zero_right _ sign .positive] at hy
  exact hy

theorem beq_zero_eq_false {x : Float} {sign : Sign} {power : Int}
    (h : Reaches sign power (parts x)) : (x == 0.0) = false := by
  change (parts x).beq (parts 0.0) = false
  have hzero : parts 0.0 = .zero .positive := rfl
  rw [hzero]
  generalize parts x = u at h
  cases h with
  | infinity => cases sign <;> rfl
  | finite hfull hleast => cases sign <;> rfl

theorem reaches_mul {x y : Float} {sign sign' : Sign} {power power' : Int}
    (hx : Reaches sign power (parts x)) (hy : Reaches sign' power' (parts y))
    (hpower : -1022 ≤ power + power') :
    Reaches (sign * sign') (power + power') (parts (x * y)) :=
  (hx.mul hy hpower).pack hpower

theorem reaches_add {x y : Float} {power power' : Int}
    (hx : Reaches .positive power (parts x))
    (hy : Reaches .positive power' (parts y)) (hpower : -1022 ≤ power) :
    Reaches .positive power (parts (x + y)) :=
  (hx.add hy hpower).pack hpower

end Zero

section Roots

theorem not_lt_zero_of_isNegative {x : Float}
    (h : isNegative (parts x) = false) : ¬ x < 0.0 := by
  change ¬ decide ((parts x).lt (parts 0.0) = true) = true
  have hzero : parts 0.0 = .zero .positive := rfl
  rw [hzero]
  generalize parts x = u at h
  cases u with
  | notANumber => decide
  | infinity sign =>
      cases sign with
      | negative => cases h
      | positive => decide
  | zero sign => cases sign <;> decide
  | finite sign m e hpos =>
      cases sign with
      | negative => cases h
      | positive => exact Bool.false_ne_true

theorem abs_not_lt_zero (x : Float) : ¬ x.abs < 0.0 := by
  apply not_lt_zero_of_isNegative
  change isNegative (Float.Model.pack (parts x).abs).unpack = false
  apply isNegative_pack
  cases parts x <;> rfl

theorem sum_squares_not_lt_zero (xs : List Float) {sum : Float}
    (h : isNegative (parts sum) = false) :
    ¬ (List.zipWith (· * ·) xs xs).foldl (· + ·) sum < 0.0 := by
  induction xs generalizing sum with
  | nil => exact not_lt_zero_of_isNegative h
  | cons x rest ih =>
      have hsquare : isNegative (parts (x * x)) = false :=
        isNegative_pack (isNegative_mul_self _)
      exact ih (isNegative_pack (isNegative_add h hsquare))

end Roots

end Double

end PointerMotion
