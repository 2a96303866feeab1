import Mathlib.Order.Compare
import Mathlib.Data.Int.Order.Basic
import Mathlib.Algebra.GroupWithZero.Nat

/-!
# Truncation of single precision numbers

A number that is not above a positive bound is truncated to an integer that is not above
the bound either.
-/
namespace Truncation
open Float.Model (Format UnpackedFloat)
open Float.Model.UnpackedFloat

theorem repeat_mantissa (em : ExtendedMantissa) (n : ℕ) :
    (Nat.repeat ExtendedMantissa.shiftRightOne n em).mantissa = em.mantissa / 2 ^ n := by
  induction n with
  | zero => rw [Nat.pow_zero, Nat.div_one]; rfl
  | succ n ih =>
      rw [Nat.pow_succ, ← Nat.div_div_eq_div_mul, ← ih]
      rfl

/-- With a negative exponent the bits behind the point are dropped. -/
theorem roundToInt_neg (sign : Sign) (m : ℕ) {e : ℤ} (h : e ≤ 0) :
    roundToInt sign m e = sign.apply ((m / 2 ^ (-e).toNat : ℕ) : ℤ) := by
  have hzero : e.toNat = 0 := by omega
  have hneg : (0 - (e - ((0 : ℕ) : ℤ))).toNat = (-e).toNat := by omega
  simp only [roundToInt, decreaseExponent, shiftToExponent, Int.sub_zero, hzero, hneg,
    Nat.shiftLeft_zero]
  exact congrArg (fun n : ℕ => sign.apply (n : ℤ)) (repeat_mantissa _ _)

/-- A finite number is subnormal or has an implicit bit. -/
theorem unpack_eq_finite {spec : Format} {b : BitVec spec.numBits} {sign : Sign} {m : ℕ} {e : ℤ}
    {hm : 0 < m} (h : UnpackedFloat.unpack spec b = .finite sign m e hm) :
    (unpackExponent b = 0#_ ∧ m = (unpackMantissa b).toNat ∧
      e = (unpackExponent b).toNat - (spec.exponentBias + spec.mantissaBitsWithoutImplicit) + 1) ∨
    (unpackExponent b ≠ 0#_ ∧ m = (1#1 ++ unpackMantissa b).toNat ∧
      e = (unpackExponent b).toNat - (spec.exponentBias + spec.mantissaBitsWithoutImplicit)) := by
  unfold UnpackedFloat.unpack at h
  dsimp only at h
  by_cases hones : unpackExponent b = -1#_
  · rw [if_pos hones] at h
    by_cases hmantissa : unpackMantissa b = 0#_
    · rw [if_pos hmantissa] at h
      cases h
    · rw [if_neg hmantissa] at h
      cases h
  · rw [if_neg hones] at h
    by_cases hzero : unpackExponent b = 0#_
    · rw [if_pos hzero] at h
      by_cases hmantissa : unpackMantissa b = 0#_
      · rw [dif_pos hmantissa] at h
        cases h
      · rw [dif_neg hmantissa] at h
        cases h
        exact .inl ⟨hzero, rfl, rfl⟩
    · rw [if_neg hzero] at h
      cases h
      exact .inr ⟨hzero, rfl, rfl⟩

theorem mantissa_lt {b : BitVec Format.binary32.numBits} {sign : Sign} {m : ℕ} {e : ℤ} {hm : 0 < m}
    (h : unpack Format.binary32 b = .finite sign m e hm) : m < 2 ^ 24 := by
  rcases unpack_eq_finite h with ⟨-, rfl, -⟩ | ⟨-, rfl, -⟩
  · have hlt := (unpackMantissa b).isLt
    exact Nat.lt_of_lt_of_le hlt (by decide)
  · exact (1#1 ++ unpackMantissa b).isLt

/-- Of two exponents the smaller gives the smaller quotient, whatever the mantissas are. -/
theorem quotient_le {m m' k k' : ℕ} (hm : m < 2 ^ 24) (hm' : 2 ^ 23 ≤ m') (h : k' < k) :
    m / 2 ^ k ≤ m' / 2 ^ k' := by
  obtain ⟨d, rfl⟩ := Nat.exists_eq_add_of_lt h
  have hhalf : m / 2 < 2 ^ 23 := by omega
  calc m / 2 ^ (k' + d + 1) = m / 2 / 2 ^ (k' + d) := by
        rw [Nat.pow_succ', Nat.div_div_eq_div_mul]
    _ ≤ m' / 2 ^ (k' + d) := Nat.div_le_div_right (Nat.le_of_lt (Nat.lt_of_lt_of_le hhalf hm'))
    _ ≤ m' / 2 ^ k' := Nat.div_le_div_left (Nat.pow_le_pow_right (by decide) (Nat.le_add_right _ _))
        (Nat.two_pow_pos _)

/-- A number that is not above a normal bound is truncated to at most the bound. -/
theorem toInt_le {x : UnpackedFloat} {b : BitVec Format.binary32.numBits} {m k : ℕ} {hm : 0 < m}
    (hx : UnpackedFloat.unpack Format.binary32 b = x) (hnormal : 2 ^ 23 ≤ m)
    (h : (UnpackedFloat.finite .positive m (-k) hm).lt x = false) (top : ℤ) :
    x.toInt 0 top ≤ (m / 2 ^ k : ℕ) := by
  cases x with
  | notANumber => exact Int.natCast_nonneg _
  | zero sign => exact Int.natCast_nonneg _
  | infinity sign =>
      cases sign with
      | positive => cases h
      | negative => exact Int.natCast_nonneg _
  | finite sign m' e hm' =>
      cases sign with
      | negative =>
          have hneg : toInt 0 top (.finite .negative m' e hm') ≤ 0 :=
            Int.neg_nonpos_of_nonneg (Int.natCast_nonneg _)
          exact Int.le_trans hneg (Int.natCast_nonneg _)
      | positive =>
          have hlt := mantissa_lt hx
          have hcompare : ((compare (-(k : ℤ)) e).then (compare m m')) ≠ .lt := by
            intro heq
            have hpos : (some ((compare (-(k : ℤ)) e).then (compare m m')) == some .lt) = false := h
            rw [heq] at hpos
            cases hpos
          have hle : e ≤ -k := by
            refine Int.not_lt.mp fun hgt => hcompare ?_
            rw [compare_lt_iff_lt.mpr hgt]
            rfl
          change roundToInt .positive m' e ≤ _
          rw [roundToInt_neg _ _ (by omega)]
          apply Int.ofNat_le.mpr
          rcases Int.lt_or_eq_of_le hle with hsmaller | heq
          · exact quotient_le hlt hnormal (by omega)
          · have hmantissa : m' ≤ m := by
              refine Nat.not_lt.mp fun hgt => hcompare ?_
              rw [heq, compare_eq_iff_eq.mpr rfl]
              exact Nat.compare_eq_lt.mpr hgt
            have hk : (-e).toNat = k := by omega
            rw [hk]
            exact Nat.div_le_div_right hmantissa

theorem toNat_ofNatClamp_le (n : ℕ) : (UInt8.ofNatClamp n).toNat ≤ n := by
  unfold UInt8.ofNatClamp
  split
  · exact Nat.le_refl n
  · next h => exact Nat.le_trans (Nat.sub_le _ 1) (Nat.not_lt.mp h)

theorem toUInt8_le {c x : Float32} {m k : ℕ} {hm : 0 < m}
    (hc : c.toModel.unpack = .finite .positive m (-k) hm) (hnormal : 2 ^ 23 ≤ m) (h : ¬ c < x) :
    x.toUInt8.toNat ≤ m / 2 ^ k := by
  have hlt : (c.toModel.unpack.lt x.toModel.unpack) = false := by
    rw [← Bool.not_eq_true]
    exact fun htrue => h (decide_eq_true htrue)
  rw [hc] at hlt
  have hint := toInt_le rfl hnormal hlt (UInt8.size - 1)
  exact Nat.le_trans (toNat_ofNatClamp_le _) (Int.toNat_le.mpr hint)

end Truncation
