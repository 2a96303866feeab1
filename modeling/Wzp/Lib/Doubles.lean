import Mathlib.Algebra.Order.Field.Power
import Mathlib.Data.Nat.Log
import Mathlib.Tactic.Linarith
import Mathlib.Tactic.Positivity
import Mathlib.Tactic.Ring
import Mathlib.Tactic.FieldSimp
import Wzp.Lib.Truncation

/-!
# Rounding to double precision

Rounding to nearest never passes an integer of at most 53 bits, and what has been rounded is
packed and unpacked without a loss.
-/
namespace Doubles
open Float.Model (Format UnpackedFloat)
open Float.Model.UnpackedFloat

/-- The number that a mantissa and an exponent stand for. -/
def value (m : ℕ) (e : ℤ) : ℚ := m * 2 ^ e

/-! ## Shifted mantissas -/

/-- The mantissa is not above a number, and below it if bits have been dropped. -/
structure Below (em : ExtendedMantissa) (x : ℚ) : Prop where
  le : (em.mantissa : ℚ) ≤ x
  lt : em.roundBit = true ∨ em.stickyBit = true → (em.mantissa : ℚ) < x

theorem Below.shiftRightOne {em : ExtendedMantissa} {x : ℚ} (h : Below em x) :
    Below em.shiftRightOne (x / 2) := by
  have hdiv : (em.mantissa : ℚ) = 2 * (em.mantissa / 2 : ℕ) + (em.mantissa % 2 : ℕ) := by
    exact_mod_cast (Nat.div_add_mod em.mantissa 2).symm
  have hnonneg : (0 : ℚ) ≤ (em.mantissa % 2 : ℕ) := Nat.cast_nonneg _
  have hle := h.le
  constructor
  · change ((em.mantissa / 2 : ℕ) : ℚ) ≤ x / 2
    linarith
  · intro hbits
    change ((em.mantissa / 2 : ℕ) : ℚ) < x / 2
    rcases hbits with hround | hsticky
    · have hodd : em.mantissa % 2 = 1 := by
        have hne : em.mantissa % 2 ≠ 0 := by simpa [ExtendedMantissa.shiftRightOne] using hround
        omega
      rw [hodd] at hdiv
      push_cast at hdiv ⊢
      linarith
    · have hlt : (em.mantissa : ℚ) < x := h.lt (by simpa [ExtendedMantissa.shiftRightOne] using hsticky)
      linarith

theorem Below.shiftRight {em : ExtendedMantissa} {x : ℚ} (h : Below em x) (k : ℕ) :
    Below (em >>> k) (x / 2 ^ k) := by
  induction k with
  | zero =>
      rw [pow_zero, div_one]
      exact h
  | succ k ih =>
      have hnext := ih.shiftRightOne
      rwa [div_div, ← pow_succ] at hnext

theorem below_exact {m : ℕ} {x : ℚ} (h : (m : ℚ) ≤ x) :
    Below (.ofMantissaAndAccuracy m .exact) x := by
  refine ⟨h, fun hbits => ?_⟩
  simp [ExtendedMantissa.ofMantissaAndAccuracy] at hbits

theorem below_inexact {m : ℕ} {x : ℚ} (h : (m : ℚ) < x) (ordering : Ordering) :
    Below (.ofMantissaAndAccuracy m (.inexact ordering)) x := by
  have hmantissa : (ExtendedMantissa.ofMantissaAndAccuracy m (.inexact ordering)).mantissa = m := by
    cases ordering <;> rfl
  constructor
  · rw [hmantissa]
    exact h.le
  · rw [hmantissa]
    exact fun _ => h

theorem rounded_cases (em : ExtendedMantissa) :
    em.roundedMantissa = em.mantissa ∨
      em.roundedMantissa = em.mantissa + 1 ∧ (em.roundBit = true ∨ em.stickyBit = true) := by
  obtain ⟨m, r, s⟩ := em
  have hparity : m % 2 = 0 ∨ m % 2 = 1 := by omega
  cases r <;> cases s <;>
    simp [ExtendedMantissa.roundedMantissa, ExtendedMantissa.accuracy, Accuracy.roundToNearestEven,
      hparity]

/-- Rounding does not pass an integer. -/
theorem Below.rounded_le {em : ExtendedMantissa} {x : ℚ} (h : Below em x) {n : ℕ} (hx : x ≤ n) :
    em.roundedMantissa ≤ n := by
  rcases rounded_cases em with heq | ⟨heq, hbits⟩
  · rw [heq]
    exact_mod_cast h.le.trans hx
  · have hlt : (em.mantissa : ℚ) < n := (h.lt hbits).trans_le hx
    rw [heq]
    exact_mod_cast hlt

theorem shiftRight_mantissa (em : ExtendedMantissa) (k : ℕ) :
    (em >>> k).mantissa = em.mantissa / 2 ^ k := Truncation.repeat_mantissa em k

theorem ofMantissaAndAccuracy_mantissa (m : ℕ) (acc : Accuracy) :
    (ExtendedMantissa.ofMantissaAndAccuracy m acc).mantissa = m := by
  rcases acc with _ | ordering
  · rfl
  · cases ordering <;> rfl

/-! ## Rounding -/

/-- The exponent that a number is rounded to. -/
def target (m : ℕ) (e : ℤ) : ℤ := max (m.log2 + 1 + e - 53) (-1074)

def shiftBy (m : ℕ) (e : ℤ) : ℕ := (target m e - e).toNat

theorem value_shift_le (m k : ℕ) (e : ℤ) : value (m / 2 ^ k) (e + k) ≤ value m e := by
  have hpos : (0 : ℚ) < 2 ^ e := by positivity
  have hle : ((m / 2 ^ k : ℕ) : ℚ) * 2 ^ k ≤ m := by exact_mod_cast Nat.div_mul_le_self m (2 ^ k)
  have hmul := mul_le_mul_of_nonneg_right hle hpos.le
  rw [value, value, zpow_add₀ (by norm_num), zpow_natCast]
  calc ((m / 2 ^ k : ℕ) : ℚ) * (2 ^ e * 2 ^ k) = ((m / 2 ^ k : ℕ) : ℚ) * 2 ^ k * 2 ^ e := by ring
    _ ≤ m * 2 ^ e := hmul

theorem le_value_iff {n m : ℕ} {e : ℤ} (he : e ≤ 0) :
    (n : ℚ) ≤ value m e ↔ n * 2 ^ (-e).toNat ≤ m := by
  obtain ⟨k, rfl⟩ : ∃ k : ℕ, e = -k := ⟨(-e).toNat, by omega⟩
  have hk : (-(-(k : ℤ))).toNat = k := by omega
  have hpos : (0 : ℚ) < 2 ^ k := by positivity
  rw [value, zpow_neg, zpow_natCast, hk, ← div_eq_mul_inv, le_div_iff₀ hpos]
  exact_mod_cast Iff.rfl

theorem value_le_iff {n m : ℕ} {e : ℤ} (he : e ≤ 0) :
    value m e ≤ n ↔ m ≤ n * 2 ^ (-e).toNat := by
  obtain ⟨k, rfl⟩ : ∃ k : ℕ, e = -k := ⟨(-e).toNat, by omega⟩
  have hk : (-(-(k : ℤ))).toNat = k := by omega
  have hpos : (0 : ℚ) < 2 ^ k := by positivity
  rw [value, zpow_neg, zpow_natCast, hk, ← div_eq_mul_inv, div_le_iff₀ hpos]
  exact_mod_cast Iff.rfl

/-- The bits that are dropped are those behind the point, or behind 53 others. -/
theorem le_value_shift {n m : ℕ} {e : ℤ} (h : (n : ℚ) ≤ value m e) (hn : n ≤ 2 ^ 53)
    (hk : 0 < shiftBy m e) : (n : ℚ) ≤ value (m / 2 ^ shiftBy m e) (e + shiftBy m e) := by
  have hexp : e + shiftBy m e = target m e := by
    unfold shiftBy at hk ⊢
    omega
  rcases le_or_gt (target m e) 0 with hle | hgt
  · have he : e ≤ 0 := by omega
    rw [hexp, le_value_iff hle, Nat.le_div_iff_mul_le (Nat.two_pow_pos _), Nat.mul_assoc,
      ← Nat.pow_add]
    rw [le_value_iff he] at h
    have hsum : (-target m e).toNat + shiftBy m e = (-e).toNat := by omega
    rwa [hsum]
  · have hlog : shiftBy m e + 52 = m.log2 := by
      unfold shiftBy target at *
      omega
    have hm : m ≠ 0 := by
      rintro rfl
      simp at hlog
    have hbig : 2 ^ 52 ≤ m / 2 ^ shiftBy m e := by
      rw [Nat.le_div_iff_mul_le (Nat.two_pow_pos _), ← Nat.pow_add, Nat.add_comm, hlog]
      exact Nat.log2_self_le hm
    obtain ⟨j, hj⟩ : ∃ j : ℕ, target m e = (j + 1 : ℕ) := ⟨(target m e).toNat - 1, by omega⟩
    rw [hexp, hj, value, zpow_natCast]
    have hstep : n ≤ m / 2 ^ shiftBy m e * 2 ^ (j + 1) :=
      calc n ≤ 2 ^ 52 * 2 := hn
        _ ≤ m / 2 ^ shiftBy m e * 2 ^ (j + 1) := by
          apply Nat.mul_le_mul hbig
          exact Nat.le_self_pow (Nat.succ_ne_zero j) 2
    exact_mod_cast hstep

theorem le_shifted {n m : ℕ} {e : ℤ} (h : (n : ℚ) ≤ value m e) (hn : n ≤ 2 ^ 53) :
    (n : ℚ) ≤ value (m / 2 ^ shiftBy m e) (e + shiftBy m e) := by
  rcases Nat.eq_zero_or_pos (shiftBy m e) with hzero | hpos
  · simpa [hzero] using h
  · exact le_value_shift h hn hpos

/-- The mantissa after the first shift, rounded. -/
def rounded (m : ℕ) (e : ℤ) (acc : Accuracy) : ℕ :=
  (ExtendedMantissa.ofMantissaAndAccuracy m acc >>> shiftBy m e).roundedMantissa

def finalShift (m : ℕ) (e : ℤ) (acc : Accuracy) : ℕ :=
  shiftBy (rounded m e acc) (e + shiftBy m e)

def finalMantissa (m : ℕ) (e : ℤ) (acc : Accuracy) : ℕ :=
  rounded m e acc / 2 ^ finalShift m e acc

def finalExponent (m : ℕ) (e : ℤ) (acc : Accuracy) : ℤ :=
  e + shiftBy m e + finalShift m e acc

theorem roundWithAccuracy_eq (sign : Sign) (m : ℕ) (e : ℤ) (acc : Accuracy) :
    roundWithAccuracy .binary64 sign m e acc =
      if h : finalMantissa m e acc = 0 then .zero sign
      else .finite sign (finalMantissa m e acc) (finalExponent m e acc) (Nat.pos_of_ne_zero h) := by
  have hfinal : (ExtendedMantissa.ofMantissaAndAccuracy (rounded m e acc) .exact >>>
      finalShift m e acc).mantissa = finalMantissa m e acc := by
    rw [shiftRight_mantissa, ofMantissaAndAccuracy_mantissa]
    rfl
  exact congrArg (fun mantissa => if h : mantissa = 0 then UnpackedFloat.zero sign
    else .finite sign mantissa (finalExponent m e acc) (Nat.pos_of_ne_zero h)) hfinal

theorem shifted_mantissa (m : ℕ) (e : ℤ) (acc : Accuracy) :
    (ExtendedMantissa.ofMantissaAndAccuracy m acc >>> shiftBy m e).mantissa =
      m / 2 ^ shiftBy m e := by
  rw [shiftRight_mantissa, ofMantissaAndAccuracy_mantissa]

theorem quotient_le_rounded (m : ℕ) (e : ℤ) (acc : Accuracy) :
    m / 2 ^ shiftBy m e ≤ rounded m e acc := by
  rw [← shifted_mantissa m e acc, rounded]
  rcases rounded_cases (ExtendedMantissa.ofMantissaAndAccuracy m acc >>> shiftBy m e) with
    heq | ⟨heq, _⟩
  · exact heq.ge
  · exact heq ▸ Nat.le_succ _

theorem rounded_le_succ (m : ℕ) (e : ℤ) (acc : Accuracy) :
    rounded m e acc ≤ m / 2 ^ shiftBy m e + 1 := by
  rw [← shifted_mantissa m e acc, rounded]
  rcases rounded_cases (ExtendedMantissa.ofMantissaAndAccuracy m acc >>> shiftBy m e) with
    heq | ⟨heq, _⟩
  · exact heq ▸ Nat.le_succ _
  · exact heq.le

/-- An integer that is representable stays below what is rounded. -/
theorem le_final {n m : ℕ} {e : ℤ} (acc : Accuracy) (h : (n : ℚ) ≤ value m e) (hn : n ≤ 2 ^ 53) :
    (n : ℚ) ≤ value (finalMantissa m e acc) (finalExponent m e acc) := by
  apply le_shifted _ hn
  refine (le_shifted h hn).trans ?_
  have hpos : (0 : ℚ) < 2 ^ (e + shiftBy m e) := by positivity
  exact mul_le_mul_of_nonneg_right (by exact_mod_cast quotient_le_rounded m e acc) hpos.le

/-- An integer that is representable stays above what is rounded. -/
theorem final_le {n m : ℕ} {e : ℤ} {acc : Accuracy} {x : ℚ}
    (hbelow : Below (.ofMantissaAndAccuracy m acc) x) (h : x * 2 ^ e ≤ n)
    (he : e ≤ target m e) (ht : target m e ≤ 0) :
    value (finalMantissa m e acc) (finalExponent m e acc) ≤ n := by
  have hexp : e + shiftBy m e = target m e := by
    unfold shiftBy
    omega
  refine (value_shift_le _ _ _).trans ?_
  rw [hexp, value_le_iff ht]
  apply (hbelow.shiftRight (shiftBy m e)).rounded_le
  have hpow : (0 : ℚ) < 2 ^ e := by positivity
  have hpow' : (0 : ℚ) < 2 ^ shiftBy m e := by positivity
  rw [div_le_iff₀ hpow', Nat.cast_mul, mul_assoc, Nat.cast_pow, Nat.cast_ofNat, ← pow_add]
  have hsum : ((-target m e).toNat + shiftBy m e : ℕ) = (-e).toNat := by omega
  have hneg : (2 : ℚ) ^ (-e).toNat = (2 ^ e)⁻¹ := by
    rw [← zpow_natCast, ← zpow_neg]
    congr 1
    omega
  rw [hsum, hneg, ← div_eq_mul_inv, le_div_iff₀ hpow]
  exact h

/-- A mantissa of 53 bits, or the smallest exponent. -/
structure Canonical (m : ℕ) (e : ℤ) : Prop where
  lt : m < 2 ^ 53
  least : -1074 ≤ e
  normal : 2 ^ 52 ≤ m ∨ e = -1074

theorem canonical_final {m : ℕ} {e : ℤ} (acc : Accuracy) (he : e ≤ target m e) :
    Canonical (finalMantissa m e acc) (finalExponent m e acc) := by
  have hexp : e + shiftBy m e = target m e := by
    unfold shiftBy
    omega
  have hlow : (m.log2 : ℤ) + 1 + e - 53 ≤ target m e ∧ -1074 ≤ target m e ∧
      (target m e = -1074 ∨ target m e = m.log2 + 1 + e - 53) := by
    unfold target
    omega
  have hlt : m / 2 ^ shiftBy m e < 2 ^ 53 := by
    rw [Nat.div_lt_iff_lt_mul (Nat.two_pow_pos _), ← Nat.pow_add]
    refine Nat.lt_of_lt_of_le Nat.lt_log2_self ?_
    exact Nat.pow_le_pow_right (by decide) (by omega)
  have hnormal : 2 ^ 52 ≤ m / 2 ^ shiftBy m e ∨ target m e = -1074 := by
    rcases hlow.2.2 with hleast | htop
    · exact Or.inr hleast
    · left
      have hm : m ≠ 0 := by
        rintro rfl
        simp at htop
        omega
      rw [Nat.le_div_iff_mul_le (Nat.two_pow_pos _), ← Nat.pow_add]
      refine Nat.le_trans (Nat.pow_le_pow_right (by decide) ?_) (Nat.log2_self_le hm)
      omega
  have hge := quotient_le_rounded m e acc
  have hle : rounded m e acc ≤ 2 ^ 53 := Nat.le_trans (rounded_le_succ m e acc) hlt
  unfold finalMantissa finalExponent finalShift
  rw [hexp]
  rcases Nat.lt_or_eq_of_le hle with hsmall | htop
  · have hlog : (rounded m e acc).log2 ≤ 52 := by
      rcases Nat.eq_zero_or_pos (rounded m e acc) with hzero | hpos
      · rw [hzero]
        decide
      · exact Nat.le_of_lt_succ ((Nat.log2_lt (Nat.ne_of_gt hpos)).mpr hsmall)
    have hshift : shiftBy (rounded m e acc) (target m e) = 0 := by
      unfold shiftBy
      rw [target]
      omega
    rw [hshift, Nat.pow_zero, Nat.div_one, Nat.cast_zero, add_zero]
    exact ⟨hsmall, hlow.2.1, hnormal.imp_left (Nat.le_trans · hge)⟩
  · -- the carry of the rounding takes a bit more
    have hshift : shiftBy (rounded m e acc) (target m e) = 1 := by
      unfold shiftBy
      rw [htop, target, Nat.log2_two_pow]
      omega
    rw [hshift, htop]
    exact ⟨by decide, by omega, Or.inl (by decide)⟩

/-! ## Packing -/

theorem unpackSign_positive (ee : BitVec 11) (mm : BitVec 52) :
    unpackSign (packComponents .binary64 .positive ee mm) = 0#1 := by
  change (Sign.positive.toBitVec ++ ee ++ mm).extractLsb' 63 1 = 0#1
  rw [BitVec.extractLsb'_append_eq_of_le (by decide), BitVec.extractLsb'_append_eq_of_le (by decide)]
  rfl

theorem unpack_normal {ee : BitVec 11} (mm : BitVec 52) (hone : ee ≠ -1#11) (hzero : ee ≠ 0#11) :
    UnpackedFloat.unpack .binary64 (packComponents .binary64 .positive ee mm) =
      .finite .positive (2 ^ 52 + mm.toNat) (ee.toNat - 1075)
        (Nat.add_pos_left (Nat.two_pow_pos 52) _) := by
  have hsign := unpackSign_positive ee mm
  have hexponent : unpackExponent (packComponents .binary64 .positive ee mm) = ee :=
    unpackExponent_packComponents
  have hmantissa : unpackMantissa (packComponents .binary64 .positive ee mm) = mm :=
    unpackMantissa_packComponents
  generalize packComponents .binary64 .positive ee mm = b at *
  subst hexponent hmantissa
  have happend : (1#1 ++ unpackMantissa b).toNat = 2 ^ 52 + (unpackMantissa b).toNat := by
    rw [BitVec.toNat_append, ← Nat.shiftLeft_add_eq_or_of_lt (unpackMantissa b).isLt]
    rfl
  unfold UnpackedFloat.unpack
  dsimp only
  rw [hsign, if_neg hone, if_neg hzero, UnpackedFloat.finite.injEq]
  exact ⟨rfl, happend, rfl⟩

theorem unpack_subnormal (mm : BitVec 52) (h : 0 < mm.toNat) :
    UnpackedFloat.unpack .binary64 (packComponents .binary64 .positive 0#11 mm) =
      .finite .positive mm.toNat (-1074) h := by
  have hmm : mm ≠ 0#52 := by
    rintro rfl
    simp at h
  have hsign := unpackSign_positive 0#11 mm
  have hexponent : unpackExponent (packComponents .binary64 .positive 0#11 mm) = 0#11 :=
    unpackExponent_packComponents
  have hmantissa : unpackMantissa (packComponents .binary64 .positive 0#11 mm) = mm :=
    unpackMantissa_packComponents
  generalize packComponents .binary64 .positive 0#11 mm = b at *
  subst hmantissa
  unfold UnpackedFloat.unpack
  dsimp only
  rw [hsign, hexponent, if_neg (by decide), if_pos rfl, dif_neg hmm]
  rfl

theorem pack_finite {m : ℕ} {e : ℤ} (hm : 0 < m) :
    UnpackedFloat.pack .binary64 (.finite .positive m e hm) =
      if 2048 ≤ (e + 1075).toNat + 1 then packedInfinity .binary64 .positive
      else if m.log2 + 1 = 53 then
        packComponents .binary64 .positive (BitVec.ofNat 11 (e + 1075).toNat) (BitVec.ofNat 52 m)
      else packComponents .binary64 .positive 0#11 (BitVec.ofNat 52 m) := by
  have hbias : e + 1075 = e + ((1023 : ℕ) : ℤ) + ((52 : ℕ) : ℤ) := by
    push_cast
    ring
  rw [hbias]
  rfl

/-- A canonical number is packed as it is, or as infinity. -/
theorem unpack_pack {m : ℕ} {e : ℤ} (hm : 0 < m) (h : Canonical m e) :
    UnpackedFloat.unpack .binary64 (UnpackedFloat.pack .binary64 (.finite .positive m e hm)) =
      if e ≤ 971 then .finite .positive m e hm else .infinity .positive := by
  have hlt := h.lt
  have hleast := h.least
  rw [pack_finite]
  by_cases hle : e ≤ 971
  · rw [if_neg (by omega), if_pos hle]
    by_cases hnormal : 2 ^ 52 ≤ m
    · have hlog : m.log2 = 52 := (Nat.log2_eq_iff (by omega)).mpr ⟨hnormal, hlt⟩
      have hexp : (BitVec.ofNat 11 (e + 1075).toNat).toNat = (e + 1075).toNat :=
        Nat.mod_eq_of_lt (by omega)
      have hmantissa : (BitVec.ofNat 52 m).toNat = m - 2 ^ 52 := by
        rw [BitVec.toNat_ofNat]
        omega
      rw [if_pos (by omega), unpack_normal, UnpackedFloat.finite.injEq, hexp, hmantissa]
      · exact ⟨rfl, by omega, by omega⟩
      · intro heq
        rw [heq] at hexp
        have hbits : (-1#11).toNat = 2047 := by decide
        omega
      · intro heq
        rw [heq] at hexp
        have hbits : (0#11).toNat = 0 := by decide
        omega
    · have hlog : m.log2 < 52 := (Nat.log2_lt (by omega)).mpr (by omega)
      have hmantissa : (BitVec.ofNat 52 m).toNat = m := Nat.mod_eq_of_lt (by omega)
      rw [if_neg (by omega), unpack_subnormal _ (by omega), UnpackedFloat.finite.injEq, hmantissa]
      exact ⟨rfl, rfl, (h.normal.resolve_left hnormal).symm⟩
  · rw [if_pos (by omega), if_neg hle]
    rfl

end Doubles
