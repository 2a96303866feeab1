import Mathlib.Data.Nat.Cast.Order.Field
import Wzp.Lib.Doubles

/-!
# Scaling integers in double precision

An integer that is multiplied by a factor of 1 or more does not get smaller, and one that is
divided by it does not get larger, also when the result is truncated to an integer again.
-/
namespace Doubles
open Float.Model (Format UnpackedFloat)
open Float.Model.UnpackedFloat

/-! ## Conversions -/

theorem roundToInt_nonneg (m : ℕ) {e : ℤ} (h : 0 ≤ e) :
    roundToInt .positive m e = (m * 2 ^ e.toNat : ℕ) := by
  obtain ⟨k, rfl⟩ := Int.eq_ofNat_of_zero_le h
  have hzero : (0 - ((k : ℤ) - ((k : ℕ) : ℤ))).toNat = 0 := by omega
  simp only [roundToInt, decreaseExponent, shiftToExponent, Int.sub_zero, Int.toNat_natCast, hzero]
  change (((m <<< k : ℕ)) : ℤ) = _
  rw [Nat.shiftLeft_eq]

theorem le_roundToInt {n m : ℕ} {e : ℤ} (h : (n : ℚ) ≤ value m e) :
    (n : ℤ) ≤ roundToInt .positive m e := by
  rcases le_total e 0 with hneg | hpos
  · rw [Truncation.roundToInt_neg _ _ hneg]
    apply Int.ofNat_le.mpr
    rw [Nat.le_div_iff_mul_le (Nat.two_pow_pos _)]
    exact (le_value_iff hneg).mp h
  · rw [roundToInt_nonneg _ hpos]
    obtain ⟨k, rfl⟩ := Int.eq_ofNat_of_zero_le hpos
    rw [value, zpow_natCast] at h
    exact_mod_cast h

theorem roundToInt_le {n m : ℕ} {e : ℤ} (h : value m e ≤ n) :
    roundToInt .positive m e ≤ n := by
  rcases le_total e 0 with hneg | hpos
  · rw [Truncation.roundToInt_neg _ _ hneg]
    apply Int.ofNat_le.mpr
    apply Nat.div_le_of_le_mul
    rw [Nat.mul_comm]
    exact (value_le_iff hneg).mp h
  · rw [roundToInt_nonneg _ hpos]
    obtain ⟨k, rfl⟩ := Int.eq_ofNat_of_zero_le hpos
    rw [value, zpow_natCast] at h
    exact_mod_cast h

theorem le_ofNatClamp {n k : ℕ} (hn : n < 2 ^ 32) (h : n ≤ k) : n ≤ (UInt32.ofNatClamp k).toNat := by
  unfold UInt32.ofNatClamp
  split
  · exact h
  · exact Nat.le_of_lt_succ hn

theorem ofNatClamp_le (k : ℕ) : (UInt32.ofNatClamp k).toNat ≤ k := by
  unfold UInt32.ofNatClamp
  split
  · exact Nat.le_refl k
  · next h => exact Nat.le_trans (Nat.sub_le _ 1) (Nat.not_lt.mp h)

theorem exponent_lt {n m : ℕ} {e : ℤ} (hm : 0 < m) (hn : n < 2 ^ 32) (h : value m e ≤ n) :
    m.log2 + e < 32 := by
  have hpow : (0 : ℚ) < 2 ^ e := by positivity
  have hself : ((2 ^ m.log2 : ℕ) : ℚ) ≤ m := by exact_mod_cast Nat.log2_self_le (Nat.ne_of_gt hm)
  have hbig : (2 : ℚ) ^ (m.log2 + e) < 2 ^ (32 : ℤ) :=
    calc (2 : ℚ) ^ (m.log2 + e) = (2 ^ m.log2 : ℕ) * 2 ^ e := by
          rw [zpow_add₀ (by norm_num), zpow_natCast, Nat.cast_pow, Nat.cast_ofNat]
      _ ≤ m * 2 ^ e := mul_le_mul_of_nonneg_right hself hpow.le
      _ ≤ n := h
      _ < 2 ^ (32 : ℤ) := by exact_mod_cast hn
  exact (zpow_lt_zpow_iff_right₀ (by norm_num)).mp hbig

/-- A number between two integers is rounded to one between them. -/
theorem unpack_round {m : ℕ} {e : ℤ} {acc : Accuracy} (he : e ≤ target m e)
    (h : 0 < finalMantissa m e acc) :
    UnpackedFloat.unpack .binary64 (UnpackedFloat.pack .binary64
      (roundWithAccuracy .binary64 .positive m e acc)) =
      if finalExponent m e acc ≤ 971 then
        .finite .positive (finalMantissa m e acc) (finalExponent m e acc) h
      else .infinity .positive := by
  rw [roundWithAccuracy_eq, dif_neg (Nat.ne_of_gt h)]
  exact unpack_pack h (canonical_final acc he)

theorem round_eq (sign : Sign) (m : ℕ) (e : ℤ) :
    round .binary64 sign m e =
      roundWithAccuracy .binary64 sign (m * 2 ^ (e - target m e).toNat)
        (e - (e - target m e).toNat) .exact := by
  rw [← Nat.shiftLeft_eq]
  rfl

/-- The mantissa of 53 bits that an integer is converted to. -/
theorem target_shifted {n k : ℕ} (hn : n ≠ 0) (hk : n.log2 + k = 52) :
    target (n * 2 ^ k) (-k) = -k := by
  have hlog : (n * 2 ^ k).log2 = 52 := by
    rw [Nat.log2_eq_iff (Nat.ne_of_gt (Nat.mul_pos (Nat.pos_of_ne_zero hn) (Nat.two_pow_pos k)))]
    constructor
    · rw [← hk, Nat.pow_add]
      exact Nat.mul_le_mul_right _ (Nat.log2_self_le hn)
    · rw [← hk, Nat.add_right_comm, Nat.pow_add]
      exact Nat.mul_lt_mul_of_pos_right Nat.lt_log2_self (Nat.two_pow_pos k)
  unfold target
  omega

/-- An integer is converted exactly. -/
theorem unpack_toFloat {n : UInt32} (hn : 0 < n.toNat) : ∃ m e, ∃ hm : 0 < m,
    n.toFloat.toModel.unpack = .finite .positive m e hm ∧ value m e = n.toNat := by
  have hlt := n.toNat_lt
  have hlog : n.toNat.log2 < 32 := (Nat.log2_lt (Nat.ne_of_gt hn)).mpr hlt
  obtain ⟨k, hk⟩ : ∃ k, n.toNat.log2 + k = 52 := ⟨52 - n.toNat.log2, by omega⟩
  have hfloat : n.toFloat.toModel.unpack = UnpackedFloat.unpack .binary64 (UnpackedFloat.pack .binary64
      (roundWithAccuracy .binary64 .positive (n.toNat * 2 ^ k) (-k) .exact)) := by
    have hpos : compare (n.toNat : ℤ) 0 = .gt := compare_gt_iff_gt.mpr (by exact_mod_cast hn)
    have htarget : target n.toNat 0 = -k := by
      unfold target
      omega
    have hround : round .binary64 .positive n.toNat 0 =
        roundWithAccuracy .binary64 .positive (n.toNat * 2 ^ k) (-k) .exact := by
      rw [round_eq, htarget, zero_sub, neg_neg, Int.toNat_natCast, zero_sub]
    rw [← hround]
    change UnpackedFloat.unpack .binary64 (UnpackedFloat.pack .binary64
      (UnpackedFloat.normalize .binary64 (n.toNat : ℤ) 0 .positive)) = _
    rw [UnpackedFloat.normalize, hpos]
    rfl
  have htarget := target_shifted (Nat.ne_of_gt hn) hk
  have hvalue : value (n.toNat * 2 ^ k) (-k) = n.toNat := by
    rw [value, zpow_neg, zpow_natCast, Nat.cast_mul, Nat.cast_pow, Nat.cast_ofNat]
    field_simp
  have hge := le_final .exact hvalue.ge (by omega)
  have hle := final_le (below_exact le_rfl) hvalue.le (by omega) (by omega)
  have heq := le_antisymm hle hge
  have hm : 0 < finalMantissa (n.toNat * 2 ^ k) (-k) .exact := by
    apply Nat.pos_of_ne_zero
    intro hzero
    rw [hzero, value, Nat.cast_zero, zero_mul] at heq
    exact Nat.ne_of_lt hn (by exact_mod_cast heq)
  have hexp := exponent_lt hm hlt heq.le
  refine ⟨_, _, hm, ?_, heq⟩
  rw [hfloat, unpack_round htarget.ge hm, if_pos (by omega)]

/-! ## Factors -/

theorem canonical_unpack {b : BitVec Format.binary64.numBits} {sign : Sign} {m : ℕ} {e : ℤ} {hm : 0 < m}
    (h : UnpackedFloat.unpack .binary64 b = .finite sign m e hm) : Canonical m e := by
  have hbias : (Format.binary64.exponentBias : ℤ) +
      (Format.binary64.mantissaBitsWithoutImplicit : ℤ) = 1075 := by decide
  rcases Truncation.unpack_eq_finite h with ⟨hzero, rfl, rfl⟩ | ⟨hzero, rfl, rfl⟩
  · have hexp : (unpackExponent b).toNat = 0 := congrArg BitVec.toNat hzero
    have hleast : ((unpackExponent b).toNat : ℤ) - (Format.binary64.exponentBias +
        (Format.binary64.mantissaBitsWithoutImplicit : ℤ)) + 1 = -1074 := by
      rw [hexp, hbias]
      rfl
    have hlt : (unpackMantissa b).toNat < 2 ^ 52 := (unpackMantissa b).isLt
    exact ⟨Nat.lt_of_lt_of_le hlt (by decide), hleast.ge, Or.inr hleast⟩
  · have hexp : (unpackExponent b).toNat ≠ 0 := fun heq => hzero (BitVec.eq_of_toNat_eq heq)
    have hmantissa : 2 ^ 52 ≤ (1#1 ++ unpackMantissa b).toNat := by
      rw [BitVec.toNat_append, ← Nat.shiftLeft_add_eq_or_of_lt (unpackMantissa b).isLt]
      exact Nat.le_add_right _ _
    refine ⟨(1#1 ++ unpackMantissa b).isLt, ?_, Or.inl hmantissa⟩
    rw [hbias]
    omega

/-- A factor of 1 or more is infinite or normal, with an exponent that is not smaller. -/
theorem one_le_cases {r : Float} (h : 1 ≤ r) :
    r.toModel.unpack = .infinity .positive ∨ ∃ m e, ∃ hm : 0 < m,
      r.toModel.unpack = .finite .positive m e hm ∧ 2 ^ 52 ≤ m ∧ m < 2 ^ 53 ∧ -52 ≤ e := by
  have hone : (1 : Float).toModel.unpack = .finite .positive (2 ^ 52) (-52) (by decide) := rfl
  have hle : (1 : Float).toModel.unpack.le r.toModel.unpack = true := of_decide_eq_true h
  rw [hone] at hle
  generalize hr : r.toModel.unpack = x at hle ⊢
  cases x with
  | notANumber => cases hle
  | infinity sign =>
      cases sign with
      | positive => exact Or.inl rfl
      | negative => cases hle
  | zero sign => cases hle
  | finite sign m e hm =>
      cases sign with
      | negative => cases hle
      | positive =>
          right
          have hcanonical := canonical_unpack hr
          have hcompare : ((compare (-52) e).then (compare (2 ^ 52) m)).isLE = true := hle
          refine ⟨m, e, hm, rfl, ?_⟩
          rcases lt_trichotomy (-52) e with hlt | heq | hgt
          · have hnormal := hcanonical.normal
            exact ⟨hnormal.resolve_right (by omega), hcanonical.lt, hlt.le⟩
          · rw [compare_eq_iff_eq.mpr heq] at hcompare
            have hm : 2 ^ 52 ≤ m := Nat.isLE_compare.mp hcompare
            exact ⟨hm, hcanonical.lt, heq.le⟩
          · rw [compare_gt_iff_gt.mpr hgt] at hcompare
            cases hcompare

theorem one_le_value {m : ℕ} {e : ℤ} (hm : 2 ^ 52 ≤ m) (he : -52 ≤ e) : 1 ≤ value m e := by
  have hpow : (0 : ℚ) < 2 ^ e := by positivity
  calc (1 : ℚ) = 2 ^ (52 : ℤ) * 2 ^ (-52 : ℤ) := by norm_num
    _ ≤ 2 ^ (52 : ℤ) * 2 ^ e := by
        apply mul_le_mul_of_nonneg_left _ (by positivity)
        exact zpow_le_zpow_right₀ (by norm_num) he
    _ ≤ m * 2 ^ e := mul_le_mul_of_nonneg_right (by exact_mod_cast hm) hpow.le

theorem value_mul (m₁ m₂ : ℕ) (e₁ e₂ : ℤ) :
    value (m₁ * m₂) (e₁ + e₂) = value m₁ e₁ * value m₂ e₂ := by
  rw [value, value, value, zpow_add₀ (by norm_num), Nat.cast_mul]
  ring

/-- Multiplied by a factor of 1 or more an integer does not get smaller. -/
theorem le_toUInt32_mul {n : UInt32} {r : Float} (hn : 0 < n.toNat) (hr : 1 ≤ r) :
    n ≤ (n.toFloat * r).toUInt32 := by
  obtain ⟨m₁, e₁, hm₁, hfloat, hvalue⟩ := unpack_toFloat hn
  have hmul : (n.toFloat * r).toModel.unpack = UnpackedFloat.unpack .binary64
      (UnpackedFloat.pack .binary64 (UnpackedFloat.mul .binary64 n.toFloat.toModel.unpack
        r.toModel.unpack)) := rfl
  rw [UInt32.le_iff_toNat_le]
  change n.toNat ≤ (UInt32.ofNatClamp (toInt 0 (UInt32.size - 1)
    (n.toFloat * r).toModel.unpack).toNat).toNat
  apply le_ofNatClamp n.toNat_lt
  rw [hmul, hfloat]
  rcases one_le_cases hr with hinf | ⟨m₂, e₂, hm₂, hfinite, hge, hlt, hexp⟩
  · rw [hinf]
    have htop : (toInt 0 (UInt32.size - 1) (UnpackedFloat.unpack .binary64
        (UnpackedFloat.pack .binary64 (.infinity .positive)))).toNat = 2 ^ 32 - 1 := by decide
    exact Nat.le_trans (Nat.le_of_lt_succ n.toNat_lt) htop.ge
  · have hlog : 52 ≤ (m₁ * m₂).log2 := by
      apply (Nat.le_log2 (Nat.ne_of_gt (Nat.mul_pos hm₁ hm₂))).mpr
      exact Nat.le_trans hge (Nat.le_mul_of_pos_left m₂ hm₁)
    have htarget : e₁ + e₂ ≤ target (m₁ * m₂) (e₁ + e₂) := by
      unfold target
      omega
    have hle : (n.toNat : ℚ) ≤ value (m₁ * m₂) (e₁ + e₂) := by
      rw [value_mul, hvalue]
      exact le_mul_of_one_le_right (Nat.cast_nonneg _) (one_le_value hge hexp)
    have hfinal := le_final .exact hle (Nat.le_trans (Nat.le_of_lt n.toNat_lt) (by decide))
    have hpos : 0 < finalMantissa (m₁ * m₂) (e₁ + e₂) .exact := by
      apply Nat.pos_of_ne_zero
      intro hzero
      rw [hzero, value, Nat.cast_zero, zero_mul] at hfinal
      exact Nat.not_le_of_gt hn (by exact_mod_cast hfinal)
    rw [hfinite]
    change n.toNat ≤ (toInt 0 (UInt32.size - 1) (UnpackedFloat.unpack .binary64
      (UnpackedFloat.pack .binary64 (roundWithAccuracy .binary64 .positive (m₁ * m₂) (e₁ + e₂)
        .exact)))).toNat
    rw [unpack_round htarget hpos]
    by_cases hfits : finalExponent (m₁ * m₂) (e₁ + e₂) .exact ≤ 971
    · have hint := le_roundToInt hfinal
      rw [if_pos hfits]
      change n.toNat ≤ (roundToInt .positive _ _).toNat
      omega
    · rw [if_neg hfits]
      exact Nat.le_of_lt_succ n.toNat_lt

/-! ## Quotients -/

theorem below_quotient {m d : ℕ} (hd : 0 < d) :
    Below (.ofMantissaAndAccuracy (m / d) (accuracyOfFraction (m % d) d)) ((m : ℚ) / d) := by
  have hpos : (0 : ℚ) < d := by exact_mod_cast hd
  unfold accuracyOfFraction
  split
  · apply below_exact
    exact Nat.cast_div_le
  · next hrest =>
    apply below_inexact
    rw [lt_div_iff₀ hpos]
    have hlt : m / d * d < m := by
      have hdiv := Nat.div_add_mod m d
      rw [Nat.mul_comm] at hdiv
      omega
    exact_mod_cast hlt

/-- The exponent of a quotient before it is rounded. -/
def quotientExponent (m₁ : ℕ) (e₁ : ℤ) (m₂ : ℕ) (e₂ : ℤ) : ℤ :=
  min (e₁ - e₂) (max (m₁.log2 + 1 + e₁ - (m₂.log2 + 1 + e₂) - 53) (-1074))

def dividend (m₁ : ℕ) (e₁ : ℤ) (m₂ : ℕ) (e₂ : ℤ) : ℕ :=
  m₁ * 2 ^ (e₁ - e₂ - quotientExponent m₁ e₁ m₂ e₂).toNat

theorem divCore_eq (m₁ : ℕ) (e₁ : ℤ) (m₂ : ℕ) (e₂ : ℤ) :
    divCore .binary64 m₁ e₁ m₂ e₂ =
      (dividend m₁ e₁ m₂ e₂ / m₂, quotientExponent m₁ e₁ m₂ e₂,
        accuracyOfFraction (dividend m₁ e₁ m₂ e₂ % m₂) m₂) := by
  rw [dividend, ← Nat.shiftLeft_eq]
  rfl

theorem unpack_div {x y : Float} {m₁ m₂ : ℕ} {e₁ e₂ : ℤ} {hm₁ : 0 < m₁} {hm₂ : 0 < m₂}
    (hx : x.toModel.unpack = .finite .positive m₁ e₁ hm₁)
    (hy : y.toModel.unpack = .finite .positive m₂ e₂ hm₂) :
    (x / y).toModel.unpack = UnpackedFloat.unpack .binary64 (UnpackedFloat.pack .binary64
      (roundWithAccuracy .binary64 .positive (dividend m₁ e₁ m₂ e₂ / m₂)
        (quotientExponent m₁ e₁ m₂ e₂) (accuracyOfFraction (dividend m₁ e₁ m₂ e₂ % m₂) m₂))) := by
  change UnpackedFloat.unpack .binary64 (UnpackedFloat.pack .binary64
    (UnpackedFloat.div .binary64 x.toModel.unpack y.toModel.unpack)) = _
  rw [hx, hy]
  change UnpackedFloat.unpack .binary64 (UnpackedFloat.pack .binary64
    (roundWithAccuracy .binary64 .positive (divCore .binary64 m₁ e₁ m₂ e₂).1
      (divCore .binary64 m₁ e₁ m₂ e₂).2.1 (divCore .binary64 m₁ e₁ m₂ e₂).2.2)) = _
  rw [divCore_eq]

/-- The quotient has 53 bits already, or the smallest exponent. -/
theorem quotientExponent_le_target {m₁ m₂ : ℕ} (e₁ e₂ : ℤ) (hm₁ : 0 < m₁) (hm₂ : 0 < m₂)
    (h : m₁.log2 ≤ m₂.log2 + 52) :
    quotientExponent m₁ e₁ m₂ e₂ ≤
      target (dividend m₁ e₁ m₂ e₂ / m₂) (quotientExponent m₁ e₁ m₂ e₂) := by
  rcases le_or_gt (quotientExponent m₁ e₁ m₂ e₂) (-1074) with hleast | hgt
  · exact le_trans hleast (le_max_right _ _)
  · have hexp : quotientExponent m₁ e₁ m₂ e₂ = m₁.log2 + e₁ - (m₂.log2 + e₂) - 53 := by
      unfold quotientExponent at hgt ⊢
      omega
    have hshift : m₁.log2 + (e₁ - e₂ - quotientExponent m₁ e₁ m₂ e₂).toNat = m₂.log2 + 1 + 52 := by
      omega
    have hbig : 2 ^ 52 ≤ dividend m₁ e₁ m₂ e₂ / m₂ := by
      rw [Nat.le_div_iff_mul_le hm₂]
      calc 2 ^ 52 * m₂ ≤ 2 ^ 52 * 2 ^ (m₂.log2 + 1) :=
            Nat.mul_le_mul_left _ (Nat.le_of_lt Nat.lt_log2_self)
        _ = 2 ^ m₁.log2 * 2 ^ (e₁ - e₂ - quotientExponent m₁ e₁ m₂ e₂).toNat := by
            rw [← Nat.pow_add, ← Nat.pow_add, hshift, Nat.add_comm]
        _ ≤ dividend m₁ e₁ m₂ e₂ := Nat.mul_le_mul_right _ (Nat.log2_self_le (Nat.ne_of_gt hm₁))
    have hlog : 52 ≤ (dividend m₁ e₁ m₂ e₂ / m₂).log2 :=
      (Nat.le_log2 (by omega)).mpr hbig
    unfold target
    omega

theorem dividend_value (m₁ m₂ : ℕ) (e₁ e₂ : ℤ) :
    (dividend m₁ e₁ m₂ e₂ : ℚ) / m₂ * 2 ^ quotientExponent m₁ e₁ m₂ e₂ =
      value m₁ e₁ / value m₂ e₂ := by
  have hle : quotientExponent m₁ e₁ m₂ e₂ ≤ e₁ - e₂ := min_le_left _ _
  have hsum : (2 : ℚ) ^ (e₁ - e₂ - quotientExponent m₁ e₁ m₂ e₂).toNat *
      2 ^ quotientExponent m₁ e₁ m₂ e₂ = 2 ^ e₁ / 2 ^ e₂ := by
    rw [← zpow_natCast, ← zpow_add₀ (by norm_num), ← zpow_sub₀ (by norm_num)]
    congr 1
    omega
  rw [dividend, value, value, Nat.cast_mul, Nat.cast_pow, Nat.cast_ofNat, mul_div_mul_comm, ← hsum]
  ring

theorem log2_le {b : BitVec Format.binary64.numBits} {sign : Sign} {m : ℕ} {e : ℤ} {hm : 0 < m}
    (h : UnpackedFloat.unpack .binary64 b = .finite sign m e hm) (k : ℕ) : m.log2 ≤ k.log2 + 52 := by
  have hlt := (Nat.log2_lt (Nat.ne_of_gt hm)).mpr (canonical_unpack h).lt
  omega

/-- A quotient of at most 32 bits is rounded behind the point. -/
theorem target_le_zero {em : Accuracy} {n m : ℕ} {e : ℤ} {x : ℚ}
    (hbelow : Below (.ofMantissaAndAccuracy m em) x) (h : x * 2 ^ e ≤ n) (hn : n < 2 ^ 32)
    (he : e ≤ 0) : target m e ≤ 0 := by
  have hpow : (0 : ℚ) < 2 ^ e := by positivity
  have hle := hbelow.le
  rw [ofMantissaAndAccuracy_mantissa] at hle
  have hvalue : value m e ≤ n := (mul_le_mul_of_nonneg_right hle hpow.le).trans h
  rcases Nat.eq_zero_or_pos m with rfl | hm
  · unfold target
    rw [Nat.log2_zero]
    omega
  · have hexp := exponent_lt hm hn hvalue
    unfold target
    omega

theorem toInt_round_le {n m : ℕ} {e : ℤ} {acc : Accuracy} (he : e ≤ target m e) (hn : n < 2 ^ 32)
    (h : value (finalMantissa m e acc) (finalExponent m e acc) ≤ n) (top : ℤ) :
    toInt 0 top (UnpackedFloat.unpack .binary64 (UnpackedFloat.pack .binary64
      (roundWithAccuracy .binary64 .positive m e acc))) ≤ n := by
  rcases Nat.eq_zero_or_pos (finalMantissa m e acc) with hzero | hpos
  · rw [roundWithAccuracy_eq, dif_pos hzero]
    exact Int.natCast_nonneg n
  · have hexp := exponent_lt hpos hn h
    rw [unpack_round he hpos, if_pos (by omega)]
    exact roundToInt_le h

theorem zero_le_round {m : ℕ} {e : ℤ} {acc : Accuracy} (he : e ≤ target m e) :
    (UnpackedFloat.zero .positive).le (UnpackedFloat.unpack .binary64 (UnpackedFloat.pack .binary64
      (roundWithAccuracy .binary64 .positive m e acc))) = true := by
  rcases Nat.eq_zero_or_pos (finalMantissa m e acc) with hzero | hpos
  · rw [roundWithAccuracy_eq, dif_pos hzero]
    rfl
  · rw [unpack_round he hpos]
    by_cases hfits : finalExponent m e acc ≤ 971
    · rw [if_pos hfits]
      rfl
    · rw [if_neg hfits]
      rfl

/-- Divided by a factor of 1 or more an integer does not get larger. -/
theorem toUInt32_div_le {n : UInt32} {r : Float} (hn : 0 < n.toNat) (hr : 1 ≤ r) :
    (n.toFloat / r).toUInt32 ≤ n := by
  have hlt := n.toNat_lt
  obtain ⟨m₁, e₁, hm₁, hfloat, hvalue⟩ := unpack_toFloat hn
  rw [UInt32.le_iff_toNat_le]
  change (UInt32.ofNatClamp (toInt 0 (UInt32.size - 1)
    (n.toFloat / r).toModel.unpack).toNat).toNat ≤ n.toNat
  refine Nat.le_trans (ofNatClamp_le _) (Int.toNat_le.mpr ?_)
  rcases one_le_cases hr with hinf | ⟨m₂, e₂, hm₂, hfinite, hge, _, hexp⟩
  · change toInt 0 (UInt32.size - 1) (UnpackedFloat.unpack .binary64 (UnpackedFloat.pack .binary64
      (UnpackedFloat.div .binary64 n.toFloat.toModel.unpack r.toModel.unpack))) ≤ n.toNat
    rw [hfloat, hinf]
    have hzero : toInt 0 (UInt32.size - 1) (UnpackedFloat.unpack .binary64
        (UnpackedFloat.pack .binary64 (.zero .positive))) = 0 := by decide
    exact le_trans hzero.le (Int.natCast_nonneg _)
  · have htarget := quotientExponent_le_target e₁ e₂ hm₁ hm₂ (log2_le hfloat m₂)
    have hquotient : (dividend m₁ e₁ m₂ e₂ : ℚ) / m₂ * 2 ^ quotientExponent m₁ e₁ m₂ e₂ ≤ n.toNat := by
      rw [dividend_value, hvalue]
      exact div_le_self (Nat.cast_nonneg _) (one_le_value hge hexp)
    have hneg : quotientExponent m₁ e₁ m₂ e₂ ≤ 0 := by
      have hfirst := exponent_lt hm₁ hlt hvalue.le
      have hsecond : 52 ≤ m₂.log2 := (Nat.le_log2 (Nat.ne_of_gt hm₂)).mpr hge
      unfold quotientExponent
      omega
    have hbelow := below_quotient (m := dividend m₁ e₁ m₂ e₂) hm₂
    have hfinal := final_le hbelow hquotient htarget (target_le_zero hbelow hquotient hlt hneg)
    rw [unpack_div hfloat hfinite]
    exact toInt_round_le htarget hlt hfinal _

/-- Divided by a positive number an integer is not negative. -/
theorem zero_le_toFloat_div (n : UInt32) {d : Float} {m : ℕ} {e : ℤ} {hm : 0 < m}
    (hd : d.toModel.unpack = .finite .positive m e hm) : 0 ≤ n.toFloat / d := by
  apply decide_eq_true
  change (UnpackedFloat.zero .positive).le (n.toFloat / d).toModel.unpack = true
  rcases Nat.eq_zero_or_pos n.toNat with hzero | hpos
  · obtain rfl : n = 0 := UInt32.toNat_inj.mp hzero
    change (UnpackedFloat.zero .positive).le (UnpackedFloat.unpack .binary64
      (UnpackedFloat.pack .binary64 (UnpackedFloat.div .binary64 (.zero .positive)
        d.toModel.unpack))) = true
    have hdiv : UnpackedFloat.div .binary64 (.zero .positive) (.finite .positive m e hm) =
        .zero .positive := rfl
    rw [hd, hdiv]
    decide
  · obtain ⟨m₁, e₁, hm₁, hfloat, _⟩ := unpack_toFloat hpos
    rw [unpack_div hfloat hd]
    exact zero_le_round (quotientExponent_le_target e₁ e hm₁ hm (log2_le hfloat m))

end Doubles
