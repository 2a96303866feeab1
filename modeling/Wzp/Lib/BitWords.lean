import Mathlib.Data.Nat.Bitwise

/-!
# Bit vectors stored in 64-bit words

Bit `i` of a word list is bit `i % 64` of word `i / 64`; positions past the
last word read as clear.
-/
namespace BitWords

def bitAt (ws : List UInt64) (i : Nat) : Bool := (ws.getD (i / 64) 0).toNat.testBit (i % 64)

theorem testBit_of_ge {w : UInt64} {i : Nat} (hi : 64 ≤ i) : w.toNat.testBit i = false :=
  Nat.testBit_lt_two_pow (Nat.lt_of_lt_of_le w.toNat_lt (Nat.pow_le_pow_right (by decide) hi))

theorem toNat_shiftAmount {k : Nat} (hk : k < 64) : (UInt64.ofNat k).toNat % 64 = k := by
  rw [UInt64.toNat_ofNat']
  omega

theorem testBit_shiftLeft (w : UInt64) {k i : Nat} (hk : k < 64) (hi : i < 64) :
    (w <<< UInt64.ofNat k).toNat.testBit i = (decide (k ≤ i) && w.toNat.testBit (i - k)) := by
  rw [UInt64.toNat_shiftLeft, toNat_shiftAmount hk, Nat.testBit_mod_two_pow, Nat.testBit_shiftLeft,
    decide_eq_true hi, Bool.true_and]

theorem testBit_shiftRight (w : UInt64) {k : Nat} (hk : k < 64) (i : Nat) :
    (w >>> UInt64.ofNat k).toNat.testBit i = w.toNat.testBit (k + i) := by
  rw [UInt64.toNat_shiftRight, toNat_shiftAmount hk, Nat.testBit_shiftRight]

theorem testBit_or (v w : UInt64) (i : Nat) :
    (v ||| w).toNat.testBit i = (v.toNat.testBit i || w.toNat.testBit i) := by
  rw [UInt64.toNat_or, Nat.testBit_or]

theorem toNat_one_shiftLeft {k : Nat} (hk : k < 64) :
    ((1 : UInt64) <<< UInt64.ofNat k).toNat = 2 ^ k := by
  rw [UInt64.toNat_shiftLeft, toNat_shiftAmount hk, UInt64.toNat_one, Nat.one_shiftLeft]
  exact Nat.mod_eq_of_lt (Nat.pow_lt_pow_right (by decide) hk)

theorem testBit_one_shiftLeft {k : Nat} (hk : k < 64) (i : Nat) :
    ((1 : UInt64) <<< UInt64.ofNat k).toNat.testBit i = decide (k = i) := by
  rw [toNat_one_shiftLeft hk, Nat.testBit_two_pow]

/-- The source's single-bit test `(w >> k) & 1 == 1`. -/
theorem shiftRight_and_one (w : UInt64) {k : Nat} (hk : k < 64) :
    (w >>> UInt64.ofNat k &&& 1 == 1) = w.toNat.testBit k := by
  have hbit : w.toNat.testBit k = decide (w.toNat >>> k % 2 = 1) := by
    rw [← Nat.testBit_zero, Nat.testBit_shiftRight, Nat.add_zero]
  have hval : (w >>> UInt64.ofNat k &&& 1).toNat = w.toNat >>> k % 2 := by
    rw [UInt64.toNat_and, UInt64.toNat_shiftRight, toNat_shiftAmount hk]
    exact Nat.and_one_is_mod _
  rw [hbit, Bool.eq_iff_iff, beq_iff_eq, decide_eq_true_iff, ← UInt64.toNat_inj, hval]
  rfl

/-- Clearing the low `k` bits with the mask `!((1 << k) - 1)`. -/
theorem and_not_lowMask {w : UInt64} {k : Nat} (hk : k < 64)
    (hlow : ∀ i < k, w.toNat.testBit i = false) :
    w &&& ~~~(((1 : UInt64) <<< UInt64.ofNat k) - 1) = w := by
  have hpos : (1 : UInt64) ≤ (1 : UInt64) <<< UInt64.ofNat k := by
    rw [UInt64.le_iff_toNat_le, toNat_one_shiftLeft hk]
    exact Nat.one_le_two_pow
  have hmask : (((1 : UInt64) <<< UInt64.ofNat k) - 1).toNat = 2 ^ k - 1 := by
    rw [UInt64.toNat_sub_of_le _ _ hpos, toNat_one_shiftLeft hk, UInt64.toNat_one]
  have hlt : 2 ^ k - 1 < 2 ^ 64 := by
    have hpow : 2 ^ k < 2 ^ 64 := Nat.pow_lt_pow_right (by decide) hk
    omega
  have hnot : (~~~(((1 : UInt64) <<< UInt64.ofNat k) - 1)).toNat = 2 ^ 64 - (2 ^ k - 1 + 1) := by
    have hsize : UInt64.size = 2 ^ 64 := rfl
    rw [UInt64.toNat_not, hmask, Nat.sub_sub, Nat.add_comm 1, hsize]
  rw [← UInt64.toNat_inj, UInt64.toNat_and, hnot]
  apply Nat.eq_of_testBit_eq
  intro i
  rw [Nat.testBit_and, Nat.testBit_two_pow_sub_succ hlt, Nat.testBit_two_pow_sub_one]
  by_cases hik : i < k
  · simp [hlow i hik]
  · by_cases hi : i < 64
    · simp [hik, hi]
    · simp [testBit_of_ge (w := w) (Nat.le_of_not_lt hi)]

theorem bitAt_set {ws : List UInt64} {q : Nat} (hq : q < ws.length) (w : UInt64) (i : Nat) :
    bitAt (ws.set q w) i = if i / 64 = q then w.toNat.testBit (i % 64) else bitAt ws i := by
  unfold bitAt
  rw [List.getD_eq_getElem?_getD, List.getD_eq_getElem?_getD, List.getElem?_set]
  by_cases h : i / 64 = q
  · subst h
    simp [hq]
  · simp [h, Ne.symm h]

theorem bitAt_of_length_le {ws : List UInt64} {i : Nat} (hi : ws.length ≤ i / 64) :
    bitAt ws i = false := by
  unfold bitAt
  rw [List.getD_eq_default _ _ hi]
  exact Nat.zero_testBit _

end BitWords
