import Mathlib.Algebra.Group.Nat.Defs
import Mathlib.Data.List.Basic
import Mathlib.Tactic.Common

/-!
# Big-endian byte buffers

Writers produce the bytes they append; readers split the front of a buffer.
A reader that meets the end of the buffer sees zero bytes, so a caller that
needs them checks the remaining length first.
-/
namespace Bytes

abbrev Buf := List UInt8

/-- What holds of the 256 bytes one by one, holds of all. -/
theorem forall_byte {p : UInt8 → Prop} (h : ∀ i : Fin 256, p (UInt8.ofFin i)) (b : UInt8) : p b :=
  h b.toFin

/-- The `k`-th base-256 digit of a natural number, counted from the low end. -/
def digit (n k : Nat) : UInt8 := UInt8.ofNat (n / 256 ^ k)

@[simp] theorem toNat_digit (n k : Nat) : (digit n k).toNat = n / 256 ^ k % 256 := by
  simp [digit]

def putU16 (x : UInt16) : Buf := [digit x.toNat 1, digit x.toNat 0]

def putU32 (x : UInt32) : Buf :=
  [digit x.toNat 3, digit x.toNat 2, digit x.toNat 1, digit x.toNat 0]

def getU8 (b : Buf) : UInt8 × Buf := (b.headD 0, b.tail)

def getU16 (b : Buf) : UInt16 × Buf :=
  let (b1, b) := getU8 b
  let (b0, b) := getU8 b
  (UInt16.ofNat (b1.toNat * 256 + b0.toNat), b)

def getU32 (b : Buf) : UInt32 × Buf :=
  let (b3, b) := getU8 b
  let (b2, b) := getU8 b
  let (b1, b) := getU8 b
  let (b0, b) := getU8 b
  (UInt32.ofNat (b3.toNat * 256 ^ 3 + b2.toNat * 256 ^ 2 + b1.toNat * 256 + b0.toNat), b)

@[simp] theorem getU8_cons (x : UInt8) (b : Buf) : getU8 (x :: b) = (x, b) := rfl

@[simp] theorem getU16_put (x : UInt16) (b : Buf) : getU16 (putU16 x ++ b) = (x, b) := by
  have hx : x.toNat < 2 ^ 16 := x.toNat_lt
  have hv : x.toNat / 256 ^ 1 % 256 * 256 + x.toNat / 256 ^ 0 % 256 = x.toNat := by omega
  simp only [putU16, getU16, List.cons_append, List.nil_append, getU8_cons, toNat_digit, hv,
    UInt16.ofNat_toNat]

@[simp] theorem getU32_put (x : UInt32) (b : Buf) : getU32 (putU32 x ++ b) = (x, b) := by
  have hx : x.toNat < 2 ^ 32 := x.toNat_lt
  have hv : x.toNat / 256 ^ 3 % 256 * 256 ^ 3 + x.toNat / 256 ^ 2 % 256 * 256 ^ 2 +
      x.toNat / 256 ^ 1 % 256 * 256 + x.toNat / 256 ^ 0 % 256 = x.toNat := by omega
  simp only [putU32, getU32, List.cons_append, List.nil_append, getU8_cons, toNat_digit, hv,
    UInt32.ofNat_toNat]

/-- Two bytes are a number that was written. -/
theorem exists_putU16 {b : Buf} (h : 2 ≤ b.length) : ∃ x rest, b = putU16 x ++ rest := by
  obtain _ | ⟨b1, _ | ⟨b0, rest⟩⟩ := b
  · cases Nat.not_succ_le_zero 1 h
  · cases Nat.not_succ_le_self 1 h
  · have hb1 : b1.toNat < 256 := b1.toNat_lt
    have hb0 : b0.toNat < 256 := b0.toNat_lt
    refine ⟨UInt16.ofNat (b1.toNat * 256 + b0.toNat), rest, ?_⟩
    rw [putU16, UInt16.toNat_ofNat_of_lt' (show _ < 65536 by omega)]
    have h1 : digit (b1.toNat * 256 + b0.toNat) 1 = b1 := by
      apply UInt8.toNat_inj.mp
      rw [toNat_digit]
      omega
    have h0 : digit (b1.toNat * 256 + b0.toNat) 0 = b0 := by
      apply UInt8.toNat_inj.mp
      rw [toNat_digit]
      omega
    rw [h1, h0]
    rfl

theorem exists_putU32 {b : Buf} (h : 4 ≤ b.length) : ∃ x rest, b = putU32 x ++ rest := by
  obtain ⟨x1, rest, rfl⟩ := exists_putU16 (Nat.le_trans (by decide) h)
  rw [List.length_append] at h
  obtain ⟨x0, rest, rfl⟩ := exists_putU16 (b := rest) (Nat.le_of_add_le_add_left h)
  have hx1 : x1.toNat < 65536 := x1.toNat_lt
  have hx0 : x0.toNat < 65536 := x0.toNat_lt
  refine ⟨UInt32.ofNat (x1.toNat * 65536 + x0.toNat), rest, ?_⟩
  rw [putU32, UInt32.toNat_ofNat_of_lt' (show _ < 4294967296 by omega)]
  have hhigh : ∀ k, digit (x1.toNat * 65536 + x0.toNat) (k + 2) = digit x1.toNat k := by
    intro k
    apply UInt8.toNat_inj.mp
    rw [toNat_digit, toNat_digit, Nat.pow_add, Nat.mul_comm (256 ^ k), ← Nat.div_div_eq_div_mul]
    congr 2
    omega
  have hlow : ∀ k < 2, digit (x1.toNat * 65536 + x0.toNat) k = digit x0.toNat k := by
    intro k hk
    apply UInt8.toNat_inj.mp
    rw [toNat_digit, toNat_digit]
    obtain rfl | rfl : k = 0 ∨ k = 1 := by omega
    · omega
    · omega
  rw [hhigh 1, hhigh 0, hlow 1 (by decide), hlow 0 (by decide)]
  rfl

theorem putU32_inj {x y : UInt32} (h : putU32 x = putU32 y) : x = y := by
  have hg := congrArg (fun b => (getU32 (b ++ [])).1) h
  simpa only [getU32_put] using hg

/-! ## Numbers of any width -/

def octets : ℕ → ℕ → Buf
  | 0, _ => []
  | k + 1, n => digit n k :: octets k n

def ofOctets (b : Buf) : ℕ := b.foldl (fun n x => n * 256 + x.toNat) 0

@[simp] theorem octets_length (k n : ℕ) : (octets k n).length = k := by
  induction k with
  | zero => rfl
  | succ k ih => rw [octets, List.length_cons, ih]

theorem foldl_octets (k n acc : ℕ) :
    (octets k n).foldl (fun n x => n * 256 + x.toNat) acc = acc * 256 ^ k + n % 256 ^ k := by
  induction k generalizing acc with
  | zero => rw [octets, List.foldl_nil, Nat.pow_zero, Nat.mul_one, Nat.mod_one, Nat.add_zero]
  | succ k ih =>
      rw [octets, List.foldl_cons, ih, toNat_digit, Nat.add_mul, Nat.mod_pow_succ, Nat.mul_assoc,
        ← Nat.pow_succ', Nat.mul_comm (256 ^ k), Nat.add_assoc, Nat.add_comm (_ * 256 ^ k) (n % _)]

theorem ofOctets_octets (k n : ℕ) : ofOctets (octets k n) = n % 256 ^ k := by
  rw [ofOctets, foldl_octets, Nat.zero_mul, Nat.zero_add]

/-- Each byte with the byte of the key. -/
def mask (key b : Buf) : Buf := List.zipWith (· ^^^ ·) b key

theorem mask_mask {key b : Buf} (h : b.length ≤ key.length) : mask key (mask key b) = b := by
  induction b generalizing key with
  | nil => rfl
  | cons x b ih =>
      cases key with
      | nil => cases Nat.not_succ_le_zero _ h
      | cons k key =>
          change (x ^^^ k ^^^ k) :: mask key (mask key b) = x :: b
          rw [ih (Nat.le_of_succ_le_succ h), UInt8.xor_assoc, UInt8.xor_self, UInt8.xor_zero]

theorem mask_length {key b : Buf} (h : b.length ≤ key.length) : (mask key b).length = b.length := by
  rw [mask, List.length_zipWith]
  exact Nat.min_eq_left h

/-! ## Readers that check -/

/-- An access beyond the end of a buffer. -/
inductive OutOfRange where
  | outOfRange
  deriving DecidableEq, Repr

theorem ok_read_bind {α β : Type} (a : α) (f : α → Except OutOfRange β) :
    (Except.ok a >>= f) = f a := rfl

/-- The first `n` bytes and those behind them. -/
def split (n : ℕ) (b : Buf) : Except OutOfRange (Buf × Buf) :=
  if b.length < n then .error .outOfRange else .ok (b.take n, b.drop n)

def readU8 (b : Buf) : Except OutOfRange (UInt8 × Buf) :=
  if b.length < 1 then .error .outOfRange else .ok (getU8 b)

def readU16 (b : Buf) : Except OutOfRange (UInt16 × Buf) :=
  if b.length < 2 then .error .outOfRange else .ok (getU16 b)

@[simp] theorem readU8_cons (x : UInt8) (b : Buf) : readU8 (x :: b) = .ok (x, b) := rfl

@[simp] theorem readU16_put (x : UInt16) (b : Buf) : readU16 (putU16 x ++ b) = .ok (x, b) := by
  rw [readU16, if_neg (by rw [List.length_append]; exact Nat.not_lt.mpr (Nat.le_add_right 2 _)),
    getU16_put]

@[simp] theorem split_append (b rest : Buf) : split b.length (b ++ rest) = .ok (b, rest) := by
  rw [split, if_neg (by rw [List.length_append]; omega), List.take_left, List.drop_left]

end Bytes
