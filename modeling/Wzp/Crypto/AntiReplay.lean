import Wzp.Lib.BitWords
import Wzp.Crypto.Primitives

/-!
# Sliding-window replay protection

The window is a list of 64-bit words, newest packet at bit 0. Its size is kept
as a `u32`, which is narrower than the constructor's argument.
-/
namespace Wzp.Crypto
open BitWords

/-- Bit `i` of the bitmap stands for the sequence number `highest - i`. -/
structure AntiReplayWindow where
  windowSize : UInt32
  highest : UInt32
  bitmap : List UInt64
  initialized : Bool
  deriving DecidableEq, Repr

namespace AntiReplayWindow

/-- The size is a 64-bit `usize`: the cast to `u32` truncates, and the word
count is computed modulo 2^64. -/
def withWindow (size : UInt64) : AntiReplayWindow :=
  { windowSize := size.toUInt32
    highest := 0
    bitmap := List.replicate ((size + 63) / 64).toNat 0
    initialized := false }

def setBitIn (bitmap : List UInt64) (offset : Nat) : List UInt64 :=
  let word := offset / 64
  let bit := offset % 64
  if word < bitmap.length then bitmap.set word (bitmap.getD word 0 ||| 1 <<< UInt64.ofNat bit)
  else bitmap

def setBit (w : AntiReplayWindow) (offset : Nat) : AntiReplayWindow :=
  { w with bitmap := setBitIn w.bitmap offset }

def getBit (w : AntiReplayWindow) (offset : Nat) : Bool :=
  let word := offset / 64
  let bit := offset % 64
  if word < w.bitmap.length then w.bitmap.getD word 0 >>> UInt64.ofNat bit &&& 1 == 1 else false

/-- The value the shift loop computes for word `i`. -/
def movedWord (bitmap : List UInt64) (wordShift bitShift i : Nat) : UInt64 :=
  if wordShift ≤ i then
    let val := bitmap.getD (i - wordShift) 0 <<< UInt64.ofNat bitShift
    if 0 < bitShift ∧ wordShift < i then
      val ||| bitmap.getD (i - wordShift - 1) 0 >>> UInt64.ofNat (64 - bitShift)
    else val
  else 0

/-- The in-place loop over the word indices `n - 1, …, 0`. -/
def moveWords (wordShift bitShift : Nat) : Nat → List UInt64 → List UInt64
  | 0, bitmap => bitmap
  | i + 1, bitmap =>
      moveWords wordShift bitShift i (bitmap.set i (movedWord bitmap wordShift bitShift i))

/-- Zero the first `n` words, or all of them. -/
def clearWords (n : Nat) (bitmap : List UInt64) : List UInt64 :=
  List.replicate (min n bitmap.length) 0 ++ bitmap.drop (min n bitmap.length)

def shiftBitmap (bitmap : List UInt64) (shift : Nat) : List UInt64 :=
  let wordShift := shift / 64
  let bitShift := shift % 64
  let bitmap := moveWords wordShift bitShift bitmap.length bitmap
  let bitmap := clearWords wordShift bitmap
  if wordShift < bitmap.length ∧ 0 < bitShift then
    bitmap.set wordShift
      (bitmap.getD wordShift 0 &&& ~~~((1 : UInt64) <<< UInt64.ofNat bitShift - 1))
  else bitmap

def advanceWindow (w : AntiReplayWindow) (shift : Nat) : AntiReplayWindow :=
  if w.windowSize.toNat ≤ shift then { w with bitmap := clearWords w.bitmap.length w.bitmap }
  else { w with bitmap := shiftBitmap w.bitmap shift }

/-- Check one sequence number and mark it when it is accepted. -/
def checkAndUpdate (w : AntiReplayWindow) (seq : UInt32) :
    Except CryptoError Unit × AntiReplayWindow :=
  if w.initialized = false then
    (.ok (), { w with initialized := true, highest := seq }.setBit 0)
  else
    let diff := seq - w.highest
    if diff = 0 then (.error (.replayDetected seq), w)
    else if diff < 0x80000000 then
      (.ok (), { w.advanceWindow diff.toNat with highest := seq }.setBit 0)
    else
      let behind := (w.highest - seq).toNat
      if w.windowSize.toNat ≤ behind then (.error (.replayDetected seq), w)
      else if w.getBit behind then (.error (.replayDetected seq), w)
      else (.ok (), w.setBit behind)

def accepts (w : AntiReplayWindow) (seq : UInt32) : Bool :=
  match (w.checkAndUpdate seq).1 with
  | .ok () => true
  | .error _ => false

/-- A check succeeds or reports the number as a replay. -/
theorem checkAndUpdate_result (w : AntiReplayWindow) (seq : UInt32) :
    (w.checkAndUpdate seq).1 = .ok () ∨
      (w.checkAndUpdate seq).1 = .error (.replayDetected seq) := by
  simp only [checkAndUpdate]
  split
  · exact Or.inl rfl
  · split
    · exact Or.inr rfl
    · split
      · exact Or.inl rfl
      · split
        · exact Or.inr rfl
        · split
          · exact Or.inr rfl
          · exact Or.inl rfl

theorem accepts_iff {w : AntiReplayWindow} {seq : UInt32} :
    w.accepts seq = true ↔ (w.checkAndUpdate seq).1 = .ok () := by
  rw [accepts]
  rcases checkAndUpdate_result w seq with h | h <;> simp [h]

/-! ## What the bitmap operations do, bit by bit -/

@[simp] theorem setBitIn_length (bitmap : List UInt64) (offset : Nat) :
    (setBitIn bitmap offset).length = bitmap.length := by
  simp only [setBitIn]
  split
  · exact List.length_set
  · rfl

theorem bitAt_setBitIn {bitmap : List UInt64} {offset : Nat} (ho : offset / 64 < bitmap.length)
    (i : Nat) : bitAt (setBitIn bitmap offset) i = (decide (i = offset) || bitAt bitmap i) := by
  simp only [setBitIn]
  rw [if_pos ho, bitAt_set ho]
  by_cases hq : i / 64 = offset / 64
  · rw [if_pos hq, testBit_or, testBit_one_shiftLeft (Nat.mod_lt _ (by decide)), bitAt, hq,
      Bool.or_comm]
    congr 1
    exact decide_eq_decide.mpr ⟨fun h => by omega, fun h => by omega⟩
  · have hne : i ≠ offset := fun h => hq (h ▸ rfl)
    rw [if_neg hq, decide_eq_false hne, Bool.false_or]

theorem getBit_eq (w : AntiReplayWindow) (offset : Nat) :
    w.getBit offset = bitAt w.bitmap offset := by
  simp only [getBit]
  by_cases ho : offset / 64 < w.bitmap.length
  · rw [if_pos ho, shiftRight_and_one _ (Nat.mod_lt _ (by decide)), bitAt]
  · rw [if_neg ho, bitAt_of_length_le (Nat.le_of_not_lt ho)]

@[simp] theorem moveWords_length (ws bs n : Nat) (bitmap : List UInt64) :
    (moveWords ws bs n bitmap).length = bitmap.length := by
  induction n generalizing bitmap with
  | zero => rfl
  | succ n ih => rw [moveWords, ih, List.length_set]

/-- A moved word only reads words up to its own index, so the loop, which runs
downwards, reads each of them before it is overwritten. -/
theorem movedWord_congr {b c : List UInt64} {ws bs i : Nat}
    (h : ∀ j ≤ i, b.getD j 0 = c.getD j 0) : movedWord b ws bs i = movedWord c ws bs i := by
  simp only [movedWord]
  rw [h (i - ws) (Nat.sub_le _ _), h (i - ws - 1) (by omega)]

theorem moveWords_getD (ws bs : Nat) {n : Nat} {bitmap : List UInt64} (hn : n ≤ bitmap.length)
    (j : Nat) : (moveWords ws bs n bitmap).getD j 0 =
      if j < n then movedWord bitmap ws bs j else bitmap.getD j 0 := by
  induction n generalizing bitmap with
  | zero => rw [moveWords, if_neg (Nat.not_lt_zero j)]
  | succ n ih =>
      have hget (v : UInt64) (k : Nat) :
          (bitmap.set n v).getD k 0 = if k = n then v else bitmap.getD k 0 := by
        rw [List.getD_eq_getElem?_getD, List.getD_eq_getElem?_getD, List.getElem?_set]
        by_cases hk : k = n
        · subst hk
          simp [Nat.lt_of_succ_le hn]
        · simp [hk, Ne.symm hk]
      rw [moveWords, ih (by rw [List.length_set]; omega), hget]
      by_cases hj : j < n
      · rw [if_pos hj, if_pos (by omega)]
        apply movedWord_congr
        intro k hk
        rw [hget, if_neg (by omega)]
      · rw [if_neg hj]
        by_cases hjn : j = n
        · subst hjn
          rw [if_pos rfl, if_pos (Nat.lt_succ_self j)]
        · rw [if_neg hjn, if_neg (by omega)]

theorem movedWord_bit (bitmap : List UInt64) (shift : Nat) {q r : Nat} (hr : r < 64) :
    (movedWord bitmap (shift / 64) (shift % 64) q).toNat.testBit r =
      (decide (shift ≤ 64 * q + r) && bitAt bitmap (64 * q + r - shift)) := by
  have hbs : shift % 64 < 64 := Nat.mod_lt _ (by decide)
  simp only [movedWord]
  by_cases hq : shift / 64 ≤ q
  · rw [if_pos hq]
    by_cases hrb : shift % 64 ≤ r
    · -- the bit comes from the lower part of one word
      have hidx : (64 * q + r - shift) / 64 = q - shift / 64 := by omega
      have hpos : (64 * q + r - shift) % 64 = r - shift % 64 := by omega
      have hle : shift ≤ 64 * q + r := by omega
      have hlow : ((bitmap.getD (q - shift / 64) 0) <<<
          UInt64.ofNat (shift % 64)).toNat.testBit r = bitAt bitmap (64 * q + r - shift) := by
        rw [testBit_shiftLeft _ hbs hr, decide_eq_true hrb, Bool.true_and, bitAt, hidx, hpos]
      rw [decide_eq_true hle, Bool.true_and]
      split
      · rename_i hc
        rw [testBit_or, hlow, testBit_shiftRight _ (by omega), testBit_of_ge (by omega),
          Bool.or_false]
      · exact hlow
    · -- the bit comes from the upper part of the word before
      have hzero : ((bitmap.getD (q - shift / 64) 0) <<<
          UInt64.ofNat (shift % 64)).toNat.testBit r = false := by
        rw [testBit_shiftLeft _ hbs hr, decide_eq_false hrb, Bool.false_and]
      by_cases hlt : shift / 64 < q
      · have hidx : (64 * q + r - shift) / 64 = q - shift / 64 - 1 := by omega
        have hpos : (64 * q + r - shift) % 64 = 64 - shift % 64 + r := by omega
        rw [if_pos ⟨by omega, hlt⟩, testBit_or, hzero, Bool.false_or,
          testBit_shiftRight _ (by omega), decide_eq_true (by omega), Bool.true_and, bitAt, hidx,
          hpos]
      · rw [if_neg (fun h => hlt h.2), hzero, decide_eq_false (by omega), Bool.false_and]
  · rw [if_neg hq, decide_eq_false (by omega), Bool.false_and]
    exact Nat.zero_testBit r

theorem bitAt_moveWords {bitmap : List UInt64} (shift : Nat) {i : Nat}
    (hi : i / 64 < bitmap.length) :
    bitAt (moveWords (shift / 64) (shift % 64) bitmap.length bitmap) i =
      (decide (shift ≤ i) && bitAt bitmap (i - shift)) := by
  have hsplit : 64 * (i / 64) + i % 64 = i := Nat.div_add_mod i 64
  rw [bitAt, moveWords_getD _ _ (Nat.le_refl _), if_pos hi,
    movedWord_bit bitmap shift (Nat.mod_lt _ (by decide)), hsplit]

@[simp] theorem clearWords_length (n : Nat) (bitmap : List UInt64) :
    (clearWords n bitmap).length = bitmap.length := by
  simp only [clearWords, List.length_append, List.length_replicate, List.length_drop]
  omega

theorem clearWords_eq_self {n : Nat} {bitmap : List UInt64}
    (h : ∀ j < n, bitmap.getD j 0 = 0) : clearWords n bitmap = bitmap := by
  have htake : bitmap.take (min n bitmap.length) = List.replicate (min n bitmap.length) 0 := by
    apply List.eq_replicate_iff.mpr
    refine ⟨by rw [List.length_take]; omega, ?_⟩
    intro v hv
    obtain ⟨j, hj, rfl⟩ := List.mem_iff_getElem.mp hv
    rw [List.length_take] at hj
    have hzero := h j (by omega)
    rw [List.getD_eq_getElem _ _ (by omega)] at hzero
    rw [List.getElem_take, hzero]
  rw [clearWords, ← htake, List.take_append_drop]

theorem bitAt_clearWords_all (bitmap : List UInt64) (i : Nat) :
    bitAt (clearWords bitmap.length bitmap) i = false := by
  rw [clearWords, Nat.min_self, List.drop_length, List.append_nil, bitAt,
    List.getD_eq_getElem?_getD, List.getElem?_replicate]
  split
  · exact Nat.zero_testBit _
  · exact Nat.zero_testBit _

/-- The two clearing steps after the loop find nothing left to clear. -/
theorem shiftBitmap_eq (bitmap : List UInt64) (shift : Nat) :
    shiftBitmap bitmap shift = moveWords (shift / 64) (shift % 64) bitmap.length bitmap := by
  have hbs : shift % 64 < 64 := Nat.mod_lt _ (by decide)
  have hclear : clearWords (shift / 64)
      (moveWords (shift / 64) (shift % 64) bitmap.length bitmap) =
      moveWords (shift / 64) (shift % 64) bitmap.length bitmap := by
    apply clearWords_eq_self
    intro j hj
    rw [moveWords_getD _ _ (Nat.le_refl _)]
    split
    · rw [movedWord, if_neg (Nat.not_le.mpr hj)]
    · rename_i hlen
      exact List.getD_eq_default _ _ (Nat.le_of_not_lt hlen)
  simp only [shiftBitmap, hclear, moveWords_length]
  split
  · rename_i hc
    have hlow : ∀ i < shift % 64, ((moveWords (shift / 64) (shift % 64) bitmap.length
        bitmap).getD (shift / 64) 0).toNat.testBit i = false := by
      intro i hi
      rw [moveWords_getD _ _ (Nat.le_refl _), if_pos hc.1, movedWord_bit bitmap shift (by omega),
        decide_eq_false (by omega), Bool.false_and]
    have hlen : shift / 64 < (moveWords (shift / 64) (shift % 64) bitmap.length bitmap).length := by
      rw [moveWords_length]
      exact hc.1
    rw [and_not_lowMask hbs hlow, List.getD_eq_getElem _ _ hlen, List.set_getElem_self]
  · rfl

@[simp] theorem advanceWindow_length (w : AntiReplayWindow) (shift : Nat) :
    (w.advanceWindow shift).bitmap.length = w.bitmap.length := by
  unfold advanceWindow
  split
  · exact clearWords_length _ _
  · rw [shiftBitmap_eq, moveWords_length]

@[simp] theorem advanceWindow_windowSize (w : AntiReplayWindow) (shift : Nat) :
    (w.advanceWindow shift).windowSize = w.windowSize := by
  unfold advanceWindow
  split <;> rfl

theorem bitAt_advanceWindow (w : AntiReplayWindow) (shift : Nat) {i : Nat}
    (hi : i / 64 < w.bitmap.length) :
    bitAt (w.advanceWindow shift).bitmap i =
      (decide (shift < w.windowSize.toNat) && (decide (shift ≤ i) && bitAt w.bitmap (i - shift))) := by
  unfold advanceWindow
  by_cases hs : w.windowSize.toNat ≤ shift
  · rw [if_pos hs, bitAt_clearWords_all, decide_eq_false (Nat.not_lt.mpr hs), Bool.false_and]
  · rw [if_neg hs, shiftBitmap_eq, bitAt_moveWords shift hi, decide_eq_true (Nat.lt_of_not_le hs),
      Bool.true_and]

end AntiReplayWindow
end Wzp.Crypto
