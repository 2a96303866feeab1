import Wzp.Codec.EchoCanceller

/-!
# Which far-end sample a tap of the filter sees

Near-end sample `i` of `n` goes with the far-end sample as far from the end of
what was released. Tap `k` should see the sample `k` before that one.
-/
namespace Wzp.Codec
open Runs EchoCanceller

variable {n i k : ℕ} {aec aec' : EchoCanceller}

theorem feIdx_of_sameLine (h : SameLine aec aec') (n i k : ℕ) :
    aec'.feIdx n i k = aec.feIdx n i k := by
  rw [feIdx, base, h.filterLen, h.farPos, feIdx, base]

theorem fe_of_sameLine (h : SameLine aec aec') (n i k : ℕ) : aec'.fe n i k = aec.fe n i k := by
  rw [fe, feIdx_of_sameLine h, h.farBuf, fe]

namespace Line

/-- The far-end sample tap `k` should see for near-end sample `i` of `n`. -/
def wanted (l : Line) (n i k : ℕ) : ℕ := l.released.length - n + i - k

/-- A sample leaves the reference when as many have followed it as the filter has taps. -/
def Retained (l : Line) (j : ℕ) : Prop := l.released.length ≤ j + l.aec.filterLen

/-- What tap `k` multiplies when the loop of `process_frame` is at near-end sample `i`. -/
def seen (l : Line) (nearend : List Int16) (i k : ℕ) : Float32 :=
  (l.aec.progressAt nearend i).aec.fe nearend.length i k

/-- The tap sees its sample, or zero when that is gone, and reads no cell that
holds a sample newer than the one the near-end sample goes with. -/
structure Aligned (l : Line) (nearend : List Int16) (i k : ℕ) : Prop where
  value : l.released[l.wanted nearend.length i k]? = some (l.seen nearend i k) ∨
    ¬ l.Retained (l.wanted nearend.length i k) ∧ l.seen nearend i k = 0
  notNewer : ∀ j < l.released.length, l.Retained j →
    j % l.aec.filterLen = (l.aec.progressAt nearend i).aec.feIdx nearend.length i k →
      j ≤ l.wanted nearend.length i 0

variable {l : Line} {nearend : List Int16} {taps : ℕ}

/-- The index arithmetic finds the cell of the wanted sample. -/
theorem feIdx_eq (h : Referenced taps l.aec l.released) (hk : k < taps)
    (hm : taps + n ≤ l.released.length) : l.aec.feIdx n i k = l.wanted n i k % taps := by
  have hbase : l.aec.base n i + n ≡ l.released.length + i [MOD taps] := by
    have hdiv := Nat.div_add_mod n taps
    have hmod := Nat.mod_lt n (Nat.zero_lt_of_lt hk)
    have hle : n ≤ l.aec.farPos + taps * (n / taps + 2) + i := by
      rw [Nat.mul_add]
      omega
    calc l.aec.base n i + n
        ≡ l.aec.farPos + taps * (n / taps + 2) + i - n + n [MOD taps] := by
          rw [base, h.filterLen]
          exact (Nat.mod_modEq _ taps).add_right n
      _ = l.aec.farPos + taps * (n / taps + 2) + i := Nat.sub_add_cancel hle
      _ ≡ l.released.length + 0 + i [MOD taps] := by
          rw [h.farPos]
          refine ((Nat.mod_modEq _ taps).add ?_).add_right i
          exact (Nat.modEq_zero_iff_dvd).mpr (Nat.dvd_mul_right taps _)
  have hidx : l.aec.feIdx n i k + k ≡ l.aec.base n i [MOD taps] := by
    calc l.aec.feIdx n i k + k ≡ l.aec.base n i + taps - k + k [MOD taps] := by
          rw [feIdx, h.filterLen]
          exact (Nat.mod_modEq _ taps).add_right k
      _ = l.aec.base n i + taps := Nat.sub_add_cancel (by omega)
      _ ≡ l.aec.base n i [MOD taps] := Nat.add_modEq_right
  have hwanted : l.wanted n i k + (k + n) = l.released.length + i := by
    rw [wanted]
    omega
  have heq : l.aec.feIdx n i k ≡ l.wanted n i k [MOD taps] := by
    refine Nat.ModEq.add_right_cancel' (k + n) ?_
    rw [hwanted, ← Nat.add_assoc]
    exact (hidx.add_right n).trans hbase
  have hlt : l.aec.feIdx n i k < taps := by
    rw [feIdx, h.filterLen]
    exact Nat.mod_lt _ (Nat.zero_lt_of_lt hk)
  exact (Nat.mod_eq_of_lt hlt).symm.trans heq

/-- The newest sample in the cell of `j`. -/
theorem exists_newest {j m : ℕ} (htaps : 0 < taps) (hj : j < m) :
    ∃ t, j + taps * t < m ∧ m ≤ j + taps * t + taps := by
  have hdiv := Nat.div_add_mod (m - 1 - j) taps
  have hmod := Nat.mod_lt (m - 1 - j) htaps
  exact ⟨(m - 1 - j) / taps, by omega, by omega⟩

theorem aligned_iff (h : Referenced taps l.aec l.released) (hi : i < nearend.length) (hk : k < taps)
    (hm : taps + nearend.length ≤ l.released.length) :
    l.Aligned nearend i k ↔ nearend.length + k ≤ taps + i := by
  have hsame := progressAt_sameLine l.aec nearend i
  have hidx : (l.aec.progressAt nearend i).aec.feIdx nearend.length i k =
      l.wanted nearend.length i k % taps :=
    (feIdx_of_sameLine hsame _ _ _).trans (feIdx_eq h hk hm)
  have hwanted : l.wanted nearend.length i k + (k + nearend.length) = l.released.length + i := by
    rw [wanted]
    omega
  have haligned : l.wanted nearend.length i 0 = l.wanted nearend.length i k + k := by
    rw [wanted, wanted]
    omega
  constructor
  · intro haln
    by_contra hlate
    -- The cell was written again since: with a sample at least a whole filter newer.
    obtain ⟨t, hlt, hle⟩ := exists_newest (Nat.zero_lt_of_lt hk)
      (show l.wanted nearend.length i k < l.released.length by omega)
    have hnewest := haln.notNewer (l.wanted nearend.length i k + taps * t) hlt
      (by rw [Retained, h.filterLen]; exact hle)
      (by rw [hidx, h.filterLen, Nat.add_mul_mod_self_left])
    have hround : 1 ≤ t := by
      rcases Nat.eq_zero_or_pos t with rfl | hpos
      · omega
      · exact hpos
    have htaps : taps ≤ taps * t := Nat.le_mul_of_pos_right taps hround
    omega
  · intro hsoon
    have hretained : l.released.length ≤ l.wanted nearend.length i k + taps := by omega
    have hlt : l.wanted nearend.length i k < l.released.length := by omega
    refine ⟨Or.inl ?_, fun j hj hret hcell => ?_⟩
    · have hcell := h.holds.recent _ hlt (by rw [h.farBuf_length]; exact hretained)
      rw [seen, fe_of_sameLine hsame, fe, feIdx_eq h hk hm, List.getD_eq_getElem?_getD,
        ← h.farBuf_length, hcell, List.getElem?_eq_getElem hlt, Option.getD_some]
    · rw [h.filterLen, hidx] at hcell
      rw [Retained, h.filterLen] at hret
      by_contra hnewer
      have hne := Rings.mod_ne_of_lt (n := taps) (show l.wanted nearend.length i k < j by omega)
        (by omega)
      exact hne hcell.symm

/-- A frame is processed with the far-end samples that belong to it, at the taps
whose sample the reference still holds, and at no others. -/
theorem run_aligned_iff (sampleRate filterMs delayMs : ℕ) (calls : List Call)
    (nearend : List Int16) (hi : i < nearend.length) (hk : k < samplesIn sampleRate filterMs)
    (hm : samplesIn sampleRate filterMs + nearend.length ≤
      (run step (start sampleRate filterMs delayMs) calls).released.length) :
    (run step (start sampleRate filterMs delayMs) calls).Aligned nearend i k ↔
      nearend.length + k ≤ samplesIn sampleRate filterMs + i :=
  aligned_iff (referenced_run (referenced_start sampleRate filterMs delayMs) calls) hi hk hm

theorem run_aligned_iff_four_taps :
    (run step (start 1000 4 0) [.feed [1, 2, 3, 4, 5, 6]]).Aligned [7, 8] 1 3 ↔ 2 + 3 ≤ 4 + 1 :=
  run_aligned_iff 1000 4 0 [.feed [1, 2, 3, 4, 5, 6]] [7, 8] (by decide) (by decide)
    (by decide +kernel)

/-- Four taps, six samples released, two near-end samples: the last tap of the first should see
sample 1, which is gone, and sees sample 5, newer than sample 4 it goes with. -/
theorem newer_sample_seen :
    ∃ l : Line, l = run step (start 1000 4 0) [.feed [1, 2, 3, 4, 5, 6]] ∧
      l.wanted 2 0 3 = 1 ∧ l.wanted 2 0 0 = 4 ∧ some (l.aec.fe 2 0 3) = l.released[5]? ∧
        ¬ l.Aligned [7, 8] 0 3 := by
  refine ⟨_, rfl, by decide +kernel, by decide +kernel, by decide +kernel, fun h => ?_⟩
  have hnewer := h.notNewer 5 (by decide +kernel) (by rw [Retained]; decide +kernel)
  exact absurd (hnewer (by decide +kernel)) (by decide +kernel)

end Line
end Wzp.Codec
