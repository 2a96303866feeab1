import Wzp.Lib.SerialNumber
import Wzp.Crypto.AntiReplay
import Mathlib.Data.Finset.Insert

/-!
# The window against an unbounded reference

The reference keeps integers that never wrap and the set of everything it has
accepted. The bitmap window agrees with it for every window size that the
`u32` field can hold, over any number of wraps.
-/
namespace Wzp.Crypto
open BitWords

/-- Highest accepted number, and all accepted numbers. -/
structure ReplayReference where
  highest : Option ℤ := none
  accepted : Finset ℤ := ∅

namespace ReplayReference

/-- The extended number a packet is accepted under, if it is. -/
def check (W : ℕ) (r : ReplayReference) (seq : UInt32) : Option ℤ × ReplayReference :=
  match r.highest with
  | none => (some seq.toNat, ⟨some seq.toNat, {(seq.toNat : ℤ)}⟩)
  | some h =>
      let e := Serial.nearest (2 ^ 32) h seq.toNat
      if h < e then (some e, ⟨some e, insert e r.accepted⟩)
      else if h - e < W ∧ e ∉ r.accepted then (some e, ⟨some h, insert e r.accepted⟩)
      else (none, r)

def outcome (seq : UInt32) : Option ℤ → Except CryptoError Unit
  | some _ => .ok ()
  | none => .error (.replayDetected seq)

def outcomes (W : ℕ) : ReplayReference → List UInt32 → List (Except CryptoError Unit)
  | _, [] => []
  | r, seq :: seqs => outcome seq (r.check W seq).1 :: outcomes W (r.check W seq).2 seqs

/-- The extended numbers accepted in a run, in order. -/
def acceptedRun (W : ℕ) : ReplayReference → List UInt32 → List ℤ
  | _, [] => []
  | r, seq :: seqs => (r.check W seq).1.toList ++ acceptedRun W (r.check W seq).2 seqs

/-- Nothing above the highest number has been accepted. -/
structure Bounded (r : ReplayReference) : Prop where
  empty : r.highest = none → r.accepted = ∅
  le : ∀ h, r.highest = some h → ∀ e ∈ r.accepted, e ≤ h

theorem bounded_init : Bounded {} := ⟨fun _ => rfl, fun _ h => (nomatch h)⟩

theorem bounded_some {h : ℤ} {s : Finset ℤ} (hs : ∀ e ∈ s, e ≤ h) : Bounded ⟨some h, s⟩ := by
  refine ⟨fun hn => (nomatch hn), ?_⟩
  intro h' heq e he
  rw [← Option.some.inj heq]
  exact hs e he

/-- One check: a refusal changes nothing, an acceptance adds a new number. -/
theorem check_cases {W : ℕ} {r : ReplayReference} (hr : Bounded r) (seq : UInt32) :
    r.check W seq = (none, r) ∨ ∃ e, (r.check W seq).1 = some e ∧ e ∉ r.accepted ∧
      (r.check W seq).2.accepted = insert e r.accepted ∧ Bounded (r.check W seq).2 := by
  unfold check
  cases hh : r.highest with
  | none =>
      right
      have hempty := hr.empty hh
      refine ⟨seq.toNat, rfl, by simp [hempty], by simp [hempty], bounded_some ?_⟩
      intro e he
      rw [Finset.mem_singleton.mp he]
  | some h =>
      simp only
      split
      · rename_i hlt
        right
        refine ⟨_, rfl, fun he => not_lt.mpr (hr.le h hh _ he) hlt, rfl, bounded_some ?_⟩
        intro e he
        rcases Finset.mem_insert.mp he with rfl | hold
        · exact le_refl _
        · exact (hr.le h hh e hold).trans hlt.le
      · rename_i hle
        split
        · rename_i hnew
          right
          refine ⟨_, rfl, hnew.2, rfl, bounded_some ?_⟩
          intro e he
          rcases Finset.mem_insert.mp he with rfl | hold
          · exact not_lt.mp hle
          · exact hr.le h hh e hold
        · left
          rfl

theorem bounded_check {W : ℕ} {r : ReplayReference} (hr : Bounded r) (seq : UInt32) :
    Bounded (r.check W seq).2 := by
  rcases check_cases (W := W) hr seq with h | ⟨e, _, _, _, hb⟩
  · rw [h]
    exact hr
  · exact hb

theorem acceptedRun_fresh {W : ℕ} {r : ReplayReference} (hr : Bounded r) (seqs : List UInt32) :
    (acceptedRun W r seqs).Nodup ∧ ∀ e ∈ acceptedRun W r seqs, e ∉ r.accepted := by
  induction seqs generalizing r with
  | nil => exact ⟨List.nodup_nil, fun _ he => absurd he List.not_mem_nil⟩
  | cons seq seqs ih =>
      obtain ⟨hnodup, hfresh⟩ := ih (bounded_check (W := W) hr seq)
      rcases check_cases (W := W) hr seq with h | ⟨e, he, hnew, hacc, _⟩
      · rw [acceptedRun, h]
        rw [h] at hnodup hfresh
        exact ⟨hnodup, hfresh⟩
      · rw [acceptedRun, he, Option.toList_some, List.singleton_append]
        rw [hacc] at hfresh
        have hnotMem := fun hmem => hfresh e hmem (Finset.mem_insert_self _ _)
        refine ⟨List.nodup_cons.mpr ⟨hnotMem, hnodup⟩, ?_⟩
        intro x hx
        rcases List.mem_cons.mp hx with rfl | hlater
        · exact hnew
        · exact fun hold => hfresh x hlater (Finset.mem_insert_of_mem hold)

/-- No extended number is accepted twice in a run. -/
theorem acceptedRun_nodup (W : ℕ) (seqs : List UInt32) : (acceptedRun W {} seqs).Nodup :=
  (acceptedRun_fresh bounded_init seqs).1

/-! ## The numbers delivered so far decide on the next -/

/-- The reference after a delivery, whatever the number. -/
def record (r : ReplayReference) (seq : UInt32) : ReplayReference :=
  match r.highest with
  | none => ⟨some seq.toNat, {(seq.toNat : ℤ)}⟩
  | some h =>
      let e := Serial.nearest (2 ^ 32) h seq.toNat
      ⟨some (max h e), insert e r.accepted⟩

/-- The deliveries of one stream, in order. -/
def ofDelivered (seqs : List UInt32) : ReplayReference := seqs.foldl record {}

theorem ofDelivered_concat (seqs : List UInt32) (seq : UInt32) :
    ofDelivered (seqs ++ [seq]) = (ofDelivered seqs).record seq := by
  rw [ofDelivered, List.foldl_append]
  rfl

/-- Not delivered before, and less than `W` behind the highest number delivered. -/
def Fresh (W : ℕ) (r : ReplayReference) (seq : UInt32) : Prop :=
  ∀ h, r.highest = some h → Serial.nearest (2 ^ 32) h seq.toNat ∉ r.accepted ∧
    h - Serial.nearest (2 ^ 32) h seq.toNat < W

theorem check_fresh {W : ℕ} {r : ReplayReference} {seq : UInt32} (hf : r.Fresh W seq) :
    ∃ e, r.check W seq = (some e, r.record seq) := by
  unfold check record
  cases hh : r.highest with
  | none => exact ⟨_, rfl⟩
  | some h =>
      obtain ⟨hnew, hnear⟩ := hf h hh
      refine ⟨Serial.nearest (2 ^ 32) h seq.toNat, ?_⟩
      simp only
      split
      · rename_i hlt
        rw [max_eq_right hlt.le]
      · rename_i hle
        rw [if_pos ⟨hnear, hnew⟩, max_eq_left (not_lt.mp hle)]

theorem check_stale {W : ℕ} {r : ReplayReference} (hr : Bounded r) {seq : UInt32}
    (hf : ¬ r.Fresh W seq) : r.check W seq = (none, r) := by
  unfold check
  cases hh : r.highest with
  | none => exact absurd (fun h heq => absurd (hh.symm.trans heq) (Option.some_ne_none h).symm) hf
  | some h =>
      have hold : ¬ (h - Serial.nearest (2 ^ 32) h seq.toNat < W ∧
          Serial.nearest (2 ^ 32) h seq.toNat ∉ r.accepted) := by
        intro hc
        apply hf
        intro h' heq
        obtain rfl := Option.some.inj (hh.symm.trans heq)
        exact ⟨hc.2, hc.1⟩
      have hle : ¬ h < Serial.nearest (2 ^ 32) h seq.toNat := by
        intro hlt
        exact hold ⟨by omega, fun hmem => absurd (hr.le h hh _ hmem) (not_le.mpr hlt)⟩
      simp only [hle, hold, if_false]

end ReplayReference

namespace AntiReplayWindow

def outcomes : AntiReplayWindow → List UInt32 → List (Except CryptoError Unit)
  | _, [] => []
  | w, seq :: seqs => (w.checkAndUpdate seq).1 :: outcomes (w.checkAndUpdate seq).2 seqs

/-- The size is positive and the bitmap has a bit for every position in it. -/
structure Fits (w : AntiReplayWindow) : Prop where
  pos : 0 < w.windowSize.toNat
  room : w.windowSize.toNat ≤ 64 * w.bitmap.length

theorem Fits.word_lt {w : AntiReplayWindow} (h : w.Fits) {i : ℕ} (hi : i < w.windowSize.toNat) :
    i / 64 < w.bitmap.length := by
  have hroom := h.room
  omega

/-- The bitmap is the accepted set seen from the highest number downwards. -/
structure Refines (w : AntiReplayWindow) (r : ReplayReference) : Prop where
  fits : w.Fits
  bounded : r.Bounded
  fresh : r.highest = none → w.initialized = false ∧ ∀ i, bitAt w.bitmap i = false
  started : ∀ h, r.highest = some h → w.initialized = true ∧
    (w.highest.toNat : ℤ) ≡ h [ZMOD 2 ^ 32] ∧ h ∈ r.accepted ∧
    ∀ i < w.windowSize.toNat, (bitAt w.bitmap i = true ↔ h - (i : ℤ) ∈ r.accepted)

/-- One check of the window against one check of the reference. -/
def StepRefines (w : AntiReplayWindow) (r : ReplayReference) (seq : UInt32) : Prop :=
  (w.checkAndUpdate seq).1 =
      ReplayReference.outcome seq (r.check w.windowSize.toNat seq).1 ∧
    (w.checkAndUpdate seq).2.windowSize = w.windowSize ∧
    Refines (w.checkAndUpdate seq).2 (r.check w.windowSize.toNat seq).2

theorem first_refines {w : AntiReplayWindow} {r : ReplayReference} (h : Refines w r)
    (hh : r.highest = none) (seq : UInt32) : StepRefines w r seq := by
  obtain ⟨hinit, hclear⟩ := h.fresh hh
  have hcheck : w.checkAndUpdate seq =
      (.ok (), { w with initialized := true, highest := seq }.setBit 0) := by
    rw [checkAndUpdate, if_pos hinit]
  have hbounded := ReplayReference.bounded_check (W := w.windowSize.toNat) h.bounded seq
  rw [StepRefines, hcheck]
  simp only [ReplayReference.check, hh] at hbounded ⊢
  refine ⟨rfl, rfl, ⟨h.fits.pos, ?_⟩, hbounded, fun hn => absurd hn (Option.some_ne_none _), ?_⟩
  · simp only [setBit, setBitIn_length]
    exact h.fits.room
  · intro h' heq
    have hh' := Option.some.inj heq
    refine ⟨rfl, hh' ▸ Int.ModEq.refl _, hh' ▸ Finset.mem_singleton_self _, ?_⟩
    intro i hi
    have hword : 0 / 64 < w.bitmap.length := h.fits.word_lt h.fits.pos
    simp only [setBit]
    rw [bitAt_setBitIn hword, hclear, Bool.or_false, decide_eq_true_iff, ← hh',
      Finset.mem_singleton]
    omega

theorem duplicate_refines {w : AntiReplayWindow} {r : ReplayReference} (hw : Refines w r) {h : ℤ}
    (hh : r.highest = some h) {seq : UInt32} (hd : seq - w.highest = 0) : StepRefines w r seq := by
  obtain ⟨hinit, hmod, htop, _⟩ := hw.started h hh
  have hcheck : w.checkAndUpdate seq = (.error (.replayDetected seq), w) := by
    simp only [checkAndUpdate, hinit, hd, Bool.true_eq_false, if_false, if_true]
  have hnear : Serial.nearest (2 ^ 32) h seq.toNat = h := by
    rw [Serial.nearest_ahead hmod (by rw [hd]; decide), hd]
    exact add_zero h
  have href : r.check w.windowSize.toNat seq = (none, r) := by
    simp only [ReplayReference.check, hh, hnear, lt_irrefl, if_false, htop, not_true_eq_false,
      and_false]
  rw [StepRefines, hcheck, href]
  exact ⟨rfl, rfl, hw⟩

/-- After an advance bit 0 is the new number, lower bits are gaps, the others
the old bits moved up. -/
theorem advanced_bit {w : AntiReplayWindow} {r : ReplayReference} (hw : Refines w r) {h : ℤ}
    (hh : r.highest = some h) {d i : ℕ} (hpos : 0 < d) (hi : i < w.windowSize.toNat) :
    bitAt (setBitIn (w.advanceWindow d).bitmap 0) i = true ↔
      h + (d : ℤ) - i ∈ insert (h + (d : ℤ)) r.accepted := by
  obtain ⟨_, _, _, hbits⟩ := hw.started h hh
  have hword := hw.fits.word_lt hi
  have hword0 : 0 / 64 < (w.advanceWindow d).bitmap.length := by
    rw [advanceWindow_length]
    exact hw.fits.word_lt hw.fits.pos
  rw [bitAt_setBitIn hword0, bitAt_advanceWindow w d hword, Finset.mem_insert]
  by_cases hi0 : i = 0
  · subst hi0
    simp
  · have hne : h + (d : ℤ) - i ≠ h + d := by omega
    by_cases hdi : d ≤ i
    · have hold := hbits (i - d) (by omega)
      have hidx : h - ((i - d : ℕ) : ℤ) = h + d - i := by omega
      rw [hidx] at hold
      simp only [hi0, decide_false, Bool.false_or, decide_eq_true hdi,
        decide_eq_true (Nat.lt_of_le_of_lt hdi hi), Bool.true_and, hold, hne, false_or]
    · have hgap : h + (d : ℤ) - i ∉ r.accepted := by
        intro hmem
        have hle := hw.bounded.le h hh _ hmem
        omega
      simp [hi0, hdi, hne, hgap]

theorem ahead_refines {w : AntiReplayWindow} {r : ReplayReference} (hw : Refines w r) {h : ℤ}
    (hh : r.highest = some h) {seq : UInt32} (hd : seq - w.highest ≠ 0)
    (hlt : seq - w.highest < 0x80000000) : StepRefines w r seq := by
  obtain ⟨hinit, hmod, _, _⟩ := hw.started h hh
  have hcheck : w.checkAndUpdate seq =
      (.ok (), { w.advanceWindow (seq - w.highest).toNat with highest := seq }.setBit 0) := by
    simp only [checkAndUpdate, hinit, Bool.true_eq_false, if_false, hd, hlt, if_true]
  have hnear := Serial.nearest_ahead hmod (UInt32.lt_iff_toNat_lt.mp hlt)
  have hpos : 0 < (seq - w.highest).toNat := by
    apply Nat.pos_of_ne_zero
    intro hzero
    exact hd (UInt32.toNat_inj.mp hzero)
  generalize hdef : (seq - w.highest).toNat = d at hcheck hnear hpos
  have hup : h < h + (d : ℤ) := by omega
  have hbounded := ReplayReference.bounded_check (W := w.windowSize.toNat) hw.bounded seq
  have hseq : (seq.toNat : ℤ) ≡ h + d [ZMOD 2 ^ 32] := by
    rw [← hnear]
    exact Serial.nearest_modEq.symm
  rw [StepRefines, hcheck]
  simp only [ReplayReference.check, hh, hnear, hup, if_true] at hbounded ⊢
  refine ⟨rfl, advanceWindow_windowSize w d, ⟨?_, ?_⟩, hbounded,
    fun hn => absurd hn (Option.some_ne_none _), ?_⟩
  · simpa only [setBit, advanceWindow_windowSize] using hw.fits.pos
  · simpa only [setBit, setBitIn_length, advanceWindow_windowSize, advanceWindow_length] using
      hw.fits.room
  · intro h' heq
    have hh' := Option.some.inj heq
    refine ⟨?_, hh' ▸ hseq, hh' ▸ Finset.mem_insert_self _ _, ?_⟩
    · simp only [setBit, advanceWindow]
      split <;> exact hinit
    · intro i hi
      simp only [setBit, advanceWindow_windowSize] at hi
      rw [← hh']
      exact advanced_bit hw hh hpos hi

theorem behind_refines {w : AntiReplayWindow} {r : ReplayReference} (hw : Refines w r) {h : ℤ}
    (hh : r.highest = some h) {seq : UInt32} (hd : seq - w.highest ≠ 0)
    (hlt : ¬ seq - w.highest < 0x80000000) : StepRefines w r seq := by
  obtain ⟨hinit, hmod, htop, hbits⟩ := hw.started h hh
  have hfar : ¬ (seq - w.highest).toNat < 2 ^ 31 := fun hc => hlt (UInt32.lt_iff_toNat_lt.mpr hc)
  have hnear := Serial.nearest_behind hmod hfar
  have hcheck : w.checkAndUpdate seq =
      if w.windowSize.toNat ≤ (w.highest - seq).toNat then (.error (.replayDetected seq), w)
      else if w.getBit (w.highest - seq).toNat then (.error (.replayDetected seq), w)
      else (.ok (), w.setBit (w.highest - seq).toNat) := by
    simp only [checkAndUpdate, hinit, Bool.true_eq_false, if_false, hd, hlt]
  generalize (w.highest - seq).toNat = b at hcheck hnear
  have hdown : ¬ h < h - (b : ℤ) := by omega
  have hgap : h - (h - (b : ℤ)) < w.windowSize.toNat ↔ b < w.windowSize.toNat := by omega
  have hbounded := ReplayReference.bounded_check (W := w.windowSize.toNat) hw.bounded seq
  rw [StepRefines, hcheck]
  simp only [ReplayReference.check, hh, hnear, hdown, if_false, hgap] at hbounded ⊢
  by_cases hold : w.windowSize.toNat ≤ b
  · rw [if_pos hold, if_neg (fun hc => absurd hc.1 (Nat.not_lt.mpr hold))]
    exact ⟨rfl, rfl, hw⟩
  · have hb : b < w.windowSize.toNat := Nat.lt_of_not_le hold
    rw [if_neg hold, getBit_eq]
    by_cases hbit : bitAt w.bitmap b = true
    · have hmem := (hbits b hb).mp hbit
      rw [if_pos hbit, if_neg (fun hc => hc.2 hmem)]
      exact ⟨rfl, rfl, hw⟩
    · have hmem : h - (b : ℤ) ∉ r.accepted := fun hm => hbit ((hbits b hb).mpr hm)
      rw [if_pos ⟨hb, hmem⟩] at hbounded
      rw [if_neg hbit, if_pos ⟨hb, hmem⟩]
      refine ⟨rfl, rfl, ⟨hw.fits.pos, ?_⟩, hbounded,
        fun hn => absurd hn (Option.some_ne_none _), ?_⟩
      · simpa only [setBit, setBitIn_length] using hw.fits.room
      · intro h' heq
        have hh' := Option.some.inj heq
        refine ⟨hinit, hh' ▸ hmod, hh' ▸ Finset.mem_insert_of_mem htop, ?_⟩
        intro i hi
        simp only [setBit]
        rw [bitAt_setBitIn (hw.fits.word_lt hb), ← hh', Finset.mem_insert, ← hbits i hi,
          Bool.or_eq_true, decide_eq_true_iff]
        apply or_congr_left
        omega

/-- Every check of a window that fits its bitmap is a check of the reference. -/
theorem checkAndUpdate_refines {w : AntiReplayWindow} {r : ReplayReference} (hw : Refines w r)
    (seq : UInt32) : StepRefines w r seq := by
  cases hh : r.highest with
  | none => exact first_refines hw hh seq
  | some h =>
      by_cases hd : seq - w.highest = 0
      · exact duplicate_refines hw hh hd
      · by_cases hlt : seq - w.highest < 0x80000000
        · exact ahead_refines hw hh hd hlt
        · exact behind_refines hw hh hd hlt

theorem outcomes_refine {w : AntiReplayWindow} {r : ReplayReference} (hw : Refines w r)
    (seqs : List UInt32) :
    w.outcomes seqs = r.outcomes w.windowSize.toNat seqs := by
  induction seqs generalizing w r with
  | nil => rfl
  | cons seq seqs ih =>
      obtain ⟨hout, hsize, hnext⟩ := checkAndUpdate_refines hw seq
      rw [outcomes, ReplayReference.outcomes, hout, ih hnext, hsize]

/-! ## Which constructor arguments are sound -/

theorem withWindow_windowSize (size : UInt64) :
    (withWindow size).windowSize.toNat = size.toNat % 2 ^ 32 := by
  rw [withWindow, UInt64.toNat_toUInt32]

theorem withWindow_words (size : UInt64) :
    (withWindow size).bitmap.length = (size.toNat + 63) % 2 ^ 64 / 64 := by
  simp only [withWindow, List.length_replicate, UInt64.toNat_div, UInt64.toNat_add]
  rfl

theorem withWindow_refines {size : UInt64} (hpos : 0 < size.toNat % 2 ^ 32)
    (hroom : size.toNat + 63 < 2 ^ 64) : Refines (withWindow size) {} := by
  refine ⟨⟨?_, ?_⟩, ReplayReference.bounded_init, ?_, fun _ hh => nomatch hh⟩
  · rwa [withWindow_windowSize]
  · rw [withWindow_windowSize, withWindow_words, Nat.mod_eq_of_lt hroom]
    omega
  · intro _
    refine ⟨rfl, ?_⟩
    intro i
    simp only [withWindow, bitAt, List.getD_eq_getElem?_getD, List.getElem?_replicate]
    split <;> exact Nat.zero_testBit _

/-- Beyond half the sequence space a larger window makes no difference. -/
theorem check_wide {W V : ℕ} (hW : 2 ^ 31 < W) (hV : 2 ^ 31 < V) (r : ReplayReference)
    (seq : UInt32) : r.check W seq = r.check V seq := by
  unfold ReplayReference.check
  cases r.highest with
  | none => rfl
  | some h =>
      have hlo : h - 2 ^ 32 / 2 ≤ Serial.nearest (2 ^ 32) h seq.toNat := Serial.le_nearest (by decide)
      have hWV : h - Serial.nearest (2 ^ 32) h seq.toNat < (W : ℤ) ↔
          h - Serial.nearest (2 ^ 32) h seq.toNat < (V : ℤ) := by
        have hW' : ((2 : ℤ) ^ 31) < W := by exact_mod_cast hW
        have hV' : ((2 : ℤ) ^ 31) < V := by exact_mod_cast hV
        omega
      simp only [hWV]

theorem outcomes_wide {W V : ℕ} (hW : 2 ^ 31 < W) (hV : 2 ^ 31 < V) (r : ReplayReference)
    (seqs : List UInt32) : r.outcomes W seqs = r.outcomes V seqs := by
  induction seqs generalizing r with
  | nil => rfl
  | cons seq seqs ih => rw [ReplayReference.outcomes, ReplayReference.outcomes, check_wide hW hV, ih]

/-- The reference takes a number and then an unseen one `b` behind it. -/
theorem reference_behind {W : ℕ} {b : UInt32} (hpos : 0 < b.toNat) (hb : b.toNat ≤ 2 ^ 31)
    (hW : b.toNat < W) : ReplayReference.outcomes W {} [b, 0] = [.ok (), .ok ()] := by
  have hnear : Serial.nearest (2 ^ 32) b.toNat ((0 : UInt32).toNat : ℤ) = 0 :=
    Serial.nearest_unique (by decide) (Int.ModEq.refl _) (by omega) (by omega)
  have hdown : ¬ (b.toNat : ℤ) < 0 := by omega
  have hgap : (b.toNat : ℤ) - 0 < W := by omega
  have hnew : (0 : ℤ) ∉ ({(b.toNat : ℤ)} : Finset ℤ) := by
    rw [Finset.mem_singleton]
    omega
  simp only [ReplayReference.outcomes, ReplayReference.check, hnear, hdown, if_false, hgap, hnew,
    not_false_eq_true, and_self, if_true, ReplayReference.outcome]

/-- A window whose `u32` size is at most `b` refuses everything `b` behind. -/
theorem narrow_behind {w : AntiReplayWindow} (hinit : w.initialized = false) {b : UInt32}
    (hpos : 0 < b.toNat) (hb : b.toNat ≤ 2 ^ 31) (hw : w.windowSize.toNat ≤ b.toNat) :
    w.outcomes [b, 0] = [.ok (), .error (.replayDetected 0)] := by
  have hdiff : (0 - b : UInt32).toNat = 2 ^ 32 - b.toNat := by
    have hlt := b.toNat_lt
    rw [UInt32.toNat_sub, UInt32.toNat_zero]
    omega
  have hne : ¬ (0 - b : UInt32) = 0 := by
    rw [← UInt32.toNat_inj, hdiff, UInt32.toNat_zero]
    have hlt := b.toNat_lt
    omega
  have hfar : ¬ (0 - b : UInt32) < 0x80000000 := by
    rw [UInt32.lt_iff_toNat_lt, hdiff]
    have hhalf : (0x80000000 : UInt32).toNat = 2 ^ 31 := rfl
    omega
  simp only [outcomes, checkAndUpdate, hinit, if_true, setBit, Bool.true_eq_false, if_false, hne,
    hfar, UInt32.sub_zero, hw]

/-- With no words at all, only the highest number is ever recognised again. -/
theorem wordless_repeats {w : AntiReplayWindow} (hinit : w.initialized = false)
    (hwords : w.bitmap.length = 0) (hsize : 1 < w.windowSize.toNat) :
    w.outcomes [1, 0, 0] = [.ok (), .ok (), .ok ()] := by
  have hnil : w.bitmap = [] := List.length_eq_zero_iff.mp hwords
  have hstart : w.checkAndUpdate 1 = (.ok (), ⟨w.windowSize, 1, [], true⟩) := by
    rw [checkAndUpdate, if_pos hinit, setBit, hnil]
    rfl
  have hagain : checkAndUpdate ⟨w.windowSize, 1, [], true⟩ 0 =
      (.ok (), ⟨w.windowSize, 1, [], true⟩) := by
    have hne : ¬ (0 - 1 : UInt32) = 0 := by decide
    have hfar : ¬ (0 - 1 : UInt32) < 0x80000000 := by decide
    have hroom : ¬ w.windowSize.toNat ≤ (1 - 0 : UInt32).toNat := Nat.not_le.mpr hsize
    simp only [checkAndUpdate]
    rw [if_neg (by decide), if_neg hne, if_neg hfar, if_neg hroom]
    rfl
  rw [outcomes, hstart, outcomes, hagain, outcomes, hagain, outcomes]

theorem reference_repeats {W : ℕ} (hW : 1 < W) :
    ReplayReference.outcomes W {} [1, 0, 0] = [.ok (), .ok (), .error (.replayDetected 0)] := by
  have hnear : Serial.nearest (2 ^ 32) ((1 : UInt32).toNat : ℤ) ((0 : UInt32).toNat : ℤ) = 0 :=
    Serial.nearest_unique (by decide) (Int.ModEq.refl _) (by decide) (by decide)
  have hdown : ¬ ((1 : UInt32).toNat : ℤ) < 0 := by decide
  have hgap : ((1 : UInt32).toNat : ℤ) - 0 < W := by
    rw [sub_zero]
    exact_mod_cast hW
  have hnew : (0 : ℤ) ∉ ({((1 : UInt32).toNat : ℤ)} : Finset ℤ) := by decide
  have hold : (0 : ℤ) ∈ insert (0 : ℤ) ({((1 : UInt32).toNat : ℤ)} : Finset ℤ) :=
    Finset.mem_insert_self _ _
  simp only [ReplayReference.outcomes, ReplayReference.check, hnear, hdown, if_false, hgap, hnew,
    hold, not_false_eq_true, not_true_eq_false, and_self, and_false, if_true,
    ReplayReference.outcome]

/-- A window agrees with the unbounded reference on every run exactly when its
size fits the `u32` field, or truncates to more than half the sequence space
while the word count does not wrap. -/
theorem withWindow_refines_iff (size : UInt64) (hpos : 1 ≤ size) :
    (∀ seqs, (withWindow size).outcomes seqs = ReplayReference.outcomes size.toNat {} seqs ∧
      (ReplayReference.acceptedRun size.toNat {} seqs).Nodup) ↔
      size.toNat < 2 ^ 32 ∨ (2 ^ 31 < size.toNat % 2 ^ 32 ∧ size.toNat + 63 < 2 ^ 64) := by
  have hpos' : 1 ≤ size.toNat := UInt64.le_iff_toNat_le.mp hpos
  constructor
  · intro h
    by_contra hbad
    have hbig : 2 ^ 32 ≤ size.toNat := by omega
    by_cases hnarrow : size.toNat % 2 ^ 32 ≤ 2 ^ 31
    · have hb : (UInt32.ofNat (max (size.toNat % 2 ^ 32) 1)).toNat =
          max (size.toNat % 2 ^ 32) 1 := by
        rw [UInt32.toNat_ofNat']
        omega
      have hcode := narrow_behind (w := withWindow size) (b := UInt32.ofNat (max (size.toNat % 2 ^ 32) 1))
        rfl (by omega) (by omega) (by rw [withWindow_windowSize]; omega)
      have href := reference_behind (W := size.toNat)
        (b := UInt32.ofNat (max (size.toNat % 2 ^ 32) 1)) (by omega) (by omega) (by omega)
      have heq := (h [UInt32.ofNat (max (size.toNat % 2 ^ 32) 1), 0]).1
      rw [hcode, href] at heq
      simp at heq
    · have hcode := wordless_repeats (w := withWindow size) rfl
        (by rw [withWindow_words]; have hlt := size.toNat_lt; omega)
        (by rw [withWindow_windowSize]; omega)
      have href := reference_repeats (W := size.toNat) (by omega)
      have heq := (h [1, 0, 0]).1
      rw [hcode, href] at heq
      simp at heq
  · intro h seqs
    refine ⟨?_, ReplayReference.acceptedRun_nodup _ _⟩
    rcases h with hsmall | ⟨hwide, hroom⟩
    · have hmod : size.toNat % 2 ^ 32 = size.toNat := Nat.mod_eq_of_lt hsmall
      have hrun := outcomes_refine (@withWindow_refines size (by omega) (by omega)) seqs
      rwa [withWindow_windowSize, hmod] at hrun
    · have hrun := outcomes_refine (@withWindow_refines size (by omega) hroom) seqs
      rw [hrun, withWindow_windowSize]
      exact outcomes_wide hwide (by omega) _ _

/-- The default size is one of the sound ones. -/
theorem withWindow_refines_iff_1024 : (1 : UInt64) ≤ 1024 ∧
    ∀ seqs, (withWindow 1024).outcomes seqs = ReplayReference.outcomes 1024 {} seqs ∧
      (ReplayReference.acceptedRun 1024 {} seqs).Nodup :=
  ⟨by decide, (withWindow_refines_iff 1024 (by decide)).mpr (Or.inl (by decide))⟩

/-- A size of 2^32 is truncated to 0, so 0 is refused right after 1. -/
theorem withWindow_wide_refuses : ¬ ∀ size : UInt64, 1 ≤ size → ∀ seqs,
    (withWindow size).outcomes seqs = ReplayReference.outcomes size.toNat {} seqs := by
  intro h
  have hcode := narrow_behind (w := withWindow 0x100000000) (b := 1) rfl (by decide) (by decide)
    (by decide)
  have href := reference_behind (W := (0x100000000 : UInt64).toNat) (b := 1) (by decide)
    (by decide) (by decide)
  have heq := h 0x100000000 (by decide) [1, 0]
  rw [hcode, href] at heq
  simp at heq

end AntiReplayWindow
end Wzp.Crypto
