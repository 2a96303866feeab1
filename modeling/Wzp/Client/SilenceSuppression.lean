import Mathlib.Data.List.Infix
import Wzp.Client.FecLabels

/-!
# Silence suppression

The detector counts the frames that are quiet in a row and lets the first of them pass. The
encoder counts the frames that are held back, for its comfort noise. The two counters have 32
bits: the first stops at its end, the second starts again.
-/
namespace Wzp.Codec

structure SilenceDetector where
  thresholdRms : Float
  hangoverFrames : UInt32
  silentFrames : UInt32
  isSuppressing : Bool

namespace SilenceDetector

def new (thresholdRms : Float) (hangoverFrames : UInt32) : SilenceDetector :=
  ⟨thresholdRms, hangoverFrames, 0, false⟩

def rms (pcm : List Int16) : Float :=
  if pcm.isEmpty then 0
  else
    let sumSq := pcm.foldl (fun sum s => sum + Float.ofInt s.toInt * Float.ofInt s.toInt) 0
    (sumSq / Float.ofNat pcm.length).sqrt

def saturatingSucc (n : UInt32) : UInt32 := if n = 0xFFFFFFFF then n else n + 1

def quiet (thresholdRms : Float) (pcm : List Int16) : Bool := decide (rms pcm < thresholdRms)

def isSilent (d : SilenceDetector) (pcm : List Int16) : Bool × SilenceDetector :=
  let d :=
    if quiet d.thresholdRms pcm then
      let silentFrames := saturatingSucc d.silentFrames
      { d with
        silentFrames
        isSuppressing := if d.hangoverFrames < silentFrames then true else d.isSuppressing }
    else { d with silentFrames := 0, isSuppressing := false }
  (d.isSuppressing, d)

/-! ## What the detector has counted -/

/-- How many frames at the end are quiet. -/
def quietRun (thresholdRms : Float) (pcms : List (List Int16)) : ℕ :=
  pcms.foldl (fun n pcm => if quiet thresholdRms pcm then n + 1 else 0) 0

/-- How many frames of a quiet run are held back. -/
def heldBack (hangoverFrames : UInt32) (run : ℕ) : ℕ :=
  if hangoverFrames.toNat < min run (2 ^ 32 - 1) then run - hangoverFrames.toNat else 0

variable {thresholdRms : Float} {h : UInt32} {d : SilenceDetector} {pcms : List (List Int16)}

theorem quietRun_concat (pcm : List Int16) : quietRun thresholdRms (pcms ++ [pcm]) =
    if quiet thresholdRms pcm then quietRun thresholdRms pcms + 1 else 0 := by
  rw [quietRun, List.foldl_append]
  rfl

/-- The next frame of a quiet run is held back with all that follow it. -/
theorem heldBack_succ (h : UInt32) (n : ℕ) : heldBack h (n + 1) =
    if 0 < heldBack h (n + 1) then heldBack h n + 1 else 0 := by
  have hh := h.toNat_lt
  simp only [heldBack]
  split_ifs <;> omega

structure Counted (thresholdRms : Float) (h : UInt32) (d : SilenceDetector)
    (pcms : List (List Int16)) : Prop where
  threshold : d.thresholdRms = thresholdRms
  hangover : d.hangoverFrames = h
  silentFrames : d.silentFrames.toNat = min (quietRun thresholdRms pcms) (2 ^ 32 - 1)
  isSuppressing : d.isSuppressing = decide (0 < heldBack h (quietRun thresholdRms pcms))

theorem counted_new : Counted thresholdRms h (new thresholdRms h) [] := by
  refine ⟨rfl, rfl, rfl, ?_⟩
  simp [new, heldBack, quietRun]

theorem toNat_saturatingSucc (n : UInt32) :
    (saturatingSucc n).toNat = min (n.toNat + 1) (2 ^ 32 - 1) := by
  have hn := n.toNat_lt
  rw [saturatingSucc]
  split
  · next hmax =>
      rw [hmax]
      rfl
  · next hmax =>
      have hne : n.toNat ≠ 2 ^ 32 - 1 := fun heq => hmax (UInt32.toNat_inj.mp heq)
      rw [UInt32.toNat_add]
      change (n.toNat + 1) % 2 ^ 32 = _
      omega

theorem heldBack_pos_iff (n : ℕ) : 0 < heldBack h n ↔ h.toNat < min n (2 ^ 32 - 1) := by
  rw [heldBack]
  split <;> omega

theorem Counted.isSilent (hd : Counted thresholdRms h d pcms) (pcm : List Int16) :
    Counted thresholdRms h (d.isSilent pcm).2 (pcms ++ [pcm]) ∧
      (d.isSilent pcm).1 = decide (0 < heldBack h (quietRun thresholdRms (pcms ++ [pcm]))) := by
  have hsilent := hd.silentFrames
  suffices hnext : Counted thresholdRms h (d.isSilent pcm).2 (pcms ++ [pcm]) from
    ⟨hnext, hnext.isSuppressing⟩
  simp only [SilenceDetector.isSilent, hd.threshold]
  by_cases hquiet : quiet thresholdRms pcm = true
  · have hcount : (saturatingSucc d.silentFrames).toNat =
        min (quietRun thresholdRms pcms + 1) (2 ^ 32 - 1) := by
      rw [toNat_saturatingSucc, hsilent]
      omega
    rw [if_pos hquiet]
    refine ⟨rfl, hd.hangover, ?_, ?_⟩
    · rw [quietRun_concat, if_pos hquiet, hcount]
    · simp only [quietRun_concat, if_pos hquiet, hd.hangover, hd.isSuppressing,
        UInt32.lt_iff_toNat_lt, hcount, heldBack_pos_iff]
      split
      · next hlt => exact (decide_eq_true hlt).symm
      · next hle => exact decide_eq_decide.mpr (by omega)
  · rw [if_neg hquiet]
    refine ⟨rfl, hd.hangover, ?_, ?_⟩
    · rw [quietRun_concat, if_neg hquiet]
      rfl
    · rw [quietRun_concat, if_neg hquiet]
      simp [heldBack]

end SilenceDetector
end Wzp.Codec

namespace Wzp.Client
open Bytes Proto Fec Codec
open SilenceDetector (quietRun heldBack)

/-- An encoder with its detector. -/
structure QuietEncoder where
  enc : CallEncoder
  silenceDetector : SilenceDetector

inductive VoiceOp where
  | encodeFrame (pcm : List Int16) (encoded : Option Buf)
  | setProfile (profile : QualityProfile) (accepted : Bool)
  | setPendingQualityReport (report : QualityReport)

namespace QuietEncoder

def new (config : CallConfig) (thresholdRms : Float) (hangoverFrames : UInt32) : QuietEncoder :=
  ⟨.new config, .new thresholdRms hangoverFrames⟩

/-- One frame, after echo cancellation, gain control and noise suppression. -/
def encodeFrame (rq : RaptorQ) (v : QuietEncoder) (pcm : List Int16) (encoded : Option Buf) :
    QuietEncoder × Option (List MediaPacket) :=
  -- The detector does not see the frames if suppression is off.
  let (silent, silenceDetector) :=
    if v.enc.suppressionEnabled then v.silenceDetector.isSilent pcm else (false, v.silenceDetector)
  let (enc, packets) := v.enc.encodeFrame rq ⟨silent, encoded⟩
  (⟨enc, silenceDetector⟩, packets)

def step (rq : RaptorQ) (v : QuietEncoder) : VoiceOp → QuietEncoder
  | .encodeFrame pcm encoded => (v.encodeFrame rq pcm encoded).1
  | .setProfile profile accepted => { v with enc := v.enc.setProfile profile accepted }
  | .setPendingQualityReport report => { v with enc := v.enc.setPendingQualityReport report }

def run (rq : RaptorQ) (v : QuietEncoder) (ops : List VoiceOp) : QuietEncoder :=
  ops.foldl (step rq) v

def captured (ops : List VoiceOp) : List (List Int16) :=
  ops.filterMap fun op => match op with
    | .encodeFrame pcm _ => some pcm
    | _ => none

end QuietEncoder

/-- What a frame does to the counters of the suppression. -/
theorem CallEncoder.encodeFrame_counters (rq : RaptorQ) (enc : CallEncoder) (frame : CapturedFrame) :
    let after := (enc.encodeFrame rq frame).1
    let held := enc.suppressionEnabled && frame.silent
    after.suppressionEnabled = enc.suppressionEnabled ∧
      after.cnCounter = (if held then enc.cnCounter + 1 else 0) ∧
      after.framesSuppressed =
        if held then enc.framesSuppressed + 1 else enc.framesSuppressed := by
  intro after held
  by_cases hheld : held = true
  · have hafter : after = enc.suppress.1 := by
      simp only [after]
      rw [encodeFrame, if_pos hheld]
    rw [hafter, if_pos hheld, if_pos hheld, suppress]
    split <;> exact ⟨rfl, rfl, rfl⟩
  · rw [if_neg hheld, if_neg hheld]
    simp only [after]
    rw [encodeFrame, if_neg hheld]
    split
    · exact ⟨rfl, rfl, rfl⟩
    · dsimp only
      split
      · exact ⟨rfl, rfl, rfl⟩
      · split
        · exact ⟨rfl, rfl, rfl⟩
        · split <;> exact ⟨rfl, rfl, rfl⟩

namespace QuietEncoder
variable {rq : RaptorQ} {thresholdRms : Float} {h : UInt32} {v : QuietEncoder}
  {pcms : List (List Int16)} {pcm : List Int16} {encoded : Option Buf}

/-- The frames that were held back, each by the frames up to it. -/
def suppressed (thresholdRms : Float) (h : UInt32) (pcms : List (List Int16)) : ℕ :=
  pcms.inits.countP fun before => 0 < heldBack h (quietRun thresholdRms before)

structure Gated (thresholdRms : Float) (h : UInt32) (v : QuietEncoder) (pcms : List (List Int16)) :
    Prop where
  counted : SilenceDetector.Counted thresholdRms h v.silenceDetector pcms
  enabled : v.enc.suppressionEnabled = true
  cnCounter : v.enc.cnCounter = UInt32.ofNat (heldBack h (quietRun thresholdRms pcms))
  framesSuppressed : v.enc.framesSuppressed = UInt64.ofNat (suppressed thresholdRms h pcms)

theorem gated_new {config : CallConfig} (hon : config.suppressionEnabled = true) :
    Gated thresholdRms h (new config thresholdRms h) [] where
  counted := SilenceDetector.counted_new
  enabled := hon
  cnCounter := by simp [new, CallEncoder.new, quietRun, heldBack]
  framesSuppressed := by simp [new, CallEncoder.new, suppressed, quietRun, heldBack]

theorem suppressed_concat : suppressed thresholdRms h (pcms ++ [pcm]) =
    suppressed thresholdRms h pcms +
      if 0 < heldBack h (quietRun thresholdRms (pcms ++ [pcm])) then 1 else 0 := by
  rw [suppressed, List.inits_append, List.countP_append]
  simp [suppressed, List.countP_cons]

theorem encodeFrame_eq (hon : v.enc.suppressionEnabled = true) :
    v.encodeFrame rq pcm encoded =
      let frame := ⟨(v.silenceDetector.isSilent pcm).1, encoded⟩
      (⟨(v.enc.encodeFrame rq frame).1, (v.silenceDetector.isSilent pcm).2⟩,
        (v.enc.encodeFrame rq frame).2) := by
  rw [encodeFrame, if_pos hon]

theorem Gated.encodeFrame (hv : Gated thresholdRms h v pcms) :
    Gated thresholdRms h (v.encodeFrame rq pcm encoded).1 (pcms ++ [pcm]) := by
  obtain ⟨hcounted, hsilent⟩ := hv.counted.isSilent pcm
  obtain ⟨henabled, hcn, hsuppressed⟩ := v.enc.encodeFrame_counters rq
    ⟨(v.silenceDetector.isSilent pcm).1, encoded⟩
  have hheld : (v.silenceDetector.isSilent pcm).1 = true ↔
      0 < heldBack h (quietRun thresholdRms (pcms ++ [pcm])) := by
    rw [hsilent, decide_eq_true_eq]
  simp only [hv.enabled, Bool.true_and, hheld] at hcn hsuppressed
  rw [encodeFrame_eq hv.enabled]
  refine ⟨hcounted, henabled.trans hv.enabled, hcn.trans ?_, hsuppressed.trans ?_⟩
  · by_cases hquiet : SilenceDetector.quiet thresholdRms pcm = true
    · have hnext := SilenceDetector.heldBack_succ h (quietRun thresholdRms pcms)
      rw [SilenceDetector.quietRun_concat, if_pos hquiet]
      by_cases hpos : 0 < heldBack h (quietRun thresholdRms pcms + 1)
      · rw [if_pos hpos] at hnext ⊢
        rw [hnext, hv.cnCounter]
        exact (UInt32.ofNat_add _ _).symm
      · rw [if_neg hpos] at hnext ⊢
        rw [hnext]
        rfl
    · rw [SilenceDetector.quietRun_concat, if_neg hquiet]
      simp [heldBack]
  · rw [suppressed_concat, hv.framesSuppressed]
    split
    · exact (UInt64.ofNat_add _ _).symm
    · rw [Nat.add_zero]

theorem Gated.step (hv : Gated thresholdRms h v pcms) (op : VoiceOp) :
    Gated thresholdRms h (step rq v op) (pcms ++ captured [op]) := by
  cases op with
  | encodeFrame pcm encoded => exact hv.encodeFrame
  | setProfile profile accepted =>
      rw [show captured [VoiceOp.setProfile profile accepted] = [] from rfl, List.append_nil]
      refine ⟨hv.counted, ?_, ?_, ?_⟩ <;> simp only [QuietEncoder.step, CallEncoder.setProfile]
      · split
        · exact hv.enabled
        · exact hv.enabled
      · split
        · exact hv.cnCounter
        · exact hv.cnCounter
      · split
        · exact hv.framesSuppressed
        · exact hv.framesSuppressed
  | setPendingQualityReport report =>
      rw [show captured [VoiceOp.setPendingQualityReport report] = [] from rfl, List.append_nil]
      exact ⟨hv.counted, hv.enabled, hv.cnCounter, hv.framesSuppressed⟩

theorem Gated.run (hv : Gated thresholdRms h v pcms) (ops : List VoiceOp) :
    Gated thresholdRms h (run rq v ops) (pcms ++ captured ops) := by
  induction ops generalizing v pcms with
  | nil => rwa [show captured [] = [] from rfl, List.append_nil]
  | cons op ops ih =>
      have hcaptured : captured ([op] ++ ops) = captured [op] ++ captured ops :=
        List.filterMap_append
      rw [← List.singleton_append, hcaptured, ← List.append_assoc]
      exact ih (hv.step op)

/-- A loud frame and fourteen quiet ones. -/
def fallSilent : List VoiceOp :=
  .encodeFrame [1000, -1000] none :: List.replicate 14 (.encodeFrame [3, -3] none)

end QuietEncoder
end Wzp.Client
