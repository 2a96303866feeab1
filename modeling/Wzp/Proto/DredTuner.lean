import Wzp.Lib.Truncation
import Wzp.Proto.Profile

/-!
# The DRED tuner

Path metrics are turned into a DRED duration and an expected loss for the Opus encoder. A
tuning is given out when it is not the one the tuner remembers.
-/
namespace Wzp.Proto
open Truncation

structure DredTuning where
  /-- In units of 10 ms. -/
  dredFrames : UInt8
  expectedLossPct : UInt8
  deriving DecidableEq, Repr

def minDredFrames : UInt8 := 5
def maxDredFrames : UInt8 := 104
def jitterSpikeRatio : Float32 := 1.3
def spikeBoostCooldownCycles : UInt32 := 10

/-- DRED frames of a healthy path. -/
def baselineDredFrames : CodecId → UInt8
  | .opus32k | .opus48k | .opus64k => 10
  | .opus16k | .opus24k => 20
  | .opus6k => 50
  | _ => 0

def maxDredFramesFor : CodecId → UInt8
  | .opus32k | .opus48k | .opus64k => 30
  | .opus16k | .opus24k => 50
  | .opus6k => maxDredFrames
  | _ => 0

/-- A number that is not one stays so. -/
def clampFloat (x low high : Float32) : Float32 :=
  if x < low then low else if high < x then high else x

structure DredTuner where
  codec : CodecId
  lastTuning : DredTuning
  jitterEwma : Float32
  spikeCooldown : UInt32
  initialized : Bool

namespace DredTuner

def new (codec : CodecId) : DredTuner := ⟨codec, ⟨baselineDredFrames codec, 15⟩, 0, 0, false⟩

def setCodec (t : DredTuner) (codec : CodecId) : DredTuner :=
  { t with codec, spikeCooldown := 0 }

/-- The average goes up fast and down slowly. Jitter well above it begins a boost. -/
def observeJitter (t : DredTuner) (jitterMs : UInt32) : DredTuner :=
  let jitter := jitterMs.toFloat32
  let alpha := if t.jitterEwma < jitter then 0.3 else 0.05
  let ewma := if t.initialized then alpha * jitter + (1 - alpha) * t.jitterEwma else jitter
  let spike := 1 < ewma ∧ ewma * jitterSpikeRatio < jitter
  let cooldown := if spike then spikeBoostCooldownCycles else t.spikeCooldown
  { t with
    jitterEwma := ewma
    initialized := true
    spikeCooldown := if 0 < cooldown then cooldown - 1 else cooldown }

/-- The most that the codec allows in a boost, else between the baseline and that. -/
def dredFrames (t : DredTuner) (lossPct : Float32) : UInt8 :=
  let baseline := baselineDredFrames t.codec
  let ceiling := maxDredFramesFor t.codec
  if 0 < t.spikeCooldown then ceiling
  else
    let raw := baseline.toFloat32 + clampFloat lossPct 0 40 / 40 * (ceiling - baseline).toFloat32
    max minDredFrames (min raw.toUInt8 ceiling)

/-- A long round trip counts as loss to come. -/
def expectedLoss (lossPct : Float32) (rttMs : UInt32) : UInt8 :=
  let phantom := (rttMs - 200).toFloat32 / 40
  let rttLossPhantom := if 200 < rttMs then if phantom < 15 then phantom else 15 else 0
  (clampFloat (lossPct + rttLossPhantom) 0 100).toUInt8

/-- The tuning for the metrics. -/
def tuningFor (t : DredTuner) (lossPct : Float32) (rttMs jitterMs : UInt32) : DredTuning :=
  ⟨(t.observeJitter jitterMs).dredFrames lossPct, expectedLoss lossPct rttMs⟩

def update (t : DredTuner) (lossPct : Float32) (rttMs jitterMs : UInt32) :
    DredTuner × Option DredTuning :=
  if t.codec.isOpus then
    let tuning := t.tuningFor lossPct rttMs jitterMs
    if tuning ≠ t.lastTuning then
      ({ t.observeJitter jitterMs with lastTuning := tuning }, some tuning)
    else (t.observeJitter jitterMs, none)
  else (t, none)

def current (t : DredTuner) : DredTuning := t.lastTuning

variable {t : DredTuner} {lossPct : Float32} {rttMs jitterMs : UInt32}

theorem update_other (h : t.codec.isOpus = false) : t.update lossPct rttMs jitterMs = (t, none) := by
  rw [update, h]
  rfl

theorem update_changed (h : t.codec.isOpus = true)
    (hchanged : t.tuningFor lossPct rttMs jitterMs ≠ t.current) :
    t.update lossPct rttMs jitterMs =
      ({ t.observeJitter jitterMs with lastTuning := t.tuningFor lossPct rttMs jitterMs },
        some (t.tuningFor lossPct rttMs jitterMs)) := by
  rw [update, if_pos h]
  exact if_pos hchanged

theorem update_unchanged (h : t.codec.isOpus = true)
    (hsame : t.tuningFor lossPct rttMs jitterMs = t.current) :
    t.update lossPct rttMs jitterMs = (t.observeJitter jitterMs, none) := by
  rw [update, if_pos h]
  exact if_neg fun hchanged => hchanged hsame

/-! ## Ranges -/

theorem clamp_le (x : UInt8) {low high : UInt8} (h : low ≤ high) : max low (min x high) ≤ high := by
  have hmin : min x high ≤ high := by
    change (if x ≤ high then x else high) ≤ high
    split
    · assumption
    · exact UInt8.le_refl high
  change (if low ≤ min x high then min x high else low) ≤ high
  split
  · exact hmin
  · exact h

theorem clampFloat_le (x : Float32) : ¬ 100 < clampFloat x 0 100 := by
  unfold clampFloat
  split
  · decide +kernel
  · split
    · decide +kernel
    · assumption

theorem maxDredFramesFor_le (codec : CodecId) : maxDredFramesFor codec ≤ 104 := by
  cases codec <;> decide

theorem minDredFrames_le {codec : CodecId} (h : codec.isOpus = true) :
    minDredFrames ≤ maxDredFramesFor codec := by
  cases codec <;> first | decide | cases h

theorem dredFrames_le (h : t.codec.isOpus = true) : t.dredFrames lossPct ≤ 104 := by
  refine UInt8.le_trans ?_ (maxDredFramesFor_le t.codec)
  unfold dredFrames
  dsimp only
  split
  · exact UInt8.le_refl _
  · exact clamp_le _ (minDredFrames_le h)

/-- The float is clamped, also where it is not a number. -/
theorem expectedLoss_le : expectedLoss lossPct rttMs ≤ 100 := by
  have hbound : (100 : Float32).toModel.unpack = .finite .positive 13107200 (-(17 : ℕ)) (by decide) := by
    rfl
  apply UInt8.le_iff_toNat_le.mpr
  exact toUInt8_le hbound (by decide) (clampFloat_le _)

end DredTuner
end Wzp.Proto
