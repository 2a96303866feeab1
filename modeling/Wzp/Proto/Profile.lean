import Wzp.Proto.Packet

/-!
# Quality profiles

Codec, FEC overhead and block size of a call, with the fixed profiles of the
quality tiers.
-/
namespace Wzp.Proto

def CodecId.isOpus : CodecId → Bool
  | .opus6k | .opus16k | .opus24k | .opus32k | .opus48k | .opus64k => true
  | _ => false

def CodecId.isVideo : CodecId → Bool
  | .h264Baseline | .h265Main | .av1Main => true
  | _ => false

def CodecId.bitrateBps : CodecId → UInt32
  | .opus24k => 24000
  | .opus16k => 16000
  | .opus6k => 6000
  | .opus32k => 32000
  | .opus48k => 48000
  | .opus64k => 64000
  | .codec2_3200 => 3200
  | .codec2_1200 => 1200
  | .comfortNoise => 0
  | .h264Baseline | .h265Main | .av1Main => 2000000

def CodecId.frameDurationMs : CodecId → UInt8
  | .opus24k | .opus16k | .opus32k | .opus48k | .opus64k => 20
  | .opus6k => 40
  | .codec2_3200 => 20
  | .codec2_1200 => 40
  | .comfortNoise => 20
  | .h264Baseline | .h265Main | .av1Main => 33

def MediaHeader.isRepair (h : MediaHeader) : Bool := h.flags &&& flagRepair != 0

def MediaHeader.flagKeyframe : UInt8 := 0b00100000
def MediaHeader.flagFrameEnd : UInt8 := 0b00010000

def MediaHeader.isKeyframe (h : MediaHeader) : Bool := h.flags &&& flagKeyframe != 0

def MediaHeader.isFrameEnd (h : MediaHeader) : Bool := h.flags &&& flagFrameEnd != 0

def MediaHeader.encodeFecRatio (ratio : Float32) : UInt8 := (ratio * 100).round.toUInt8

inductive PriorityMode where
  | audioFirst
  | videoFirst
  | screenShare
  | balanced
  deriving DecidableEq, Repr

structure QualityProfile where
  codec : CodecId
  /-- 0 for no repair symbols, 1 for as many as there are frames. -/
  fecRatio : Float32
  frameDurationMs : UInt8
  framesPerBlock : UInt8
  priorityMode : PriorityMode
  videoBitrateKbps : Option UInt32
  videoResolution : Option (UInt16 × UInt16)
  videoFps : Option UInt8

namespace QualityProfile

def good : QualityProfile := ⟨.opus24k, 0.2, 20, 5, .audioFirst, none, none, none⟩

def degraded : QualityProfile := ⟨.opus6k, 0.5, 40, 10, .audioFirst, none, none, none⟩

def catastrophic : QualityProfile := ⟨.codec2_1200, 1.0, 40, 8, .audioFirst, none, none, none⟩

def studio32k : QualityProfile := ⟨.opus32k, 0.1, 20, 5, .audioFirst, none, none, none⟩

def studio48k : QualityProfile := ⟨.opus48k, 0.1, 20, 5, .audioFirst, none, none, none⟩

def studio64k : QualityProfile := ⟨.opus64k, 0.1, 20, 5, .audioFirst, none, none, none⟩

/-- Estimated bandwidth with FEC overhead. -/
def totalBitrateKbps (p : QualityProfile) : Float32 :=
  p.codec.bitrateBps.toFloat32 / 1000 * (1 + p.fecRatio)

end QualityProfile
end Wzp.Proto
