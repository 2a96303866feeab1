import Wzp.Lib.Runs
import Wzp.Lib.Scaling
import Wzp.Proto.Profile

/-!
# The video quality controller

A tick gives video a share of the bandwidth, picks size and frame rate for it from a step
table and clamps the bitrate against that of the tick before.
-/
namespace Wzp.Video
open Proto

structure VideoTarget where
  bitrateKbps : UInt32
  fps : UInt8
  width : UInt16
  height : UInt16
  deriving DecidableEq

def VideoTarget.disabled : VideoTarget := ⟨0, 0, 0, 0⟩

structure Step where
  minBudgetKbps : UInt32
  width : UInt16
  height : UInt16
  fps : UInt8
  deriving DecidableEq

def stepTableH264 : List Step :=
  [⟨4000, 1280, 720, 30⟩, ⟨2000, 640, 480, 30⟩, ⟨1000, 480, 360, 30⟩, ⟨500, 480, 360, 15⟩,
    ⟨250, 320, 240, 15⟩, ⟨150, 320, 240, 10⟩, ⟨100, 240, 180, 10⟩, ⟨50, 240, 180, 5⟩]

def stepTableH265 : List Step :=
  [⟨3200, 1280, 720, 30⟩, ⟨1600, 640, 480, 30⟩, ⟨800, 480, 360, 30⟩, ⟨400, 480, 360, 15⟩,
    ⟨200, 320, 240, 15⟩, ⟨120, 320, 240, 10⟩, ⟨80, 240, 180, 10⟩, ⟨40, 240, 180, 5⟩]

def stepTableAv1 : List Step :=
  [⟨2800, 1280, 720, 30⟩, ⟨1400, 640, 480, 30⟩, ⟨700, 480, 360, 30⟩, ⟨350, 480, 360, 15⟩,
    ⟨175, 320, 240, 15⟩, ⟨105, 320, 240, 10⟩, ⟨70, 240, 180, 10⟩, ⟨35, 240, 180, 5⟩]

def stepTableForCodec : CodecId → List Step
  | .h264Baseline => stepTableH264
  | .h265Main => stepTableH265
  | .av1Main => stepTableAv1
  | _ => stepTableH264

/-- The two estimates of the bandwidth, in bits per second. -/
structure BandwidthEstimator where
  cwndBps : UInt64
  peerRembBps : UInt64

def BandwidthEstimator.targetSendBps (bwe : BandwidthEstimator) : UInt64 :=
  ((min bwe.cwndBps bwe.peerRembBps).toFloat * 0.9).toUInt64

def audioFloorKbps : UInt32 := 24
def audioFloorScreencastKbps : UInt32 := 16
def balancedAudioRatio : Float := 0.15
def maxChangeRatioPerSec : Float := 2.0

def saturatingSub (a b : UInt32) : UInt32 := if b ≤ a then a - b else 0

/-- `Ord::clamp`, which panics unless `lo ≤ hi`. -/
def clamp (x lo hi : UInt32) : UInt32 := if x < lo then lo else if hi < x then hi else x

structure SimulcastLayer where
  streamId : UInt8
  width : UInt32
  height : UInt32
  bitrateKbps : UInt32
  fps : UInt8
  deriving DecidableEq

namespace SimulcastLayer

def low : SimulcastLayer := ⟨0, 480, 270, 150, 15⟩
def mid : SimulcastLayer := ⟨1, 960, 540, 600, 30⟩
def high : SimulcastLayer := ⟨2, 1920, 1080, 2500, 30⟩

def totalBitrateKbps : UInt32 := low.bitrateKbps + mid.bitrateKbps + high.bitrateKbps

end SimulcastLayer

structure LayerTarget where
  layer : SimulcastLayer
  active : Bool
  deriving DecidableEq

def priorityByte : PriorityMode → UInt8
  | .audioFirst => 0
  | .videoFirst => 1
  | .screenShare => 2
  | .balanced => 3

/-- The last tick was at time 0 also when there was none. -/
structure VideoQualityController where
  bwe : BandwidthEstimator
  modeByte : UInt8
  codecByte : UInt8
  lastTarget : VideoTarget
  lastTickMs : UInt32

namespace VideoQualityController
variable (c : VideoQualityController)

def withCodec (bwe : BandwidthEstimator) (codec : CodecId) : VideoQualityController where
  bwe
  modeByte := priorityByte .audioFirst
  codecByte := codec.toWire
  lastTarget := .disabled
  lastTickMs := 0

def setCodec (codec : CodecId) : VideoQualityController := { c with codecByte := codec.toWire }

def codec : CodecId :=
  if c.codecByte = 9 then .h264Baseline
  else if c.codecByte = 11 then .h265Main
  else if c.codecByte = 12 then .av1Main
  else .h264Baseline

def setMode (mode : PriorityMode) : VideoQualityController := { c with modeByte := priorityByte mode }

def mode : PriorityMode :=
  if c.modeByte = 1 then .videoFirst
  else if c.modeByte = 2 then .screenShare
  else if c.modeByte = 3 then .balanced
  else .audioFirst

def table : List Step := stepTableForCodec c.codec

/-- The budgets of audio and of video. -/
def allocate : UInt32 × UInt32 :=
  let bweKbps := (c.bwe.targetSendBps / 1000).toUInt32
  match c.mode with
  | .audioFirst =>
      let audio := min audioFloorKbps bweKbps
      (audio, saturatingSub bweKbps audio)
  | .videoFirst =>
      let videoFloor := (c.table.getLast?.map Step.minBudgetKbps).getD 50
      let video := min videoFloor bweKbps
      (saturatingSub bweKbps video, video)
  | .screenShare =>
      let audio := min audioFloorScreencastKbps bweKbps
      (audio, saturatingSub bweKbps audio)
  | .balanced =>
      let audio := (bweKbps.toFloat * balancedAudioRatio).toUInt32
      (audio, saturatingSub bweKbps audio)

/-- The first step that the budget is enough for. -/
def stepFor (budget : UInt32) : Option Step := c.table.find? fun s => s.minBudgetKbps ≤ budget

def deriveTarget (budget : UInt32) : VideoTarget :=
  match c.stepFor budget with
  | some s => ⟨budget, s.fps, s.width, s.height⟩
  | none => .disabled

/-! ## Smoothing -/

section
variable (powf : Float → Float → Float)

def maxRatio (dtMs : UInt32) : Float := powf maxChangeRatioPerSec (dtMs.toFloat / 1000)

def minBr (last dtMs : UInt32) : UInt32 := (last.toFloat / maxRatio powf dtMs).toUInt32

def maxBr (last dtMs : UInt32) : UInt32 := (last.toFloat * maxRatio powf dtMs).toUInt32

def smooth (raw : VideoTarget) (dtMs : UInt32) : VideoTarget :=
  if raw.bitrateKbps = 0 then raw
  else
    let last := c.lastTarget.bitrateKbps
    if last = 0 then raw
    else { raw with bitrateKbps := clamp raw.bitrateKbps (minBr powf last dtMs) (maxBr powf last dtMs) }

/-- The time that a tick takes to have gone by. -/
def dtMs (nowMs : UInt32) : UInt32 :=
  if c.lastTickMs = 0 then 1000 else saturatingSub nowMs c.lastTickMs

/-- What both kinds of tick do with a target. -/
def settle (raw : VideoTarget) (nowMs : UInt32) : VideoQualityController :=
  { c with lastTarget := c.smooth powf raw (c.dtMs nowMs), lastTickMs := nowMs }

def tick (nowMs : UInt32) : VideoQualityController × VideoTarget :=
  let next := c.settle powf (c.deriveTarget c.allocate.2) nowMs
  (next, next.lastTarget)

end

/-! ## Simulcast -/

def cumulative : List UInt32 :=
  [SimulcastLayer.low.bitrateKbps, SimulcastLayer.low.bitrateKbps + SimulcastLayer.mid.bitrateKbps,
    SimulcastLayer.totalBitrateKbps]

def layerTargets : List LayerTarget :=
  [.low, .mid, .high].zipWith (fun layer need => ⟨layer, need ≤ c.allocate.2⟩) cumulative

/-- The bitrate up to the highest layer that is active, 0 if none is. -/
def highestActive : UInt32 :=
  (((c.layerTargets.zip cumulative).reverse.find? fun t => t.1.active).map Prod.snd).getD 0

def simulcastTarget : VideoTarget :=
  if 0 < c.highestActive then c.deriveTarget c.highestActive else .disabled

def tickSimulcast (powf : Float → Float → Float) (nowMs : UInt32) :
    VideoQualityController × List LayerTarget :=
  (c.settle powf c.simulcastTarget nowMs, c.layerTargets)

end VideoQualityController

end Wzp.Video
