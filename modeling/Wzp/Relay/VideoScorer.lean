import Wzp.Lib.Runs
import Wzp.Video.Transport

/-!
# The video scorer

The relay judges a stream by how regular its keyframes are, how many there are among the
other frames, and whether its bit rate follows the bandwidth. It is given packets one by
one, each with the keyframe flag of its frame.
-/
namespace Wzp.Relay
open Bytes Proto Runs Video

inductive Verdict where
  | legitimate
  | suspect
  | abusive
  deriving DecidableEq, Repr

/-- The 32-bit float nearest to a 64-bit one. -/
def asF32 (x : Float) : Float32 :=
  match x.toModel.unpack with
  | .finite sign m e _ => ⟨.pack (Float.Model.UnpackedFloat.round .binary32 sign m e)⟩
  | other => ⟨.pack other⟩

/-- Instants and durations are in nanoseconds. -/
def asSecsF64 (d : ℕ) : Float :=
  Float.ofNat (d / 1000000000) + Float.ofNat (d % 1000000000) / 1000000000

def maxKfSamples : ℕ := 50
def minPackets : UInt32 := 30
def noKeyframeThreshold : UInt32 := 120
def allIFrameThreshold : UInt32 := 30

structure VideoScorer where
  keyframeIatSamples : List ℕ
  lastKeyframeAt : Option ℕ
  iFrameCount : UInt32
  pFrameCount : UInt32
  windowStart : ℕ
  windowBytes : UInt64
  lastBweKbps : Option UInt32
  bitrateAtLastBwe : Option Float
  responsiveCount : UInt32
  unresponsiveCount : UInt32
  totalPackets : UInt32

/-- What the scorer is given of a packet. -/
structure ScoredArrival where
  header : MediaHeader
  payloadLen : ℕ
  now : ℕ
  bweKbps : Option UInt32

namespace VideoScorer

def new (now : ℕ) : VideoScorer where
  keyframeIatSamples := []
  lastKeyframeAt := none
  iFrameCount := 0
  pFrameCount := 0
  windowStart := now
  windowBytes := 0
  lastBweKbps := none
  bitrateAtLastBwe := none
  responsiveCount := 0
  unresponsiveCount := 0
  totalPackets := 0

/-- In kbps over the window. -/
def currentBitrate (s : VideoScorer) (now : ℕ) : Float :=
  let elapsed := asSecsF64 (now - s.windowStart)
  if 0 < elapsed then s.windowBytes.toFloat * 8 / 1000 / elapsed else 0

/-- The gap to the keyframe before is a sample, the oldest goes if there are too many. -/
def observeKeyframe (s : VideoScorer) (now : ℕ) : VideoScorer :=
  let samples := match s.lastKeyframeAt with
    | some last => s.keyframeIatSamples ++ [now - last]
    | none => s.keyframeIatSamples
  { s with
    iFrameCount := s.iFrameCount + 1
    keyframeIatSamples := if maxKfSamples < samples.length then samples.drop 1 else samples
    lastKeyframeAt := some now }

def bweDrop (last bwe : UInt32) : Float :=
  if 0 < last then (last.toFloat - bwe.toFloat) / last.toFloat else 0

/-- The bandwidth has dropped, and the bit rate with it or not. -/
def observeDrop (s : VideoScorer) (bwe : UInt32) (currentRate : Float) : VideoScorer :=
  match s.lastBweKbps with
  | some last =>
      if 0.30 < bweDrop last bwe then
        let lastRate := s.bitrateAtLastBwe.getD 0
        let rateDrop := if 0 < lastRate then (lastRate - currentRate) / lastRate else 0
        if 0.10 ≤ rateDrop then { s with responsiveCount := s.responsiveCount + 1 }
        else { s with unresponsiveCount := s.unresponsiveCount + 1 }
      else s
  | none => s

def observeBwe (s : VideoScorer) (bwe : UInt32) (now : ℕ) : VideoScorer :=
  let currentRate := s.currentBitrate now
  { s.observeDrop bwe currentRate with
    lastBweKbps := some bwe
    bitrateAtLastBwe := some currentRate
    windowStart := now
    windowBytes := 0 }

def observe (s : VideoScorer) (p : ScoredArrival) : VideoScorer :=
  if p.header.mediaType = .video then
    let s := { s with
      windowStart := if s.totalPackets = 0 then p.now else s.windowStart
      totalPackets := s.totalPackets + 1 }
    let s := if p.header.isKeyframe then s.observeKeyframe p.now
      else { s with pFrameCount := s.pFrameCount + 1 }
    let s := { s with
      windowBytes := s.windowBytes + UInt64.ofNat (MediaHeader.wireSize + p.payloadLen) }
    match p.bweKbps with
    | some bwe => s.observeBwe bwe p.now
    | none => s
  else s

/-! ## The score -/

/-- 1 for keyframes that are all the same time apart. -/
def keyframeRegularity (s : VideoScorer) : Option Float :=
  let secs := s.keyframeIatSamples.map asSecsF64
  let count := Float.ofNat secs.length
  if secs.length < 3 then none
  else
    let mean := secs.foldl (· + ·) 0 / count
    if mean == 0 then none
    else
      let variance := (secs.map fun d => (d - mean) * (d - mean)).foldl (· + ·) 0 / count
      some (1 / (1 + variance.sqrt / mean))

/-- 1 for 29 or more other frames to a keyframe, 0 for 5 or fewer. -/
def ipRatio (s : VideoScorer) : Option Float :=
  if s.iFrameCount = 0 then none
  else if s.pFrameCount = 0 then some 0
  else
    let pPerI := s.pFrameCount.toFloat / s.iFrameCount.toFloat
    some (if 29 ≤ pPerI then 1 else if pPerI ≤ 5 then 0 else (pPerI - 5) / (29 - 5))

def bweResponsiveness (s : VideoScorer) : Option Float :=
  let total := s.responsiveCount + s.unresponsiveCount
  if total = 0 then none else some (s.responsiveCount.toFloat / total.toFloat)

/-- A feature takes away what it lacks, by its weight. -/
def lacking (feature : Float) (weight : Float32) : Float32 := (1 - asF32 feature) * weight

def legitimacy (s : VideoScorer) : Option Float32 :=
  if s.totalPackets < minPackets then none
  else
    let score : Float32 := 1
    let score := match s.keyframeRegularity with
      | some reg => score - lacking reg 0.35
      | none =>
          if s.iFrameCount = 0 ∧ noKeyframeThreshold < s.totalPackets then score - 0.50
          else score - 0.10
    let score :=
      if s.pFrameCount = 0 ∧ allIFrameThreshold < s.totalPackets then score - 0.60
      else match s.ipRatio with
        | some ip => score - lacking ip 0.30
        | none => score - 0.10
    let score := match s.bweResponsiveness with
      | some bwe => score - lacking bwe 0.40
      | none => score - 0.15
    some (if score < 0 then 0 else if 1 < score then 1 else score)

def verdict (s : VideoScorer) : Option Verdict :=
  s.legitimacy.map fun score =>
    if 0.7 ≤ score then .legitimate else if 0.3 ≤ score then .suspect else .abusive

end VideoScorer
end Wzp.Relay
