import Wzp.Fec.RaptorQ
import Wzp.Proto.Jitter

/-!
# The two sides of a call

A captured frame becomes a source packet, or a comfort noise packet now and then
while it is silent. Codec2 frames are also collected into FEC blocks, and the
repair packets of a block follow its last frame. What arrives goes to the FEC decoder
and the jitter buffer.
-/
namespace Wzp.Client
open Bytes Proto Fec

structure CallConfig where
  profile : QualityProfile
  jitterTarget : ℕ
  jitterMax : ℕ
  jitterMin : ℕ
  suppressionEnabled : Bool
  comfortNoiseLevel : Int16
  adaptiveJitter : Bool

def CallConfig.default : CallConfig where
  profile := .good
  jitterTarget := 10
  jitterMax := 250
  jitterMin := 3
  suppressionEnabled := true
  comfortNoiseLevel := 50
  adaptiveJitter := true

/-- A frame after echo cancellation, gain control and noise suppression: whether
the detector calls it silent, and what the codec makes of it. -/
structure CapturedFrame where
  silent : Bool
  encoded : Option Buf

structure CallEncoder where
  fecEnc : RaptorQFecEncoder
  profile : QualityProfile
  seq : UInt32
  blockId : UInt8
  frameInBlock : UInt8
  timestampMs : UInt32
  suppressionEnabled : Bool
  framesSuppressed : UInt64
  cnCounter : UInt32
  cnLevel : Int16
  pendingQualityReport : Option QualityReport

/-- The block number in the low byte, the symbol's number in the high byte. -/
def fecLabel (blockId : UInt8) (symbolIndex : UInt16) : UInt16 :=
  blockId.toUInt16 ||| (symbolIndex <<< 8)

namespace CallEncoder

def new (config : CallConfig) : CallEncoder where
  fecEnc := createEncoder config.profile
  profile := config.profile
  seq := 0
  blockId := 0
  frameInBlock := 0
  timestampMs := 0
  suppressionEnabled := config.suppressionEnabled
  framesSuppressed := 0
  cnCounter := 0
  cnLevel := config.comfortNoiseLevel
  pendingQualityReport := none

def comfortNoisePacket (enc : CallEncoder) : MediaPacket :=
  ⟨⟨2, 0, .audio, .comfortNoise, 0, 0, enc.seq, enc.timestampMs, enc.blockId.toUInt16⟩,
    [enc.cnLevel.toUInt16.toUInt8], none⟩

/-- A silent frame is not encoded; every tenth sends comfort noise. -/
def suppress (enc : CallEncoder) : CallEncoder × List MediaPacket :=
  let enc := { enc with
    framesSuppressed := enc.framesSuppressed + 1
    cnCounter := enc.cnCounter + 1
    timestampMs := enc.timestampMs + enc.profile.frameDurationMs.toUInt32 }
  if enc.cnCounter % 10 = 0 then ({ enc with seq := enc.seq + 1 }, [enc.comfortNoisePacket])
  else (enc, [])

def sourcePacket (enc : CallEncoder) (encoded : Buf) : MediaPacket :=
  let isOpus := enc.profile.codec.isOpus
  let fecBlock := if isOpus then 0 else fecLabel enc.blockId enc.frameInBlock.toUInt16
  let fecRatio := if isOpus then 0 else MediaHeader.encodeFecRatio enc.profile.fecRatio
  let flags := if enc.pendingQualityReport.isSome then MediaHeader.flagQuality else 0
  ⟨⟨2, flags, .audio, enc.profile.codec, 0, fecRatio, enc.seq, enc.timestampMs, fecBlock⟩,
    encoded, enc.pendingQualityReport⟩

def afterSource (enc : CallEncoder) : CallEncoder :=
  { enc with
    seq := enc.seq + 1
    timestampMs := enc.timestampMs + enc.profile.frameDurationMs.toUInt32
    pendingQualityReport := none }

def repairPacket (enc : CallEncoder) (seq : UInt32) (symIdx : UInt16) (repairData : Buf) :
    MediaPacket :=
  ⟨⟨2, MediaHeader.flagRepair, .audio, enc.profile.codec, 0,
    MediaHeader.encodeFecRatio enc.profile.fecRatio, seq, enc.timestampMs,
    fecLabel enc.blockId symIdx⟩, repairData, none⟩

/-- The repair packets of a full block, and the encoder with the next block. -/
def closeBlock (enc : CallEncoder) (rq : RaptorQ) : CallEncoder × List MediaPacket :=
  let repairs := enc.fecEnc.generateRepair rq enc.profile.fecRatio
  let packets := repairs.zipIdx.map fun (r, i) =>
    enc.repairPacket (enc.seq + UInt32.ofNat i) r.1 r.2
  ({ enc with
      seq := enc.seq + UInt32.ofNat repairs.length
      fecEnc := enc.fecEnc.finalizeBlock
      blockId := enc.blockId + 1
      frameInBlock := 0 }, packets)

/-- No packets are given out if the codec or the FEC encoder fails. -/
def encodeFrame (enc : CallEncoder) (rq : RaptorQ) (frame : CapturedFrame) :
    CallEncoder × Option (List MediaPacket) :=
  if enc.suppressionEnabled && frame.silent then
    (enc.suppress.1, some enc.suppress.2)
  else
    let enc := { enc with cnCounter := 0 }
    match frame.encoded with
    | none => (enc, none)
    | some encoded =>
        let sourcePkt := enc.sourcePacket encoded
        let enc := enc.afterSource
        if enc.profile.codec.isOpus then (enc, some [sourcePkt])
        else
          match enc.fecEnc.addSourceSymbol encoded with
          | .error _ => (enc, none)
          | .ok fecEnc =>
              let enc := { enc with fecEnc := fecEnc, frameInBlock := enc.frameInBlock + 1 }
              if enc.profile.framesPerBlock ≤ enc.frameInBlock then
                ((enc.closeBlock rq).1, some (sourcePkt :: (enc.closeBlock rq).2))
              else (enc, some [sourcePkt])

/-- `accepted` is whether the audio encoder takes the profile. -/
def setProfile (enc : CallEncoder) (profile : QualityProfile) (accepted : Bool) : CallEncoder :=
  if accepted then
    { enc with fecEnc := createEncoder profile, profile := profile, frameInBlock := 0 }
  else enc

def setPendingQualityReport (enc : CallEncoder) (report : QualityReport) : CallEncoder :=
  { enc with pendingQualityReport := some report }

end CallEncoder

/-! ## The receiving side

Every packet that is not Opus is filed with the FEC decoder, and every source
packet goes to the jitter buffer. -/

structure CallDecoder where
  fecDec : RaptorQFecDecoder
  jitter : JitterBuffer
  profile : QualityProfile

namespace CallDecoder

def new (config : CallConfig) : CallDecoder where
  fecDec := createDecoder config.profile
  jitter :=
    if config.adaptiveJitter then .newAdaptive config.jitterMin config.jitterMax
    else .new config.jitterTarget config.jitterMax config.jitterMin
  profile := config.profile

/-- The whole label goes for the block number, its high byte for the symbol's. -/
def ingest (dec : CallDecoder) (now : ℕ) (packet : MediaPacket) : CallDecoder :=
  { dec with
    fecDec :=
      if packet.header.codecId.isOpus then dec.fecDec
      else dec.fecDec.addSymbol now packet.header.fecBlock (packet.header.fecBlock >>> 8)
        packet.payload
    jitter := if packet.header.isRepair then dec.jitter else dec.jitter.push now packet }

end CallDecoder
end Wzp.Client
