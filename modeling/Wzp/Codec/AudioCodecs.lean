import Wzp.Lib.Writes
import Wzp.Proto.Profile

/-!
# The audio encoders and decoders

An adaptive encoder holds an Opus and a Codec2 encoder and has one of them active, an
adaptive decoder likewise. Each setting of the Opus encoder is given to libopus by a call
of its own, which may be refused. Signal processing is left out.
-/
namespace Wzp.Codec
open Bytes Proto Writes

inductive CodecError where
  | encodeFailed (reason : String)
  | decodeFailed (reason : String)
  | unsupportedTransition (source target : CodecId)

/-- The name of a codec in an error text. -/
def codecName : CodecId → String
  | .opus24k => "Opus24k"
  | .opus16k => "Opus16k"
  | .opus6k => "Opus6k"
  | .codec2_3200 => "Codec2_3200"
  | .codec2_1200 => "Codec2_1200"
  | .comfortNoise => "ComfortNoise"
  | .opus32k => "Opus32k"
  | .opus48k => "Opus48k"
  | .opus64k => "Opus64k"
  | .h264Baseline => "H264Baseline"
  | .h265Main => "H265Main"
  | .av1Main => "Av1Main"

def isCodec2 : CodecId → Bool
  | .codec2_3200 | .codec2_1200 => true
  | _ => false

/-! ## libopus -/

structure OpusSettings where
  bitrate : UInt32
  dtx : Bool
  voice : Bool
  complexity : UInt8
  inbandFec : Bool
  dredDuration : UInt8
  packetLoss : UInt8
  deriving DecidableEq, Repr

/-- A call that sets one setting. -/
inductive Ctl where
  | bitrate (bps : UInt32)
  | dtx (enabled : Bool)
  | voice
  | complexity (level : UInt8)
  | inbandFec (enabled : Bool)
  | dredDuration (frames : UInt8)
  | packetLoss (pct : UInt8)
  deriving DecidableEq, Repr

/-- The text of the error when the call is refused. -/
def Ctl.label : Ctl → String
  | .bitrate _ => "set bitrate"
  | .dtx _ => "" -- its error is dropped
  | .voice => "set signal"
  | .complexity _ => "set complexity"
  | .inbandFec true => "set inband FEC"
  | .inbandFec false => "set inband FEC off"
  | .dredDuration _ => "set DRED duration"
  | .packetLoss _ => "set packet loss floor"

/-- Why libopus refuses a call, if it does. -/
abbrev Libopus := Ctl → Option String

def Libopus.refusal (libopus : Libopus) (c : Ctl) : Option CodecError :=
  (libopus c).map fun e => .encodeFailed (c.label ++ ": " ++ e)

def OpusSettings.apply (s : OpusSettings) : Ctl → OpusSettings
  | .bitrate bps => { s with bitrate := bps }
  | .dtx enabled => { s with dtx := enabled }
  | .voice => { s with voice := true }
  | .complexity level => { s with complexity := level }
  | .inbandFec enabled => { s with inbandFec := enabled }
  | .dredDuration frames => { s with dredDuration := frames }
  | .packetLoss pct => { s with packetLoss := pct }

/-- The values libopus is documented to take. -/
def Ctl.Documented : Ctl → Prop
  | .bitrate bps => 500 ≤ bps ∧ bps ≤ 512000
  | .complexity level => level ≤ 10
  | .dredDuration frames => frames ≤ 104
  | .packetLoss pct => pct ≤ 100
  | _ => True

/-! ## The Opus encoder -/

def dredLossFloorPct : UInt8 := 15

/-- DRED duration of a codec, in units of 10 ms. -/
def dredDurationFor : CodecId → UInt8
  | .opus32k | .opus48k | .opus64k => 10
  | .opus16k | .opus24k => 20
  | .opus6k => 104
  | _ => 0

structure OpusEncoder where
  inner : OpusSettings
  codecId : CodecId
  frameDurationMs : UInt8
  legacyFecMode : Bool
  deriving DecidableEq, Repr

namespace OpusEncoder
variable (libopus : Libopus)

def ctls (cs : List Ctl) (enc : OpusEncoder) : OpusEncoder × Except CodecError Unit :=
  let r := attempt OpusSettings.apply libopus.refusal cs enc.inner
  ({ enc with inner := r.1 }, r.2)

def applyBitrate (codec : CodecId) (enc : OpusEncoder) : OpusEncoder × Except CodecError Unit :=
  enc.ctls libopus [.bitrate codec.bitrateBps]

/-- Inband FEC in the legacy mode, else DRED. -/
def applyProtectionMode (codec : CodecId) (enc : OpusEncoder) :
    OpusEncoder × Except CodecError Unit :=
  if enc.legacyFecMode then enc.ctls libopus [.inbandFec true]
  else
    enc.ctls libopus
      [.inbandFec false, .dredDuration (dredDurationFor codec), .packetLoss dredLossFloorPct]

def setDtx (enabled : Bool) (enc : OpusEncoder) : OpusEncoder :=
  (enc.ctls libopus [.dtx enabled]).1

/-- `created` is what libopus makes, with its defaults. -/
def new (created : Except String OpusSettings) (legacyFecMode : Bool) (profile : QualityProfile) :
    Except CodecError OpusEncoder :=
  match created with
  | .error e => .error (.encodeFailed ("opus encoder init: " ++ e))
  | .ok inner =>
      let enc : OpusEncoder := ⟨inner, profile.codec, profile.frameDurationMs, legacyFecMode⟩
      let r := andThen (enc.applyBitrate libopus profile.codec) fun enc =>
        andThen ((enc.setDtx libopus true).ctls libopus [.voice, .complexity 7])
          (applyProtectionMode libopus profile.codec)
      r.2.map fun _ => r.1

def setProfile (profile : QualityProfile) (enc : OpusEncoder) :
    OpusEncoder × Except CodecError Unit :=
  if profile.codec.isOpus then
    let enc := { enc with codecId := profile.codec, frameDurationMs := profile.frameDurationMs }
    andThen (enc.applyBitrate libopus profile.codec) (applyProtectionMode libopus profile.codec)
  else (enc, .error (.unsupportedTransition enc.codecId profile.codec))

def setExpectedLoss (lossPct : UInt8) (enc : OpusEncoder) : OpusEncoder :=
  let clamped := if enc.legacyFecMode then min lossPct 100
    else max dredLossFloorPct (min lossPct 100)
  (enc.ctls libopus [.packetLoss clamped]).1

def setDredDuration (frames : UInt8) (enc : OpusEncoder) : OpusEncoder :=
  if enc.legacyFecMode then enc else (enc.ctls libopus [.dredDuration (min frames 104)]).1

/-- Without the legacy mode the request is ignored. -/
def setInbandFec (enabled : Bool) (enc : OpusEncoder) : OpusEncoder :=
  if !enc.legacyFecMode then enc else (enc.ctls libopus [.inbandFec enabled]).1

end OpusEncoder

/-! ## Codec2 and the Opus decoder -/

inductive Codec2Mode where
  | mode3200
  | mode1200
  deriving DecidableEq, Repr

/-- The encoder and the decoder differ in the error they give. -/
def modeFor (failed : String → CodecError) : CodecId → Except CodecError Codec2Mode
  | .codec2_3200 => .ok .mode3200
  | .codec2_1200 => .ok .mode1200
  | other => .error (failed ("not a Codec2 variant: " ++ codecName other))

/-- A Codec2 encoder, or a decoder, with the mode of the codec inside. -/
structure Codec2 where
  inner : Codec2Mode
  codecId : CodecId
  frameDurationMs : UInt8
  deriving DecidableEq, Repr

namespace Codec2
variable (failed : String → CodecError)

def new (profile : QualityProfile) : Except CodecError Codec2 :=
  (modeFor failed profile.codec).map fun mode => ⟨mode, profile.codec, profile.frameDurationMs⟩

/-- The codec inside is made anew if the mode changes. -/
def setProfile (profile : QualityProfile) (c : Codec2) : Codec2 × Except CodecError Unit :=
  if isCodec2 profile.codec then
    match if profile.codec = c.codecId then .ok c.inner else modeFor failed profile.codec with
    | .error e => (c, .error e)
    | .ok inner => (⟨inner, profile.codec, profile.frameDurationMs⟩, .ok ())
  else (c, .error (.unsupportedTransition c.codecId profile.codec))

end Codec2

structure OpusDecoder where
  codecId : CodecId
  frameDurationMs : UInt8
  deriving DecidableEq, Repr

def OpusDecoder.setProfile (profile : QualityProfile) (dec : OpusDecoder) :
    OpusDecoder × Except CodecError Unit :=
  if profile.codec.isOpus then (⟨profile.codec, profile.frameDurationMs⟩, .ok ())
  else (dec, .error (.unsupportedTransition dec.codecId profile.codec))

/-! ## The adaptive encoder and decoder -/

def opusProfile (profile : QualityProfile) : QualityProfile :=
  { profile with codec := if isCodec2 profile.codec then .opus24k else profile.codec }

def codec2Profile (profile : QualityProfile) : QualityProfile :=
  { profile with codec := if isCodec2 profile.codec then profile.codec else .codec2_3200 }

structure AdaptiveEncoder where
  opus : OpusEncoder
  codec2 : Codec2
  active : CodecId
  deriving DecidableEq, Repr

namespace AdaptiveEncoder
variable (libopus : Libopus)

def new (created : Except String OpusSettings) (legacyFecMode : Bool) (profile : QualityProfile) :
    Except CodecError AdaptiveEncoder :=
  match OpusEncoder.new libopus created legacyFecMode (opusProfile profile) with
  | .error e => .error e
  | .ok opus => (Codec2.new .encodeFailed (codec2Profile profile)).map (⟨opus, ·, profile.codec⟩)

def setProfile (profile : QualityProfile) (enc : AdaptiveEncoder) :
    AdaptiveEncoder × Except CodecError Unit :=
  let enc := { enc with active := profile.codec }
  if isCodec2 profile.codec then
    let r := enc.codec2.setProfile .encodeFailed profile
    ({ enc with codec2 := r.1 }, r.2)
  else
    let r := enc.opus.setProfile libopus profile
    ({ enc with opus := r.1 }, r.2)

def setInbandFec (enabled : Bool) (enc : AdaptiveEncoder) : AdaptiveEncoder :=
  { enc with opus := enc.opus.setInbandFec libopus enabled }

def setDtx (enabled : Bool) (enc : AdaptiveEncoder) : AdaptiveEncoder :=
  { enc with opus := enc.opus.setDtx libopus enabled }

def setExpectedLoss (lossPct : UInt8) (enc : AdaptiveEncoder) : AdaptiveEncoder :=
  { enc with opus := enc.opus.setExpectedLoss libopus lossPct }

def setDredDuration (frames : UInt8) (enc : AdaptiveEncoder) : AdaptiveEncoder :=
  { enc with opus := enc.opus.setDredDuration libopus frames }

/-- A frame is encoded with the Codec2 mode, or at the bit rate, of the codec. -/
def Encodes (enc : AdaptiveEncoder) (codec : CodecId) : Prop :=
  if isCodec2 enc.active then modeFor .encodeFailed codec = .ok enc.codec2.inner
  else codec.isOpus = true ∧ enc.opus.inner.bitrate = codec.bitrateBps

end AdaptiveEncoder

structure AdaptiveDecoder where
  opus : OpusDecoder
  codec2 : Codec2
  active : CodecId
  deriving DecidableEq, Repr

namespace AdaptiveDecoder

/-- `created` is whether libopus makes a decoder. -/
def new (created : Except CodecError Unit) (profile : QualityProfile) :
    Except CodecError AdaptiveDecoder :=
  match created with
  | .error e => .error e
  | .ok _ =>
      (Codec2.new .decodeFailed (codec2Profile profile)).map
        (⟨⟨(opusProfile profile).codec, profile.frameDurationMs⟩, ·, profile.codec⟩)

def setProfile (profile : QualityProfile) (dec : AdaptiveDecoder) :
    AdaptiveDecoder × Except CodecError Unit :=
  let dec := { dec with active := profile.codec }
  if isCodec2 profile.codec then
    let r := dec.codec2.setProfile .decodeFailed profile
    ({ dec with codec2 := r.1 }, r.2)
  else
    let r := dec.opus.setProfile profile
    ({ dec with opus := r.1 }, r.2)

end AdaptiveDecoder
end Wzp.Codec
