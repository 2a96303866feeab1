import Wzp.Client.CallEncoder
import Wzp.Proto.Compact
import Wzp.Proto.JitterWindow

/-!
# Playing a call

The receiving side with all that decides what a frame is decoded from: the codec
is switched to the packet's, gaps are reconstructed from the side channel of a
later packet, else concealed. What the codec backends return comes with the call.
-/
namespace Wzp.Client
open Bytes Proto Fec

inductive Panic where
  | videoCodec
  | emptyRange
  | overflow
  deriving DecidableEq, Repr

theorem ok_bind {α β : Type} (a : α) (f : α → Except Panic β) : (Except.ok a >>= f) = f a := rfl

theorem bind_eq_ok {α β : Type} {x : Except Panic α} {f : α → Except Panic β} {b : β}
    (h : (x >>= f) = .ok b) : ∃ a, x = .ok a ∧ f a = .ok b := by
  cases x with
  | error panic => cases h
  | ok a => exact ⟨a, rfl, h⟩

/-- Multiplication of 32-bit integers, checked as in a debug build. -/
def i32Mul (a b : ℤ) : Except Panic ℤ :=
  if -2 ^ 31 ≤ a * b ∧ a * b < 2 ^ 31 then .ok (a * b) else .error .overflow

def profileForCodec : CodecId → Except Panic QualityProfile
  | .opus24k => .ok .good
  | .opus16k => .ok { QualityProfile.good with
      codec := .opus16k, fecRatio := 0.3, frameDurationMs := 20, framesPerBlock := 5 }
  | .opus6k => .ok .degraded
  | .opus32k => .ok .studio32k
  | .opus48k => .ok .studio48k
  | .opus64k => .ok .studio64k
  | .codec2_3200 => .ok { QualityProfile.good with
      codec := .codec2_3200, fecRatio := 0.5, frameDurationMs := 20, framesPerBlock := 5 }
  | .codec2_1200 => .ok .catastrophic
  | .comfortNoise => .ok .good
  | .h264Baseline | .h265Main | .av1Main => .error .videoCodec

structure CallPlayer where
  dec : CallDecoder
  lastWasCn : Bool
  miniContext : MiniFrameContext
  lastGoodDredSeq : Option UInt32
  lastGoodDredSamples : ℤ
  dredReconstructions : ℕ
  classicalPlcInvocations : ℕ

/-- What the codec backends return in one call to decode; none for an error. -/
structure CodecResults where
  setProfile : Bool
  decode : Option ℕ
  decodeLost : Option ℕ
  reconstructFromDred : Option ℕ
  deriving DecidableEq, Repr

namespace CallPlayer

def new (config : CallConfig) : CallPlayer where
  dec := .new config
  lastWasCn := false
  miniContext := {}
  lastGoodDredSeq := none
  lastGoodDredSamples := 0
  dredReconstructions := 0
  classicalPlcInvocations := 0

def jitter (p : CallPlayer) : JitterBuffer := p.dec.jitter

def setJitter (p : CallPlayer) (jb : JitterBuffer) : CallPlayer :=
  { p with dec := { p.dec with jitter := jb } }

def deserializeCompact (p : CallPlayer) (buf : Buf) : Option MediaPacket × CallPlayer :=
  let (packet, ctx) := MediaPacket.decodeCompact buf p.miniContext
  (packet, { p with miniContext := ctx })

/-- The samples that an Opus frame can stand in for are kept, if it has any. -/
def parseDred (p : CallPlayer) (packet : MediaPacket) (available : Option ℤ) : CallPlayer :=
  match available with
  | some samples =>
      if packet.header.codecId.isOpus && !packet.header.isRepair && 0 < samples then
        { p with lastGoodDredSeq := some packet.header.seq, lastGoodDredSamples := samples }
      else p
  | none => p

/-- `available` is what the parser of the side channel returns. -/
def ingest (p : CallPlayer) (now : ℕ) (packet : MediaPacket) (available : Option ℤ) :
    Except Panic CallPlayer :=
  if !packet.header.isRepair && p.jitter.pushPanics now packet then .error .emptyRange
  else .ok { p.parseDred packet available with dec := p.dec.ingest now packet }

def switchDecoderIfNeeded (p : CallPlayer) (incomingCodec : CodecId) (accepted : Bool) :
    Except Panic CallPlayer :=
  if incomingCodec = p.dec.profile.codec ∨ incomingCodec = .comfortNoise then .ok p
  else do
    let newProfile ← profileForCodec incomingCodec
    if accepted then
      .ok { p with dec := { p.dec with fecDec := createDecoder newProfile, profile := newProfile } }
    else .ok p

def maxSeqDelta : UInt32 := 128

/-- How many samples back the frame lies, `seqDelta` frames behind. -/
def offsetSamples (profile : QualityProfile) (seqDelta : UInt32) : Except Panic ℤ := do
  let samples ← i32Mul 48000 profile.frameDurationMs.toNat
  i32Mul seqDelta.toNat (samples / 1000)

/-- The frame for a gap, if the side channel reaches back to it. -/
def reconstructGap (p : CallPlayer) (seq : UInt32) (reconstructed : Option ℕ) :
    Except Panic (Option ℕ) :=
  match p.lastGoodDredSeq with
  | none => .ok none
  | some lastSeq =>
      let seqDelta := lastSeq - seq
      if p.dec.profile.codec.isOpus && 0 < seqDelta && seqDelta ≤ maxSeqDelta then do
        let offset ← offsetSamples p.dec.profile seqDelta
        if 0 < offset ∧ offset ≤ p.lastGoodDredSamples then .ok reconstructed else .ok none
      else .ok none

/-- A frame that came out is counted. -/
def recordDecoded (p : CallPlayer) (result : Option ℕ) : Option ℕ × CallPlayer :=
  (result, if result.isSome then p.setJitter p.jitter.recordDecode else p)

def decodePacket (p : CallPlayer) (packet : MediaPacket) (pcmLen : ℕ) (codec : CodecResults) :
    Except Panic (Option ℕ × CallPlayer) :=
  if packet.header.codecId = .comfortNoise then
    .ok ({ p with lastWasCn := true }.recordDecoded (some pcmLen))
  else do
    let p ← p.switchDecoderIfNeeded packet.header.codecId codec.setProfile
    .ok ({ p with lastWasCn := false }.recordDecoded (codec.decode <|> codec.decodeLost))

def concealGap (p : CallPlayer) (seq : UInt32) (codec : CodecResults) :
    Except Panic (Option ℕ × CallPlayer) :=
  if p.jitter.depth = 0 then .ok (none, p.setJitter p.jitter.recordUnderrun)
  else do
    match ← p.reconstructGap seq codec.reconstructFromDred with
    | some n =>
        .ok ({ p with dredReconstructions := p.dredReconstructions + 1 }.recordDecoded (some n))
    | none =>
        .ok ({ p with classicalPlcInvocations := p.classicalPlcInvocations + 1 }.recordDecoded
          codec.decodeLost)

def decodeNext (p : CallPlayer) (pcmLen : ℕ) (codec : CodecResults) :
    Except Panic (Option ℕ × CallPlayer) :=
  let popped := p.jitter.pop
  let p := p.setJitter popped.2
  match popped.1 with
  | .packet packet => p.decodePacket packet pcmLen codec
  | .missing seq => p.concealGap seq codec
  | .notReady => .ok (none, p.setJitter p.jitter.recordUnderrun)

/-! ## The buffer after a decode -/

variable {p q : CallPlayer} {packet : MediaPacket} {pcmLen : ℕ} {codec : CodecResults}
  {r : Option ℕ × CallPlayer}

/-- Only what is recorded in the statistics is added. -/
def Recorded (jb jb' : JitterBuffer) : Prop :=
  jb' = jb ∨ jb' = jb.recordDecode ∨ jb' = jb.recordUnderrun

theorem recordDecoded_recorded (p : CallPlayer) (result : Option ℕ) :
    Recorded p.jitter (p.recordDecoded result).2.jitter := by
  unfold recordDecoded
  dsimp only
  split
  · exact Or.inr (Or.inl rfl)
  · exact Or.inl rfl

theorem switchDecoderIfNeeded_jitter {codecId : CodecId} {accepted : Bool}
    (h : p.switchDecoderIfNeeded codecId accepted = .ok q) : q.jitter = p.jitter := by
  unfold switchDecoderIfNeeded at h
  split at h
  · rw [← Except.ok.inj h]
  · obtain ⟨profile, -, hq⟩ := bind_eq_ok h
    split at hq
    · rw [← Except.ok.inj hq]
      rfl
    · rw [← Except.ok.inj hq]

theorem decodePacket_recorded (h : p.decodePacket packet pcmLen codec = .ok r) :
    Recorded p.jitter r.2.jitter := by
  unfold decodePacket at h
  split at h
  · rw [← Except.ok.inj h]
    exact recordDecoded_recorded { p with lastWasCn := true } (some pcmLen)
  · obtain ⟨switched, hswitch, hr⟩ := bind_eq_ok h
    rw [← Except.ok.inj hr, ← switchDecoderIfNeeded_jitter hswitch]
    exact recordDecoded_recorded { switched with lastWasCn := false } _

theorem concealGap_recorded {seq : UInt32} (h : p.concealGap seq codec = .ok r) :
    Recorded p.jitter r.2.jitter := by
  unfold concealGap at h
  split at h
  · rw [← Except.ok.inj h]
    exact Or.inr (Or.inr rfl)
  · obtain ⟨frame, -, hr⟩ := bind_eq_ok h
    cases frame with
    | none =>
        rw [← Except.ok.inj hr]
        exact recordDecoded_recorded
          { p with classicalPlcInvocations := p.classicalPlcInvocations + 1 } codec.decodeLost
    | some n =>
        rw [← Except.ok.inj hr]
        exact recordDecoded_recorded
          { p with dredReconstructions := p.dredReconstructions + 1 } (some n)

theorem decodeNext_recorded (h : p.decodeNext pcmLen codec = .ok r) :
    Recorded p.jitter.pop.2 r.2.jitter := by
  unfold decodeNext at h
  dsimp only at h
  split at h
  · exact decodePacket_recorded h
  · exact concealGap_recorded h
  · rw [← Except.ok.inj h]
    exact Or.inr (Or.inr rfl)

end CallPlayer
end Wzp.Client
