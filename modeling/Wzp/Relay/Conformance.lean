import Mathlib.Algebra.Order.Field.Rat
import Wzp.Lib.RateMeters
import Wzp.Proto.Profile

/-!
# The conformance meter

The relay meters the packets of each participant. A packet is checked for the
bytes and packets of the current second, for the drift of timestamps against
sequence numbers, for the smoothed payload size and for a token bucket. Instants
are in nanoseconds, and numbers in floating point are taken as rationals.
-/
namespace Wzp.Relay
open Bytes Proto RateMeters

def driftWindowSize : ℕ := 200

inductive Violation where
  | bitrateExceeded
  | packetRateExceeded
  | timestampDrift
  | payloadSizeExceeded
  | rateCapExceeded
  deriving DecidableEq, Repr

inductive TokenExhausted where
  | tokenExhausted
  deriving DecidableEq, Repr

structure TokenBucket where
  capacity : ℕ
  tokens : ℚ
  refillPerSec : ℕ
  lastRefill : ℤ

/-- A second, in nanoseconds. -/
def second : ℕ := 1000000000

namespace TokenBucket

def new (capacity refillPerSec : ℕ) (now : ℤ) : TokenBucket :=
  ⟨capacity, capacity, refillPerSec, now⟩

/-- 256 kbps, with a burst of 30 seconds at twice that. -/
def forAudioSession (now : ℤ) : TokenBucket :=
  let refillPerSec := 256000 / 8
  new (refillPerSec * 30 * 2) refillPerSec now

def refill (b : TokenBucket) (now : ℤ) : TokenBucket :=
  let elapsed := durationSince now b.lastRefill
  let tokens := b.tokens + elapsed / second * b.refillPerSec
  { b with
    lastRefill := now
    tokens := if b.capacity < tokens then b.capacity else tokens }

def tryConsume (b : TokenBucket) (bytes : ℕ) (now : ℤ) : TokenBucket × Except TokenExhausted Unit :=
  let b := b.refill now
  if bytes ≤ b.tokens then ({ b with tokens := b.tokens - bytes }, .ok ())
  else (b, .error .tokenExhausted)

end TokenBucket

/-- Three times the nominal bitrate for FEC and 15% more, at least 2 kbps. -/
def ceilingBps (codec : CodecId) : ℕ := max (codec.bitrateBps.toNat * 3 * 115 / 100) 2000

def maxPps (codec : CodecId) : ℕ :=
  let fd := codec.frameDurationMs.toNat
  if fd = 0 then 0 else 1000 / fd * 3

def payloadSizeBound : CodecId → ℕ
  | .opus64k => 320
  | .opus48k => 240
  | .opus32k => 200
  | .opus24k => 160
  | .opus16k => 100
  | .opus6k => 90
  | .codec2_3200 => 30
  | .codec2_1200 => 30
  | .comfortNoise => 16
  | .h264Baseline | .h265Main | .av1Main => 1400

structure ConformanceMeter where
  windowStart : ℤ
  bytesInWindow : ℕ
  packetsInWindow : ℕ
  /-- Sequence numbers and timestamps. -/
  driftWindow : List (UInt32 × UInt32)
  ewmaPayloadSize : ℚ
  tokenBucket : Option TokenBucket

namespace ConformanceMeter

def new (now : ℤ) : ConformanceMeter := ⟨now, 0, 0, [], 0, none⟩

def withTokenBucket (bucket : TokenBucket) (now : ℤ) : ConformanceMeter :=
  { new now with tokenBucket := some bucket }

def rollWindow (m : ConformanceMeter) (now : ℤ) : ConformanceMeter :=
  if second ≤ durationSince now m.windowStart then
    { m with windowStart := now, bytesInWindow := 0, packetsInWindow := 0 }
  else m

/-- The average time per packet between two packets is less than half a frame or
more than two. -/
def driftsApart (codec : CodecId) (first last : UInt32 × UInt32) : Bool :=
  let ds := (last.1 - first.1).toNat
  let dt := (last.2 - first.2).toNat
  let avgMsPerPacket : ℚ := dt / ds
  let frameMs : ℚ := codec.frameDurationMs.toNat
  0 < ds && (avgMsPerPacket < frameMs * (1 / 2) || frameMs * 2 < avgMsPerPacket)

def drifts (codec : CodecId) (window : List (UInt32 × UInt32)) : Bool :=
  match window.head?, window.getLast? with
  | some first, some last => 2 ≤ window.length && driftsApart codec first last
  | _, _ => false

def observe (m : ConformanceMeter) (header : MediaHeader) (payloadLen : ℕ) (now : ℤ) :
    ConformanceMeter × Except Violation Unit :=
  let m := m.rollWindow now
  let packetSize := MediaHeader.wireSize + payloadLen
  let m := { m with
    bytesInWindow := m.bytesInWindow + packetSize
    packetsInWindow := m.packetsInWindow + 1 }
  if ceilingBps header.codecId / 8 < m.bytesInWindow then (m, .error .bitrateExceeded)
  -- the limit in packets is rounded down
  else if maxPps header.codecId * 3 / 2 < m.packetsInWindow then (m, .error .packetRateExceeded)
  else
    let m := { m with
      driftWindow := trail driftWindowSize m.driftWindow (header.seq, header.timestamp) }
    if drifts header.codecId m.driftWindow then (m, .error .timestampDrift)
    else
      let alpha : ℚ := 1 / 20
      let m := { m with
        ewmaPayloadSize := alpha * payloadLen + (1 - alpha) * m.ewmaPayloadSize }
      if ((payloadSizeBound header.codecId * 2 : ℕ) : ℚ) < m.ewmaPayloadSize then
        (m, .error .payloadSizeExceeded)
      else
        match m.tokenBucket with
        | none => (m, .ok ())
        | some bucket =>
            let (bucket, result) := bucket.tryConsume packetSize now
            let m := { m with tokenBucket := some bucket }
            match result with
            | .ok () => (m, .ok ())
            | .error _ => (m, .error .rateCapExceeded)

end ConformanceMeter
end Wzp.Relay
