import Mathlib.Algebra.Order.Group.Nat
import Wzp.Proto.Packet

/-!
# Jitter buffer

Packets wait for playout in the order of their sequence numbers. A number that
was played already is late, unless it lies so far back that it must come from a
new sender. Instants are in nanoseconds.
-/
namespace Wzp.Proto

/-- The target depth of a buffer, estimated from the jitter of arrivals. -/
structure AdaptivePlayoutDelay where
  targetDelay : ℕ
  minDelay : ℕ
  maxDelay : ℕ
  jitterEma : Float
  alphaUp : Float
  alphaDown : Float
  lastArrivalMs : Option UInt64
  lastExpectedMs : Option UInt64
  safetyMargin : Float
  spikeDetectedAt : Option ℕ
  spikeCooldown : ℕ
  spikeThresholdMultiplier : Float

namespace AdaptivePlayoutDelay

def frameDurationMs : Float := 20.0
def defaultSafetyMargin : Float := 2.0
def defaultAlpha : Float := 0.05

def new (minDelay maxDelay : ℕ) : AdaptivePlayoutDelay where
  targetDelay := minDelay
  minDelay := minDelay
  maxDelay := maxDelay
  jitterEma := 0.0
  alphaUp := defaultAlpha
  alphaDown := defaultAlpha
  lastArrivalMs := none
  lastExpectedMs := none
  safetyMargin := defaultSafetyMargin
  spikeDetectedAt := none
  spikeCooldown := 2000000000
  spikeThresholdMultiplier := 3.0

/-- The estimate after an arrival that is not the first. -/
def adjust (d : AdaptivePlayoutDelay) (now : ℕ) (actualDelta expectedDelta : Float) :
    AdaptivePlayoutDelay :=
  let jitter := (actualDelta - expectedDelta).abs
  let spike := if d.jitterEma > 0 && jitter > d.jitterEma * d.spikeThresholdMultiplier then some now
    else d.spikeDetectedAt
  let alpha := if jitter > d.jitterEma then d.alphaUp else d.alphaDown
  let jitterEma := alpha * jitter + (1.0 - alpha) * d.jitterEma
  let spike := spike.filter fun t => now - t < d.spikeCooldown
  let rawTarget := (jitterEma / frameDurationMs).ceil + d.safetyMargin
  { d with
    jitterEma := jitterEma
    spikeDetectedAt := spike
    targetDelay := if spike.isSome then d.maxDelay
      else max d.minDelay (min rawTarget.toUInt64.toNat d.maxDelay) }

def update (d : AdaptivePlayoutDelay) (now : ℕ) (arrivalMs expectedMs : UInt64) :
    AdaptivePlayoutDelay :=
  let d := match d.lastArrivalMs, d.lastExpectedMs with
    | some lastArrival, some lastExpected =>
        d.adjust now (arrivalMs.toFloat - lastArrival.toFloat)
          (expectedMs.toFloat - lastExpected.toFloat)
    | _, _ => d
  { d with lastArrivalMs := some arrivalMs, lastExpectedMs := some expectedMs }

end AdaptivePlayoutDelay

structure JitterStats where
  packetsReceived : ℕ
  packetsPlayed : ℕ
  packetsLost : ℕ
  packetsLate : ℕ
  packetsDuplicate : ℕ
  currentDepth : ℕ
  totalDecoded : ℕ
  underruns : ℕ
  overruns : ℕ
  maxDepthSeen : ℕ
  deriving DecidableEq, Repr

def JitterStats.default : JitterStats := ⟨0, 0, 0, 0, 0, 0, 0, 0, 0, 0⟩

/-- Serial number comparison, within half of sixteen bits. -/
def seqBefore (a b : UInt32) : Bool := 0 < b - a && b - a < 0x8000

/-- The buffer is a map from sequence numbers, kept in their numerical order. -/
structure JitterBuffer where
  buffer : List (UInt32 × MediaPacket)
  nextPlayoutSeq : UInt32
  maxDepth : ℕ
  targetDepth : ℕ
  minDepth : ℕ
  initialized : Bool
  stats : JitterStats
  adaptive : Option AdaptivePlayoutDelay

inductive PlayoutResult where
  | packet (p : MediaPacket)
  | missing (seq : UInt32)
  | notReady
  deriving DecidableEq, Repr

namespace JitterBuffer

def new (targetDepth maxDepth minDepth : ℕ) : JitterBuffer :=
  ⟨[], 0, maxDepth, targetDepth, minDepth, false, .default, none⟩

def newAdaptive (minDelay maxDelay : ℕ) : JitterBuffer :=
  ⟨[], 0, maxDelay, minDelay, minDelay, false, .default, some (.new minDelay maxDelay)⟩

def depth (jb : JitterBuffer) : ℕ := jb.buffer.length

def containsKey (jb : JitterBuffer) (seq : UInt32) : Bool := jb.buffer.any fun e => e.1 = seq

def insertSorted (seq : UInt32) (packet : MediaPacket) :
    List (UInt32 × MediaPacket) → List (UInt32 × MediaPacket)
  | [] => [(seq, packet)]
  | (k, p) :: rest =>
      if seq < k then (seq, packet) :: (k, p) :: rest
      else if seq = k then (seq, packet) :: rest
      else (k, p) :: insertSorted seq packet rest

/-- The first packets are dropped until the buffer is not too deep. -/
def evict (jb : JitterBuffer) : List (UInt32 × MediaPacket) → JitterBuffer
  | [] => { jb with buffer := [] }
  | (oldestSeq, p) :: rest =>
      if jb.maxDepth < rest.length + 1 then
        let stats := { jb.stats with overruns := jb.stats.overruns + 1 }
        if seqBefore jb.nextPlayoutSeq (oldestSeq + 1) then
          evict { jb with
            nextPlayoutSeq := oldestSeq + 1
            stats := { stats with packetsLost := stats.packetsLost + 1 } } rest
        else evict { jb with stats := stats } rest
      else { jb with buffer := (oldestSeq, p) :: rest }

def recordDepth (jb : JitterBuffer) : JitterBuffer :=
  { jb with stats := { jb.stats with
      currentDepth := jb.depth
      maxDepthSeen := max jb.stats.maxDepthSeen jb.depth } }

/-- The packet is counted, and the first one sets where playout begins. -/
def receive (jb : JitterBuffer) (seq : UInt32) : JitterBuffer :=
  { jb with
    stats := { jb.stats with packetsReceived := jb.stats.packetsReceived + 1 }
    nextPlayoutSeq := if jb.initialized then jb.nextPlayoutSeq else seq
    initialized := true }

/-- The packet is neither a duplicate nor late. `tune` adapts the depth. -/
def accept (jb : JitterBuffer) (packet : MediaPacket) (tune : JitterBuffer → JitterBuffer) :
    JitterBuffer :=
  let seq := packet.header.seq
  let jb := if jb.stats.packetsPlayed = 0 && seqBefore seq jb.nextPlayoutSeq then
      { jb with nextPlayoutSeq := seq }
    else jb
  let jb := tune jb
  (jb.evict (insertSorted seq packet jb.buffer)).recordDepth

/-- What both ways to push have in common: a jump back by more than 100 is taken
for a new sender. -/
def pushTuned (jb : JitterBuffer) (packet : MediaPacket) (tune : JitterBuffer → JitterBuffer) :
    JitterBuffer :=
  let seq := packet.header.seq
  let jb := jb.receive seq
  if jb.containsKey seq then
    { jb with stats := { jb.stats with packetsDuplicate := jb.stats.packetsDuplicate + 1 } }
  else if 0 < jb.stats.packetsPlayed && seqBefore seq jb.nextPlayoutSeq then
    if 100 < jb.nextPlayoutSeq - seq then
      accept { jb with
        buffer := []
        nextPlayoutSeq := seq
        stats := { jb.stats with packetsLate := 0 } } packet tune
    else { jb with stats := { jb.stats with packetsLate := jb.stats.packetsLate + 1 } }
  else jb.accept packet tune

/-- The estimator is fed, the timestamp standing in for the time of arrival. -/
def tune (now : ℕ) (packet : MediaPacket) (jb : JitterBuffer) : JitterBuffer :=
  match jb.adaptive with
  | none => jb
  | some d =>
      let expectedMs := packet.header.timestamp.toUInt64
      let d := d.update now expectedMs expectedMs
      { jb with
        adaptive := some d
        targetDepth := d.targetDelay
        minDepth := min jb.minDepth d.targetDelay }

def push (jb : JitterBuffer) (now : ℕ) (packet : MediaPacket) : JitterBuffer :=
  jb.pushTuned packet (tune now packet)

/-- With a time of arrival the estimator leaves the depth before playout alone. -/
def tuneWithArrival (now : ℕ) (arrivalMs : UInt64) (packet : MediaPacket) (jb : JitterBuffer) :
    JitterBuffer :=
  match jb.adaptive with
  | none => jb
  | some d =>
      let d := d.update now arrivalMs packet.header.timestamp.toUInt64
      { jb with adaptive := some d, targetDepth := d.targetDelay }

def pushWithArrival (jb : JitterBuffer) (now : ℕ) (packet : MediaPacket) (arrivalMs : UInt64) :
    JitterBuffer :=
  jb.pushTuned packet (tuneWithArrival now arrivalMs packet)

def reset (jb : JitterBuffer) : JitterBuffer :=
  { jb with buffer := [], initialized := false, stats := .default }

def recordUnderrun (jb : JitterBuffer) : JitterBuffer :=
  { jb with stats := { jb.stats with underruns := jb.stats.underruns + 1 } }

def recordDecode (jb : JitterBuffer) : JitterBuffer :=
  { jb with stats := { jb.stats with totalDecoded := jb.stats.totalDecoded + 1 } }

def resetStats (jb : JitterBuffer) : JitterBuffer :=
  { jb with stats := { JitterStats.default with currentDepth := jb.buffer.length } }

def setTargetDepth (jb : JitterBuffer) (depth : ℕ) : JitterBuffer :=
  { jb with targetDepth := min depth jb.maxDepth }

def pop (jb : JitterBuffer) : PlayoutResult × JitterBuffer :=
  if !jb.initialized then (.notReady, jb)
  else if jb.buffer.length < jb.minDepth && jb.stats.packetsPlayed = 0 then (.notReady, jb)
  else
    let seq := jb.nextPlayoutSeq
    let buffer := jb.buffer.filter fun e => e.1 ≠ seq
    match jb.buffer.find? fun e => e.1 = seq with
    | some e => (.packet e.2,
        { jb with
          nextPlayoutSeq := seq + 1
          buffer := buffer
          stats := { jb.stats with
            packetsPlayed := jb.stats.packetsPlayed + 1
            currentDepth := buffer.length } })
    | none => (.missing seq,
        { jb with
          nextPlayoutSeq := seq + 1
          stats := { jb.stats with
            packetsLost := jb.stats.packetsLost + 1
            currentDepth := jb.buffer.length } })

end JitterBuffer

/-! ## Depths -/

/-- The target stays in the range, which the clamp of the source requires to be
one. -/
structure AdaptivePlayoutDelay.Ranged (d : AdaptivePlayoutDelay) : Prop where
  range : d.minDelay ≤ d.maxDelay
  target : d.minDelay ≤ d.targetDelay

namespace AdaptivePlayoutDelay

theorem new_ranged {minDelay maxDelay : ℕ} (h : minDelay ≤ maxDelay) :
    (new minDelay maxDelay).Ranged := ⟨h, Nat.le_refl _⟩

theorem adjust_ranged {d : AdaptivePlayoutDelay} (h : d.Ranged) (now : ℕ) (a e : Float) :
    (d.adjust now a e).Ranged := by
  have htarget : ∀ (held : Bool) (raw : ℕ), d.minDelay ≤
      if held = true then d.maxDelay else max d.minDelay (min raw d.maxDelay) := by
    intro held raw
    cases held with
    | false => exact Nat.le_max_left _ _
    | true => exact h.range
  exact ⟨h.range, htarget _ _⟩

theorem update_ranged {d : AdaptivePlayoutDelay} (h : d.Ranged) (now : ℕ) (a e : UInt64) :
    (d.update now a e).Ranged := by
  unfold update
  split
  · rename_i lastArrival lastExpected _ _
    obtain ⟨hrange, htarget⟩ := adjust_ranged h now (a.toFloat - lastArrival.toFloat)
      (e.toFloat - lastExpected.toFloat)
    exact ⟨hrange, htarget⟩
  · exact ⟨h.range, h.target⟩

@[simp] theorem update_minDelay (d : AdaptivePlayoutDelay) (now : ℕ) (a e : UInt64) :
    (d.update now a e).minDelay = d.minDelay := by
  unfold update
  split
  · rfl
  · rfl

end AdaptivePlayoutDelay

namespace JitterBuffer

/-- The estimator never asks for less than the depth before playout. -/
def Settled (jb : JitterBuffer) : Prop :=
  ∀ d, jb.adaptive = some d → jb.minDepth ≤ d.minDelay ∧ d.Ranged

/-- The estimator leaves the packets and the counters alone, and a settled depth. -/
theorem tune_settled {jb : JitterBuffer} (h : jb.Settled) (now : ℕ) (packet : MediaPacket) :
    ∃ adaptive target, jb.tune now packet = { jb with adaptive := adaptive, targetDepth := target } ∧
      (jb.tune now packet).Settled := by
  unfold tune
  split
  · exact ⟨jb.adaptive, jb.targetDepth, rfl, h⟩
  · rename_i d hd
    obtain ⟨hle, hranged⟩ := h d hd
    have hnext := AdaptivePlayoutDelay.update_ranged hranged now packet.header.timestamp.toUInt64
      packet.header.timestamp.toUInt64
    have hmin : jb.minDepth ≤ (d.update now packet.header.timestamp.toUInt64
        packet.header.timestamp.toUInt64).minDelay := by
      rw [AdaptivePlayoutDelay.update_minDelay]
      exact hle
    dsimp only
    rw [Nat.min_eq_left (hmin.trans hnext.target)]
    refine ⟨_, _, rfl, ?_⟩
    intro e he
    obtain rfl := Option.some.inj he
    exact ⟨hmin, hnext⟩

end JitterBuffer
end Wzp.Proto
