import Wzp.Proto.Trunk
import Wzp.Relay.Rooms

/-!
# Trunk batching

Packets for one peer wait in a batch until it is full or flushed, and then go
out in one datagram. The limit of a batch follows the path's datagram size.
-/
namespace Wzp.Relay
open Bytes Proto

structure TrunkBatcher where
  pending : TrunkFrame
  pendingBytes : ℕ
  maxEntries : ℕ
  maxBytes : ℕ
  deriving DecidableEq, Repr

namespace TrunkBatcher

/-- The count in front of the entries. -/
def frameHeader : ℕ := 2

def new : TrunkBatcher := ⟨.new, frameHeader, 10, 1200⟩

def shouldFlush (b : TrunkBatcher) : Bool :=
  b.pending.len ≥ b.maxEntries || b.pendingBytes ≥ b.maxBytes

/-- Another entry of this size would exceed a limit. -/
def shouldFlushWith (b : TrunkBatcher) (extraBytes : ℕ) : Bool :=
  b.pending.len + 1 > b.maxEntries || b.pendingBytes + extraBytes > b.maxBytes

def takePending (b : TrunkBatcher) : TrunkBatcher × TrunkFrame :=
  ({ b with pending := .new, pendingBytes := frameHeader }, b.pending)

def append (b : TrunkBatcher) (sessionId : UInt8 × UInt8) (payload : Buf) : TrunkBatcher :=
  { b with
    pending := b.pending.push sessionId payload
    pendingBytes := b.pendingBytes + (TrunkEntry.overhead + payload.length) }

/-- The batch is returned when it is full, before or with the new entry. -/
def push (b : TrunkBatcher) (sessionId : UInt8 × UInt8) (payload : Buf) :
    TrunkBatcher × Option TrunkFrame :=
  if b.shouldFlushWith (TrunkEntry.overhead + payload.length) && !b.pending.isEmpty then
    let (b, frame) := b.takePending
    (b.append sessionId payload, some frame)
  else
    let b := b.append sessionId payload
    if b.shouldFlush then
      let (b, frame) := b.takePending
      (b, some frame)
    else (b, none)

def flush (b : TrunkBatcher) : TrunkBatcher × Option TrunkFrame :=
  if b.pending.isEmpty then (b, none)
  else
    let (b, frame) := b.takePending
    (b, some frame)

/-- No more than the ten entries that are the limit wait. -/
structure Limited (b : TrunkBatcher) : Prop where
  maxEntries : b.maxEntries = 10
  pending : b.pending.len ≤ 10

theorem Limited.push {b : TrunkBatcher} (h : b.Limited) (sessionId : UInt8 × UInt8) (payload : Buf) :
    (b.push sessionId payload).1.Limited ∧
      ∀ frame, (b.push sessionId payload).2 = some frame → frame.len ≤ 10 := by
  have hlen : ∀ c : TrunkBatcher, (c.append sessionId payload).pending.len = c.pending.len + 1 :=
    fun c => List.length_append
  rw [TrunkBatcher.push]
  split
  · refine ⟨⟨h.maxEntries, ?_⟩, fun frame hframe => Option.some.inj hframe ▸ h.pending⟩
    exact Nat.le_trans (Nat.le_of_eq (hlen b.takePending.1)) (show 0 + 1 ≤ 10 by decide)
  · rename_i hroom
    have happend : (b.append sessionId payload).pending.len ≤ 10 := by
      rw [hlen]
      cases hempty : b.pending.isEmpty with
      | true =>
          have hzero : b.pending.len = 0 := List.length_eq_zero_iff.mpr (List.isEmpty_iff.mp hempty)
          omega
      | false =>
          rw [hempty, Bool.not_false, Bool.and_true, shouldFlushWith, Bool.or_eq_true, not_or,
            decide_eq_true_eq, h.maxEntries] at hroom
          omega
    dsimp only
    split
    · exact ⟨⟨h.maxEntries, Nat.zero_le 10⟩, fun frame hframe => Option.some.inj hframe ▸ happend⟩
    · exact ⟨⟨h.maxEntries, happend⟩, fun frame hframe => nomatch hframe⟩

theorem Limited.flush {b : TrunkBatcher} (h : b.Limited) :
    b.flush.1.Limited ∧ ∀ frame, b.flush.2 = some frame → frame.len ≤ 10 := by
  rw [TrunkBatcher.flush]
  split
  · exact ⟨h, fun frame hframe => nomatch hframe⟩
  · exact ⟨⟨h.maxEntries, Nat.zero_le 10⟩, fun frame hframe => Option.some.inj hframe ▸ h.pending⟩

end TrunkBatcher

/-- Batches the packets for the participant whose transport it has. -/
structure TrunkedForwarder where
  transport : ParticipantId
  batcher : TrunkBatcher
  sessionId : UInt8 × UInt8
  deriving DecidableEq, Repr

namespace TrunkedForwarder

/-- The limit is taken from the path where its datagram size is known. -/
def refresh (b : TrunkBatcher) (mtu : Option ℕ) : TrunkBatcher :=
  { b with maxBytes := mtu.getD b.maxBytes }

def new (transport : ParticipantId) (sessionId : UInt8 × UInt8) (mtu : Option ℕ) :
    TrunkedForwarder :=
  ⟨transport, refresh .new mtu, sessionId⟩

/-- The frame that is sent at once, if any. -/
def send (f : TrunkedForwarder) (pkt : MediaPacket) (mtu : Option ℕ) :
    TrunkedForwarder × Option TrunkFrame :=
  let (batcher, frame) := (refresh f.batcher mtu).push f.sessionId pkt.toBytes
  ({ f with batcher := batcher }, frame)

def flush (f : TrunkedForwarder) : TrunkedForwarder × Option TrunkFrame :=
  let (batcher, frame) := f.batcher.flush
  ({ f with batcher := batcher }, frame)

end TrunkedForwarder

theorem TrunkBatcher.Limited.send {f : TrunkedForwarder} (h : f.batcher.Limited) (pkt : MediaPacket)
    (mtu : Option ℕ) : (f.send pkt mtu).1.batcher.Limited ∧
      ∀ frame, (f.send pkt mtu).2 = some frame → frame.len ≤ 10 := by
  have hrefreshed : (TrunkedForwarder.refresh f.batcher mtu).Limited := ⟨h.maxEntries, h.pending⟩
  exact hrefreshed.push f.sessionId pkt.toBytes

end Wzp.Relay
