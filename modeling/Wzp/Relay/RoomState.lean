import Wzp.Lib.Table
import Wzp.Proto.Quality
import Wzp.Relay.Presence

/-!
# The state of the rooms

All that the room manager keeps: the rooms with the quality of each participant,
and beside them the keyframes, the owners of streams, the times of picture loss
indications and the layers of receivers. Instants are in nanoseconds.
-/
namespace Wzp.Relay.Sfu
open Bytes Proto

def defaultSignalVersion : UInt8 := 1

structure RoomUpdate where
  version : UInt8
  count : UInt32
  participants : List RoomParticipant
  deriving DecidableEq, Repr

structure QualityDirective where
  version : UInt8
  recommendedProfile : QualityProfile
  reason : Option String

/-! ## Participants and rooms -/

structure ParticipantQuality where
  controller : AdaptiveQualityController
  currentTier : Tier

namespace ParticipantQuality

def new : ParticipantQuality := ⟨.new, .good⟩

/-- The new tier is returned if it changed. -/
def observe (pq : ParticipantQuality) (now : ℕ) (report : QualityReport) :
    ParticipantQuality × Option Tier :=
  let controller := (pq.controller.observe now report).1
  if controller.tier ≠ pq.currentTier then (⟨controller, controller.tier⟩, some controller.tier)
  else (⟨controller, pq.currentTier⟩, none)

end ParticipantQuality

def weakestTier (qualities : List ParticipantQuality) : Tier :=
  (qualities.map ParticipantQuality.currentTier).min?.getD .good

structure Room where
  participants : List Participant
  qualities : Table ParticipantId ParticipantQuality
  currentTier : Tier

namespace Room

def new : Room := ⟨[], ∅, .good⟩

def add (r : Room) (id : ParticipantId) (sender : ParticipantSender)
    (fingerprint «alias» : Option String) : Room :=
  { r with participants := r.participants ++ [⟨id, sender, fingerprint, «alias»⟩] }

def remove (r : Room) (id : ParticipantId) : Room :=
  { r with participants := r.participants.filter (·.id ≠ id) }

/-- Also returns who was removed. -/
def removeByFingerprint (r : Room) (fingerprint : String) : Room × List ParticipantId :=
  let removed := (r.participants.filter (·.fingerprint = some fingerprint)).map Participant.id
  ({ r with
      participants := r.participants.filter (·.fingerprint ≠ some fingerprint)
      qualities := removed.foldl Table.erase r.qualities }, removed)

/-- The room without those whom a participant with this fingerprint replaces. -/
def replace (r : Room) (fingerprint : Option String) : Room × List ParticipantId :=
  match fingerprint with
  | some fp => r.removeByFingerprint fp
  | none => (r, [])

def contains (r : Room) (id : ParticipantId) : Bool := r.participants.any (·.id = id)

def othersWithId (r : Room) (id : ParticipantId) : List Participant :=
  r.participants.filter (·.id ≠ id)

def participantList (r : Room) : List RoomParticipant :=
  r.participants.map fun p =>
    { fingerprint := p.fingerprint.getD "", «alias» := p.alias, relayLabel := none }

def isEmpty (r : Room) : Bool := r.participants.isEmpty

/-- The tier of the room follows the weakest participant once a tier has changed. -/
def observe (r : Room) (id : ParticipantId) (now : ℕ) (report : QualityReport) :
    Room × Option QualityDirective :=
  match r.qualities.lookup id with
  | none => (r, none)
  | some pq =>
      let (pq, changed) := pq.observe now report
      let r := { r with qualities := r.qualities.insert id pq }
      let weakest := weakestTier r.qualities.values
      if changed.isNone ∨ weakest = r.currentTier then (r, none)
      else
        ({ r with currentTier := weakest },
          some ⟨defaultSignalVersion, weakest.profile, some ("weakest link: " ++ weakest.debug)⟩)

def update (r : Room) : RoomUpdate :=
  ⟨defaultSignalVersion, UInt32.ofNat r.participants.length, r.participantList⟩

end Room

/-! ## Beside the rooms -/

structure ReceiverState where
  bweKbps : UInt32
  lossPct : UInt8
  selectedLayer : UInt8
  candidateLayer : UInt8
  candidateSince : ℕ
  deriving DecidableEq, Repr

def simulcastHighThresholdKbps : UInt32 := 3000
def simulcastMidThresholdKbps : UInt32 := 750
def layerSwitchHysteresisMs : ℕ := 3000

namespace ReceiverState

def new (now : ℕ) : ReceiverState := ⟨0, 0, 0, 0, now⟩

def suggestLayer (bweKbps : UInt32) (lossPct : UInt8) : UInt8 :=
  if bweKbps > simulcastHighThresholdKbps ∧ lossPct < 2 then 2
  else if bweKbps > simulcastMidThresholdKbps then 1
  else 0

/-- The first measurement counts at once, a later one once it has lasted. -/
def update (s : ReceiverState) (bweKbps : UInt32) (lossPct : UInt8) (now : ℕ) : ReceiverState :=
  let isFirst := s.bweKbps = 0
  let s := { s with bweKbps := bweKbps, lossPct := lossPct }
  let suggested := suggestLayer bweKbps lossPct
  if suggested = s.selectedLayer then { s with candidateLayer := suggested, candidateSince := now }
  else if isFirst then
    { s with selectedLayer := suggested, candidateLayer := suggested, candidateSince := now }
  else if suggested ≠ s.candidateLayer then
    { s with candidateLayer := suggested, candidateSince := now }
  else if (now - s.candidateSince) / 1000000 ≥ layerSwitchHysteresisMs then
    { s with selectedLayer := suggested }
  else s

end ReceiverState

def keyframeCacheMaxBytes : ℕ := 200000

structure KeyframeCacheEntry where
  packets : List MediaPacket
  sequenceFirst : UInt32
  timestampMs : UInt32
  totalBytes : ℕ
  deriving DecidableEq, Repr

structure KeyframeBuffer where
  packets : List MediaPacket
  sequenceFirst : UInt32
  timestampMs : UInt32
  totalBytes : ℕ
  deriving DecidableEq, Repr

namespace KeyframeBuffer

/-- The buffer of a stream, if there is one, with one more packet. It starts
afresh when it would overflow. -/
def push (buffer : Option KeyframeBuffer) (pkt : MediaPacket) : KeyframeBuffer :=
  let h := pkt.header
  let entry := buffer.getD ⟨[], h.seq, h.timestamp, 0⟩
  let entry := if entry.totalBytes + pkt.payload.length > keyframeCacheMaxBytes then
      ⟨[], h.seq, h.timestamp, 0⟩
    else entry
  { entry with
    packets := entry.packets ++ [pkt]
    totalBytes := entry.totalBytes + pkt.payload.length }

def completed (buffer : KeyframeBuffer) : KeyframeCacheEntry :=
  ⟨buffer.packets, buffer.sequenceFirst, buffer.timestampMs, buffer.totalBytes⟩

/-- What is left in the buffer when its packets have been taken. -/
def taken (buffer : KeyframeBuffer) : KeyframeBuffer := { buffer with packets := [], totalBytes := 0 }

end KeyframeBuffer

structure PliState where
  lastPli : ℕ
  deriving DecidableEq, Repr

def pliSuppressMs : ℕ := 200

/-- A stream as its sender numbers it. -/
abbrev StreamKey := RoomName × ParticipantId × UInt8

/-- `events` is what was sent on the event channel, `nextParticipantId` the
counter of the process. -/
structure RoomManager where
  rooms : Table RoomName Room
  acl : Option (Table RoomName (List String))
  events : List RoomEvent
  nextParticipantId : ParticipantId
  keyframeCache : Table StreamKey KeyframeCacheEntry
  keyframeBuffer : Table StreamKey KeyframeBuffer
  pliState : Table StreamKey PliState
  streamOwner : Table (RoomName × UInt8) ParticipantId
  receiverStates : Table (RoomName × ParticipantId) ReceiverState

/-- What a participant that joined is told. -/
structure Joined where
  participantId : ParticipantId
  update : RoomUpdate
  senders : List Participant
  keyframes : List (List MediaPacket)

namespace RoomManager

def new (nextParticipantId : ParticipantId) : RoomManager :=
  ⟨∅, none, [], nextParticipantId, ∅, ∅, ∅, ∅, ∅⟩

def withAcl (nextParticipantId : ParticipantId) : RoomManager :=
  ⟨∅, some ∅, [], nextParticipantId, ∅, ∅, ∅, ∅, ∅⟩

def allow (m : RoomManager) (room : RoomName) (fingerprint : String) : RoomManager :=
  { m with acl := m.acl.map fun acl =>
      acl.insert room (fingerprint :: (acl.lookup room).getD []) }

/-- A room that is not in the list is open to everyone with a fingerprint. -/
def isAuthorized (m : RoomManager) (room : RoomName) (fingerprint : Option String) : Bool :=
  match m.acl, fingerprint with
  | none, _ => true
  | some _, none => false
  | some acl, some fp =>
      match acl.lookup room with
      | none => true
      | some allowed => allowed.contains fp

def containsParticipant (m : RoomManager) (room : RoomName) (id : ParticipantId) : Bool :=
  ((m.rooms.lookup room).map (·.contains id)).getD false

def localSenders (m : RoomManager) (room : RoomName) : List Participant :=
  ((m.rooms.lookup room).map Room.participants).getD []

def othersWithId (m : RoomManager) (room : RoomName) (id : ParticipantId) : List Participant :=
  ((m.rooms.lookup room).map (·.othersWithId id)).getD []

def clearRoomState (m : RoomManager) (room : RoomName) : RoomManager :=
  { m with
    keyframeCache := m.keyframeCache.retain fun k _ => k.1 ≠ room
    keyframeBuffer := m.keyframeBuffer.retain fun k _ => k.1 ≠ room
    pliState := m.pliState.retain fun k _ => k.1 ≠ room
    streamOwner := m.streamOwner.retain fun k _ => k.1 ≠ room
    receiverStates := m.receiverStates.retain fun k _ => k.1 ≠ room }

def clearParticipantState (m : RoomManager) (room : RoomName) (id : ParticipantId) :
    RoomManager :=
  { m with
    keyframeCache := m.keyframeCache.retain fun k _ => ¬ (k.1 = room ∧ k.2.1 = id)
    keyframeBuffer := m.keyframeBuffer.retain fun k _ => ¬ (k.1 = room ∧ k.2.1 = id)
    pliState := m.pliState.retain fun k _ => ¬ (k.1 = room ∧ k.2.1 = id)
    streamOwner := m.streamOwner.retain fun k owner => ¬ (k.1 = room ∧ owner = id)
    receiverStates := m.receiverStates.retain fun k _ => ¬ (k.1 = room ∧ k.2 = id) }

def clearParticipants (m : RoomManager) (room : RoomName) (ids : List ParticipantId) :
    RoomManager :=
  ids.foldl (fun m id => m.clearParticipantState room id) m

def cachedKeyframesForRoom (m : RoomManager) (room : RoomName) : List (List MediaPacket) :=
  (m.keyframeCache.entries.filter (·.1.1 = room)).map fun e =>
    e.2.packets.map (withOutboundVideoStreamId · e.1.2.1)

def wasEmpty (m : RoomManager) (room : RoomName) : Bool :=
  ((m.rooms.lookup room).map Room.isEmpty).getD true

/-- What a join does while it holds the room's entry. -/
def enter (m : RoomManager) (room : RoomName) (sender : ParticipantSender)
    (fingerprint «alias» : Option String) (wasEmpty : Bool) : RoomManager × Joined :=
  let (r, removed) := ((m.rooms.lookup room).getD .new).replace fingerprint
  let m := m.clearParticipants room removed
  let id := m.nextParticipantId
  let r := r.add id sender fingerprint «alias»
  let r := { r with qualities := r.qualities.insert id .new }
  let m := { m with
    rooms := m.rooms.insert room r
    nextParticipantId := id + 1
    events := if wasEmpty then m.events ++ [.localJoin room] else m.events }
  (m, ⟨id, r.update, r.participants, m.cachedKeyframesForRoom room⟩)

def join (m : RoomManager) (room : RoomName) (sender : ParticipantSender)
    (fingerprint «alias» : Option String) : RoomManager × Except String Joined :=
  if m.isAuthorized room fingerprint then
    let (m, joined) := m.enter room sender fingerprint «alias» (m.wasEmpty room)
    (m, .ok joined)
  else (m, .error "not authorized for this room")

def joinWs (m : RoomManager) (room : RoomName) (fingerprint : Option String) :
    RoomManager × Except String ParticipantId :=
  let (m, joined) := m.join room .webSocket fingerprint none
  (m, joined.map Joined.participantId)

/-- What a leave does while it holds the room's entry. The room is returned as
it is then. -/
def depart (m : RoomManager) (room : RoomName) (id : ParticipantId) : RoomManager × Option Room :=
  match m.rooms.lookup room with
  | some r =>
      let r := { r with qualities := r.qualities.erase id }.remove id
      ({ m with rooms := m.rooms.insert room r }.clearParticipantState room id, some r)
  | none => (m, none)

def removeRoom (m : RoomManager) (room : RoomName) : RoomManager :=
  { m with rooms := m.rooms.erase room }

def send (m : RoomManager) (event : RoomEvent) : RoomManager :=
  { m with events := m.events ++ [event] }

/-- Nothing is returned when the room is gone, or was not there. -/
def leave (m : RoomManager) (room : RoomName) (id : ParticipantId) :
    RoomManager × Option (RoomUpdate × List Participant) :=
  match m.depart room id with
  | (m, some r) =>
      if r.isEmpty then (((m.removeRoom room).clearRoomState room).send (.localLeave room), none)
      else (m, some (r.update, r.participants))
  | (m, none) => (m, none)

/-- A keyframe is gathered packet by packet and stored with its last one. -/
def updateKeyframeCache (m : RoomManager) (room : RoomName) (sender : ParticipantId)
    (pkt : MediaPacket) : RoomManager :=
  let h := pkt.header
  if h.isRepair then m
  else
    let key := (room, sender, h.streamId)
    if h.isKeyframe then
      let entry := KeyframeBuffer.push (m.keyframeBuffer.lookup key) pkt
      if h.isFrameEnd then
        { m with
          keyframeCache := m.keyframeCache.insert key entry.completed
          keyframeBuffer := m.keyframeBuffer.insert key entry.taken }
      else { m with keyframeBuffer := m.keyframeBuffer.insert key entry }
    else { m with keyframeBuffer := m.keyframeBuffer.erase key }

/-- The participant becomes the owner of the stream it sent on, and for video of
the stream its packets are forwarded on. -/
def registerStream (m : RoomManager) (room : RoomName) (id : ParticipantId) (pkt : MediaPacket) :
    RoomManager :=
  if pkt.header.isRepair then m
  else
    let owners := m.streamOwner.insert (room, pkt.header.streamId) id
    { m with
      streamOwner :=
        if pkt.header.mediaType = .video then owners.insert (room, outboundVideoStreamId id) id
        else owners }

/-- The last indication for the stream and its owner was less than 200 ms ago. -/
def pliSuppressed (m : RoomManager) (room : RoomName) (streamId : UInt8) (now : ℕ)
    (sender : ParticipantId) : Bool :=
  (m.pliState.lookup (room, sender, streamId)).any fun s =>
    (now - s.lastPli) / 1000000 < pliSuppressMs

/-- The owner of the stream, unless the indication is suppressed. -/
def shouldForwardPli (m : RoomManager) (room : RoomName) (streamId : UInt8) (now : ℕ) :
    RoomManager × Option ParticipantId :=
  match m.streamOwner.lookup (room, streamId) with
  | none => (m, none)
  | some sender =>
      if m.pliSuppressed room streamId now sender then (m, none)
      else ({ m with pliState := m.pliState.insert (room, sender, streamId) ⟨now⟩ }, some sender)

/-- The participants that a receiver's indication is sent to. -/
def forwardPli (m : RoomManager) (room : RoomName) (receiver : ParticipantId) (streamId : UInt8)
    (now : ℕ) : RoomManager × List Participant :=
  match m.shouldForwardPli room streamId now with
  | (m, some _target) => (m, (m.othersWithId room receiver).filter (·.sender = .quic))
  | (m, none) => (m, [])

def updateReceiverState (m : RoomManager) (room : RoomName) (receiver : ParticipantId)
    (bweKbps : UInt32) (lossPct : UInt8) (now : ℕ) : RoomManager :=
  let entry := (m.receiverStates.lookup (room, receiver)).getD (.new now)
  { m with
    receiverStates := m.receiverStates.insert (room, receiver) (entry.update bweKbps lossPct now) }

def selectedLayer (m : RoomManager) (room : RoomName) (receiver : ParticipantId) : UInt8 :=
  ((m.receiverStates.lookup (room, receiver)).map ReceiverState.selectedLayer).getD 0

/-- A directive for everybody in the room, if the weakest tier changed. -/
def observeQuality (m : RoomManager) (room : RoomName) (id : ParticipantId) (now : ℕ)
    (report : QualityReport) : RoomManager × Option (QualityDirective × List Participant) :=
  match m.rooms.lookup room with
  | none => (m, none)
  | some r =>
      let (r, directive) := r.observe id now report
      ({ m with rooms := m.rooms.insert room r }, directive.map fun d => (d, r.participants))

end RoomManager
end Wzp.Relay.Sfu
