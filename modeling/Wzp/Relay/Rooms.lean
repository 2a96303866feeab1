import Wzp.Proto.Packet
import Mathlib.Data.List.Nodup
import Mathlib.Data.List.Pairwise

/-!
# Rooms of one relay

The part of the room manager that federation reads: the rooms in the order the
map yields them, the participants of each, and how a packet reaches them.
-/
namespace Wzp.Relay
open Bytes Proto

/-- A room name as its UTF-8 bytes. -/
abbrev RoomName := Buf

abbrev ParticipantId := UInt64

inductive ParticipantSender where
  | quic
  | webSocket
  deriving DecidableEq, Repr

structure Participant where
  id : ParticipantId
  sender : ParticipantSender
  fingerprint : Option String
  «alias» : Option String
  deriving DecidableEq, Repr

/-- A participant as it is announced to clients and to other relays. -/
structure RoomParticipant where
  fingerprint : String
  «alias» : Option String
  relayLabel : Option String
  deriving DecidableEq, Repr

/-- Rooms by name. Participant ids come from one counter, so no two
participants of a relay share one. -/
structure RoomManager where
  rooms : List (RoomName × List Participant)
  selectedLayer : RoomName → ParticipantId → UInt8
  ids_nodup : (rooms.flatMap fun r => r.2.map Participant.id).Nodup

namespace RoomManager

def activeRooms (m : RoomManager) : List RoomName := m.rooms.map Prod.fst

/-- The participants of a room, none if there is no such room. -/
def localSenders (m : RoomManager) (room : RoomName) : List Participant :=
  (m.rooms.lookup room).getD []

def othersWithId (m : RoomManager) (room : RoomName) (id : ParticipantId) : List Participant :=
  (m.localSenders room).filter (·.id ≠ id)

def localParticipantList (m : RoomManager) (room : RoomName) : List RoomParticipant :=
  (m.localSenders room).map fun p =>
    { fingerprint := p.fingerprint.getD "", «alias» := p.alias, relayLabel := none }

end RoomManager

/-- Why a video packet passes the receiver's layer filter, if it does. -/
def videoRouteReason (pkt : MediaPacket) (selectedLayer : UInt8) : Option String :=
  if pkt.header.streamId = selectedLayer then some "selected_layer"
  else if pkt.header.codecId = .h264Baseline ∧
      (pkt.header.streamId = 0 ∨ pkt.header.streamId = 1) then
    some "h264_single_layer_compat"
  else none

def outboundVideoStreamId (id : ParticipantId) : UInt8 :=
  UInt8.ofNat ((id.toNat - 1) % 250 + 1)

def withOutboundVideoStreamId (pkt : MediaPacket) (id : ParticipantId) : MediaPacket :=
  if pkt.header.mediaType = .video then
    { pkt with header := { pkt.header with streamId := outboundVideoStreamId id } }
  else pkt

/-- What a participant is sent for a packet that reached the relay directly. -/
def directBytes (pkt : MediaPacket) (sender : ParticipantId) (receiver : Participant) : Buf :=
  match receiver.sender with
  | .quic => (withOutboundVideoStreamId pkt sender).toBytes
  | .webSocket => pkt.payload

/-- The other participants a packet is forwarded to: all, or for video those
whose selected layer it belongs to. -/
def forwardTargets (m : RoomManager) (room : RoomName) (sender : ParticipantId)
    (pkt : MediaPacket) : List Participant :=
  (m.othersWithId room sender).filter fun other =>
    pkt.header.mediaType ≠ .video || (videoRouteReason pkt (m.selectedLayer room other.id)).isSome

/-! ## Participants are counted once -/
namespace RoomManager
variable {m : RoomManager} {room other : RoomName}

theorem lookup_mem {room : RoomName} {rooms : List (RoomName × List Participant)}
    {members : List Participant} (h : rooms.lookup room = some members) :
    (room, members) ∈ rooms := by
  induction rooms with
  | nil => exact nomatch h
  | cons r rooms ih =>
      obtain ⟨name, ps⟩ := r
      rw [List.lookup_cons] at h
      by_cases hname : (room == name) = true
      · rw [hname] at h
        obtain rfl := Option.some.inj h
        rw [eq_of_beq hname]
        exact List.mem_cons_self
      · rw [(Bool.not_eq_true _).mp hname] at h
        exact List.mem_cons_of_mem _ (ih h)

theorem localSenders_mem {p : Participant} (hp : p ∈ m.localSenders room) :
    ∃ members, (room, members) ∈ m.rooms ∧ m.localSenders room = members := by
  rw [localSenders] at hp ⊢
  cases h : m.rooms.lookup room with
  | none =>
      rw [h] at hp
      exact absurd hp List.not_mem_nil
  | some members => exact ⟨members, lookup_mem h, rfl⟩

theorem localSenders_nodup (m : RoomManager) (room : RoomName) :
    ((m.localSenders room).map Participant.id).Nodup := by
  rw [localSenders]
  cases h : m.rooms.lookup room with
  | none => exact List.nodup_nil
  | some members => exact (List.nodup_flatMap.mp m.ids_nodup).1 _ (lookup_mem h)

/-- A participant is in one room only. -/
theorem localSenders_disjoint (hne : room ≠ other) {p q : Participant}
    (hp : p ∈ m.localSenders room) (hq : q ∈ m.localSenders other) : p.id ≠ q.id := by
  obtain ⟨ps, hps, heqp⟩ := localSenders_mem hp
  obtain ⟨qs, hqs, heqq⟩ := localSenders_mem hq
  rw [heqp] at hp
  rw [heqq] at hq
  have hdisjoint := (List.nodup_flatMap.mp m.ids_nodup).2
  have hsymm : Std.Symm (Function.onFun List.Disjoint fun r : RoomName × List Participant =>
      r.2.map Participant.id) := ⟨fun _ _ h x hx hy => h hy hx⟩
  have hpair := hdisjoint.forall hps hqs (fun heq => hne (Prod.mk.inj heq).1)
  intro hid
  exact hpair (List.mem_map_of_mem hp) (hid ▸ List.mem_map_of_mem hq)

end RoomManager
end Wzp.Relay
