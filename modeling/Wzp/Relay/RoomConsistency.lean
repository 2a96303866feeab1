import Wzp.Lib.Runs
import Wzp.Relay.RoomState

/-!
# Consistency of the room state

The rooms and the tables beside them name the same participants after every
sequence of operations, and the room events alternate.
-/
namespace Wzp.Relay.Sfu
open Bytes Proto Runs

/-! ## Operations -/

inductive RoomOp where
  | allow (room : RoomName) (fingerprint : String)
  | join (room : RoomName) (sender : ParticipantSender) (fingerprint «alias» : Option String)
  | joinWs (room : RoomName) (fingerprint : Option String)
  | leave (room : RoomName) (id : ParticipantId)
  | updateKeyframeCache (room : RoomName) (sender : ParticipantId) (pkt : MediaPacket)
  | registerStream (room : RoomName) (sender : ParticipantId) (pkt : MediaPacket)
  | updateReceiverState (room : RoomName) (receiver : ParticipantId) (bweKbps : UInt32)
      (lossPct : UInt8) (now : ℕ)
  | shouldForwardPli (room : RoomName) (receiver : ParticipantId) (streamId : UInt8) (now : ℕ)
  | observeQuality (room : RoomName) (id : ParticipantId) (now : ℕ) (report : QualityReport)

namespace RoomOp

def isJoin : RoomOp → Bool
  | join .. | joinWs .. => true
  | _ => false

/-- An operation for a packet is one of a participant of the room. -/
def ForMember (m : RoomManager) : RoomOp → Prop
  | updateKeyframeCache room id _ | registerStream room id _ | updateReceiverState room id _ _ _
  | shouldForwardPli room id _ _ | observeQuality room id _ _ => m.containsParticipant room id
  | allow .. | join .. | joinWs .. | leave .. => True

instance (m : RoomManager) : (op : RoomOp) → Decidable (op.ForMember m)
  | updateKeyframeCache room id _ | registerStream room id _ | updateReceiverState room id _ _ _
  | shouldForwardPli room id _ _ | observeQuality room id _ _ =>
      inferInstanceAs (Decidable (m.containsParticipant room id = true))
  | allow .. | join .. | joinWs .. | leave .. => isTrue trivial

end RoomOp

namespace RoomManager

def step (m : RoomManager) : RoomOp → RoomManager
  | .allow room fp => m.allow room fp
  | .join room sender fp al => (m.join room sender fp al).1
  | .joinWs room fp => (m.joinWs room fp).1
  | .leave room id => (m.leave room id).1
  | .updateKeyframeCache room id pkt => m.updateKeyframeCache room id pkt
  | .registerStream room id pkt => m.registerStream room id pkt
  | .updateReceiverState room id bwe loss now => m.updateReceiverState room id bwe loss now
  | .shouldForwardPli room _ streamId now => (m.shouldForwardPli room streamId now).1
  | .observeQuality room id now report => (m.observeQuality room id now report).1

end RoomManager

/-! ## Consistent states -/

/-- The qualities are those of the participants, whose ids and fingerprints
differ. -/
structure Room.Consistent (r : Room) : Prop where
  qualities : ∀ id, id ∈ r.qualities ↔ id ∈ r.participants.map Participant.id
  ids : (r.participants.map Participant.id).Nodup
  fingerprints : (r.participants.filterMap Participant.fingerprint).Nodup

namespace RoomManager

/-- The tables beside the rooms name only participants that satisfy `P`. -/
structure Names (P : RoomName → ParticipantId → Prop) (m : RoomManager) : Prop where
  keyframeCache : m.keyframeCache.All fun k _ => P k.1 k.2.1
  keyframeBuffer : m.keyframeBuffer.All fun k _ => P k.1 k.2.1
  pliState : m.pliState.All fun k _ => P k.1 k.2.1
  streamOwner : m.streamOwner.All fun k owner => P k.1 owner
  receiverStates : m.receiverStates.All fun k _ => P k.1 k.2

end RoomManager

def eventsOf (room : RoomName) (events : List RoomEvent) : List RoomEvent :=
  events.filter (·.room = room)

/-- Join and leave events alternate, and the first is a join. -/
def Alternate (room : RoomName) (events : List RoomEvent) : Prop :=
  ∀ i e, (eventsOf room events)[i]? = some e →
    e = if i % 2 = 0 then .localJoin room else .localLeave room

namespace RoomManager

structure Consistent (m : RoomManager) : Prop where
  rooms : m.rooms.All fun _ r => r.Consistent ∧ r.participants ≠ []
  disjoint : ∀ a b, a ≠ b → ∀ p ∈ m.localSenders a, ∀ q ∈ m.localSenders b, p.id ≠ q.id
  names : m.Names fun room id => m.containsParticipant room id
  events : ∀ room, Alternate room m.events

end RoomManager

/-! ## One room -/
namespace Room
variable {r : Room} {id : ParticipantId} {p q : Participant} {fingerprint : Option String}

theorem Consistent.new : Room.new.Consistent :=
  ⟨fun id => iff_of_false (AList.notMem_empty id) List.not_mem_nil, List.nodup_nil, List.nodup_nil⟩

theorem Consistent.eq_of_id (h : r.Consistent) (hp : p ∈ r.participants)
    (hq : q ∈ r.participants) (hid : p.id = q.id) : p = q :=
  List.inj_on_of_nodup_map h.ids hp hq hid

/-- Some participants leave, and their qualities with them. -/
theorem Consistent.filter (h : r.Consistent) {keep : Participant → Bool}
    {qualities : Table ParticipantId ParticipantQuality}
    (hqualities : ∀ id, id ∈ qualities ↔
      id ∈ r.qualities ∧ ∀ p ∈ r.participants, p.id = id → keep p = true) :
    Consistent { r with participants := r.participants.filter keep, qualities := qualities } where
  qualities := by
    intro id
    rw [hqualities, h.qualities, List.mem_map, List.mem_map]
    constructor
    · rintro ⟨⟨p, hp, rfl⟩, hkeep⟩
      exact ⟨p, List.mem_filter.mpr ⟨hp, hkeep p hp rfl⟩, rfl⟩
    · rintro ⟨p, hp, rfl⟩
      obtain ⟨hmem, hkeep⟩ := List.mem_filter.mp hp
      exact ⟨⟨p, hmem, rfl⟩, fun q hq hid => h.eq_of_id hq hmem hid ▸ hkeep⟩
  ids := h.ids.sublist (List.filter_sublist.map _)
  fingerprints := h.fingerprints.sublist (List.filter_sublist.filterMap _)

theorem mem_removed (fp : String) :
    id ∈ (r.removeByFingerprint fp).2 ↔
      ∃ p ∈ r.participants, p.fingerprint = some fp ∧ p.id = id := by
  simp only [removeByFingerprint, List.mem_map, List.mem_filter, decide_eq_true_eq, and_assoc]

theorem Consistent.removeByFingerprint (h : r.Consistent) (fp : String) :
    (r.removeByFingerprint fp).1.Consistent := by
  refine h.filter fun id => (Table.mem_foldl_erase _).trans (and_congr_right fun _ => ?_)
  constructor
  · intro hnot p hp hid
    exact decide_eq_true fun hfp => hnot ((mem_removed fp).mpr ⟨p, hp, hfp, hid⟩)
  · intro hkeep hmem
    obtain ⟨p, hp, hfp, hid⟩ := (mem_removed fp).mp hmem
    exact of_decide_eq_true (hkeep p hp hid) hfp

theorem Consistent.replace (h : r.Consistent) (fingerprint : Option String) :
    (r.replace fingerprint).1.Consistent := by
  cases fingerprint with
  | none => exact h
  | some fp => exact h.removeByFingerprint fp

/-- Who stays has another fingerprint than the one that joins. -/
theorem mem_replace : p ∈ (r.replace fingerprint).1.participants ↔
    p ∈ r.participants ∧ (fingerprint.isSome → p.fingerprint ≠ fingerprint) := by
  cases fingerprint with
  | none => exact ⟨fun h => ⟨h, fun hsome => nomatch hsome⟩, And.left⟩
  | some fp =>
      rw [Room.replace, removeByFingerprint, List.mem_filter, decide_eq_true_eq]
      exact and_congr_right fun _ => ⟨fun h _ => h, fun h => h rfl⟩

theorem mem_replaced : id ∈ (r.replace fingerprint).2 ↔
    ∃ p ∈ r.participants, (fingerprint.isSome ∧ p.fingerprint = fingerprint) ∧ p.id = id := by
  cases fingerprint with
  | none => exact ⟨fun h => absurd h List.not_mem_nil, fun ⟨_, _, ⟨hsome, _⟩, _⟩ => nomatch hsome⟩
  | some fp =>
      rw [Room.replace, mem_removed]
      simp only [Option.isSome_some, true_and]

/-- The room with a participant that was not in it. -/
theorem Consistent.add (h : r.Consistent) (sender : ParticipantSender) («alias» : Option String)
    (pq : ParticipantQuality) (hid : id ∉ r.participants.map Participant.id)
    (hfp : ∀ fp, fingerprint = some fp → ∀ p ∈ r.participants, p.fingerprint ≠ some fp) :
    Consistent { r.add id sender fingerprint «alias» with qualities := r.qualities.insert id pq } where
  qualities := by
    intro j
    rw [Table.mem_insert, h.qualities, Room.add, List.map_append, List.mem_append, or_comm]
    exact or_congr_right List.mem_singleton.symm
  ids := by
    rw [Room.add, List.map_append]
    exact h.ids.append (List.nodup_singleton _) fun j hj hnew => hid
      ((List.mem_singleton.mp hnew : j = id) ▸ hj)
  fingerprints := by
    rw [Room.add, List.filterMap_append]
    refine h.fingerprints.append ?_ fun fp hold hnew => ?_
    · cases fingerprint with
      | none => exact List.nodup_nil
      | some fp => exact List.nodup_singleton fp
    · obtain ⟨p, hp, hpfp⟩ := List.mem_filterMap.mp hold
      obtain ⟨q, hq, hqfp⟩ := List.mem_filterMap.mp hnew
      obtain rfl := List.mem_singleton.mp hq
      exact hfp fp hqfp p hp hpfp

theorem Consistent.remove (h : r.Consistent) (id : ParticipantId) :
    (({ r with qualities := r.qualities.erase id } : Room).remove id).Consistent := by
  refine h.filter fun j => Table.mem_erase.trans (and_comm.trans (and_congr_right fun hj => ?_))
  obtain ⟨p, hp, rfl⟩ := List.mem_map.mp ((h.qualities j).mp hj)
  constructor
  · intro hne q hq hid
    exact decide_eq_true (hid ▸ hne)
  · intro hkeep
    exact of_decide_eq_true (hkeep p hp rfl)

theorem observe_participants (r : Room) (id : ParticipantId) (now : ℕ) (report : QualityReport) :
    (r.observe id now report).1.participants = r.participants := by
  rw [observe]
  cases r.qualities.lookup id with
  | none => rfl
  | some pq => dsimp only; split <;> rfl

theorem mem_observe_qualities {j : ParticipantId} {now : ℕ} {report : QualityReport} :
    j ∈ (r.observe id now report).1.qualities ↔ j ∈ r.qualities := by
  rw [observe]
  cases hlookup : r.qualities.lookup id with
  | none => exact Iff.rfl
  | some pq =>
      have hmem : id ∈ r.qualities := AList.lookup_isSome.mp (hlookup ▸ rfl)
      have hinsert : ∀ pq', j ∈ r.qualities.insert id pq' ↔ j ∈ r.qualities := fun pq' =>
        Table.mem_insert.trans (or_iff_right_of_imp fun hj => hj ▸ hmem)
      dsimp only
      split
      · exact hinsert _
      · exact hinsert _

theorem Consistent.observe (h : r.Consistent) (id : ParticipantId) (now : ℕ)
    (report : QualityReport) : (r.observe id now report).1.Consistent where
  qualities := by
    intro j
    rw [mem_observe_qualities, observe_participants]
    exact h.qualities j
  ids := (observe_participants r id now report).symm ▸ h.ids
  fingerprints := (observe_participants r id now report).symm ▸ h.fingerprints

theorem contains_iff : r.contains id ↔ id ∈ r.participants.map Participant.id := by
  simp only [contains, List.any_eq_true, decide_eq_true_eq, List.mem_map]

end Room

/-! ## Events -/

theorem eventsOf_append_self (room : RoomName) {e : RoomEvent} (he : e.room = room)
    (events : List RoomEvent) : eventsOf room (events ++ [e]) = eventsOf room events ++ [e] := by
  have hlast : [e].filter (·.room = room) = [e] :=
    List.filter_cons_of_pos (decide_eq_true he)
  rw [eventsOf, List.filter_append, hlast]
  rfl

theorem eventsOf_append_ne {room : RoomName} {e : RoomEvent} (he : e.room ≠ room)
    (events : List RoomEvent) : eventsOf room (events ++ [e]) = eventsOf room events := by
  have hlast : [e].filter (·.room = room) = [] :=
    List.filter_cons_of_neg (mt of_decide_eq_true he)
  rw [eventsOf, List.filter_append, hlast, List.append_nil]
  rfl

theorem Alternate.append {room : RoomName} {events : List RoomEvent} (h : Alternate room events)
    {e : RoomEvent} (he : e.room = room → e =
      if (eventsOf room events).length % 2 = 0 then .localJoin room else .localLeave room) :
    Alternate room (events ++ [e]) := by
  intro i e' hget
  by_cases hroom : e.room = room
  · rw [eventsOf_append_self room hroom] at hget
    rcases lt_trichotomy i (eventsOf room events).length with hlt | heq | hgt
    · rw [List.getElem?_append_left hlt] at hget
      exact h i e' hget
    · rw [heq, List.getElem?_concat_length] at hget
      obtain rfl := Option.some.inj hget
      rw [heq]
      exact he hroom
    · rw [List.getElem?_eq_none (by rw [List.length_append, List.length_singleton]; omega)] at hget
      exact nomatch hget
  · rw [eventsOf_append_ne hroom] at hget
    exact h i e' hget

/-! ## The tables beside the rooms -/
namespace RoomManager
variable {P Q : RoomName → ParticipantId → Prop} {m m' : RoomManager} {room other : RoomName}
  {id : ParticipantId} {p : Participant}

theorem Names.mono (h : m.Names P) (hPQ : ∀ room id, P room id → Q room id) : m.Names Q where
  keyframeCache := h.keyframeCache.mono fun _ _ => hPQ _ _
  keyframeBuffer := h.keyframeBuffer.mono fun _ _ => hPQ _ _
  pliState := h.pliState.mono fun _ _ => hPQ _ _
  streamOwner := h.streamOwner.mono fun _ _ => hPQ _ _
  receiverStates := h.receiverStates.mono fun _ _ => hPQ _ _

theorem Names.clearRoomState (h : m.Names P) (room : RoomName) :
    (m.clearRoomState room).Names fun r i => P r i ∧ r ≠ room where
  keyframeCache := h.keyframeCache.retain fun _ _ hP hkeep => ⟨hP, of_decide_eq_true hkeep⟩
  keyframeBuffer := h.keyframeBuffer.retain fun _ _ hP hkeep => ⟨hP, of_decide_eq_true hkeep⟩
  pliState := h.pliState.retain fun _ _ hP hkeep => ⟨hP, of_decide_eq_true hkeep⟩
  streamOwner := h.streamOwner.retain fun _ _ hP hkeep => ⟨hP, of_decide_eq_true hkeep⟩
  receiverStates := h.receiverStates.retain fun _ _ hP hkeep => ⟨hP, of_decide_eq_true hkeep⟩

theorem Names.clearParticipantState (h : m.Names P) (room : RoomName) (id : ParticipantId) :
    (m.clearParticipantState room id).Names fun r i => P r i ∧ ¬ (r = room ∧ i = id) where
  keyframeCache := h.keyframeCache.retain fun _ _ hP hkeep => ⟨hP, of_decide_eq_true hkeep⟩
  keyframeBuffer := h.keyframeBuffer.retain fun _ _ hP hkeep => ⟨hP, of_decide_eq_true hkeep⟩
  pliState := h.pliState.retain fun _ _ hP hkeep => ⟨hP, of_decide_eq_true hkeep⟩
  streamOwner := h.streamOwner.retain fun _ _ hP hkeep => ⟨hP, of_decide_eq_true hkeep⟩
  receiverStates := h.receiverStates.retain fun _ _ hP hkeep => ⟨hP, of_decide_eq_true hkeep⟩

theorem Names.clearParticipants (h : m.Names P) (room : RoomName) (ids : List ParticipantId) :
    (m.clearParticipants room ids).Names fun r i => P r i ∧ ¬ (r = room ∧ i ∈ ids) := by
  induction ids generalizing m P with
  | nil => exact h.mono fun _ _ hP => ⟨hP, fun hmem => List.not_mem_nil hmem.2⟩
  | cons id ids ih =>
      refine (ih (h.clearParticipantState room id)).mono fun r i hP => ⟨hP.1.1, ?_⟩
      rintro ⟨hr, hi⟩
      rcases List.mem_cons.mp hi with hhead | htail
      · exact hP.1.2 ⟨hr, hhead⟩
      · exact hP.2 ⟨hr, htail⟩

/-- Two states that differ at most in the tables beside the rooms. -/
structure SameRooms (m m' : RoomManager) : Prop where
  rooms : m'.rooms = m.rooms
  events : m'.events = m.events
  next : m'.nextParticipantId = m.nextParticipantId

theorem SameRooms.refl (m : RoomManager) : SameRooms m m := ⟨rfl, rfl, rfl⟩

theorem SameRooms.clearParticipants (room : RoomName) (ids : List ParticipantId) :
    SameRooms m (m.clearParticipants room ids) := by
  induction ids generalizing m with
  | nil => exact .refl m
  | cons id ids ih =>
      have h := ih (m := m.clearParticipantState room id)
      exact ⟨h.rooms, h.events, h.next⟩

theorem SameRooms.localSenders (h : SameRooms m m') (room : RoomName) :
    m'.localSenders room = m.localSenders room := by
  rw [RoomManager.localSenders, h.rooms]
  rfl

theorem updateKeyframeCache_spec (h : m.Names P) (pkt : MediaPacket) (hP : P room id) :
    SameRooms m (m.updateKeyframeCache room id pkt) ∧
      (m.updateKeyframeCache room id pkt).Names P := by
  rw [updateKeyframeCache]
  dsimp only
  split
  · exact ⟨.refl m, h⟩
  · split
    · split
      · exact ⟨⟨rfl, rfl, rfl⟩, h.keyframeCache.insert hP, h.keyframeBuffer.insert hP, h.pliState,
          h.streamOwner, h.receiverStates⟩
      · exact ⟨⟨rfl, rfl, rfl⟩, h.keyframeCache, h.keyframeBuffer.insert hP, h.pliState,
          h.streamOwner, h.receiverStates⟩
    · exact ⟨⟨rfl, rfl, rfl⟩, h.keyframeCache, h.keyframeBuffer.erase _, h.pliState,
        h.streamOwner, h.receiverStates⟩

theorem registerStream_spec (h : m.Names P) (pkt : MediaPacket) (hP : P room id) :
    SameRooms m (m.registerStream room id pkt) ∧ (m.registerStream room id pkt).Names P := by
  rw [registerStream]
  dsimp only
  split
  · exact ⟨.refl m, h⟩
  · refine ⟨⟨rfl, rfl, rfl⟩, h.keyframeCache, h.keyframeBuffer, h.pliState, ?_, h.receiverStates⟩
    dsimp only
    split
    · exact (h.streamOwner.insert hP).insert hP
    · exact h.streamOwner.insert hP

theorem updateReceiverState_spec (h : m.Names P) (bwe : UInt32) (loss : UInt8) (now : ℕ)
    (hP : P room id) :
    SameRooms m (m.updateReceiverState room id bwe loss now) ∧
      (m.updateReceiverState room id bwe loss now).Names P :=
  ⟨⟨rfl, rfl, rfl⟩, h.keyframeCache, h.keyframeBuffer, h.pliState, h.streamOwner,
    h.receiverStates.insert hP⟩

/-- The indication is kept under the owner of the stream. -/
theorem shouldForwardPli_spec (h : m.Names P) (room : RoomName) (streamId : UInt8) (now : ℕ) :
    SameRooms m (m.shouldForwardPli room streamId now).1 ∧
      (m.shouldForwardPli room streamId now).1.Names P := by
  rw [shouldForwardPli]
  cases hlookup : m.streamOwner.lookup (room, streamId) with
  | none => exact ⟨.refl m, h⟩
  | some owner =>
      dsimp only
      split
      · exact ⟨.refl m, h⟩
      · exact ⟨⟨rfl, rfl, rfl⟩, h.keyframeCache, h.keyframeBuffer,
          h.pliState.insert (h.streamOwner _ _ hlookup), h.streamOwner, h.receiverStates⟩

/-! ## Participants of a room -/

theorem containsParticipant_iff :
    m.containsParticipant room id ↔ id ∈ (m.localSenders room).map Participant.id := by
  rw [containsParticipant, localSenders]
  cases m.rooms.lookup room with
  | none => exact iff_of_false Bool.false_ne_true List.not_mem_nil
  | some r => exact Room.contains_iff

theorem localSenders_of_lookup {r : Room} (h : m.rooms.lookup room = some r) :
    m.localSenders room = r.participants := by
  rw [localSenders, h]
  rfl

theorem localSenders_congr (h : m'.rooms.lookup room = m.rooms.lookup room) :
    m'.localSenders room = m.localSenders room := by
  rw [localSenders, h]
  rfl

theorem localSenders_of_ne {r : Room} {rooms : Table RoomName Room}
    (hrooms : m'.rooms = rooms.insert room r) (hne : other ≠ room) (hold : m.rooms = rooms) :
    m'.localSenders other = m.localSenders other :=
  localSenders_congr (by rw [hrooms, hold, Table.lookup_insert_ne hne])

/-- A room is open when the last event about it was a join. -/
def Opened (m : RoomManager) : Prop :=
  ∀ room, room ∈ m.rooms ↔ (eventsOf room m.events).length % 2 = 1

/-! ## Every operation keeps the state consistent -/

/-- No participant has the next id yet. -/
def NextFresh (m : RoomManager) : Prop :=
  ∀ room, ∀ p ∈ m.localSenders room, p.id ≠ m.nextParticipantId

theorem Consistent.of_sameRooms (h : m.Consistent) (hsame : SameRooms m m')
    (hnames : m'.Names fun room id => m.containsParticipant room id) : m'.Consistent where
  rooms := hsame.rooms.symm ▸ h.rooms
  disjoint := by
    intro a b hne p hp q hq
    rw [hsame.localSenders] at hp hq
    exact h.disjoint a b hne p hp q hq
  names := hnames.mono fun room id hmem => by
    rw [containsParticipant_iff, hsame.localSenders, ← containsParticipant_iff]
    exact hmem
  events := hsame.events.symm ▸ h.events

theorem Opened.of_sameRooms (h : m.Opened) (hsame : SameRooms m m') : m'.Opened := by
  intro room
  rw [hsame.rooms, hsame.events]
  exact h room

/-! ### Joining -/

end RoomManager

/-- The room after a join. -/
def Room.admitted (r : Room) (id : ParticipantId) (sender : ParticipantSender)
    (fingerprint «alias» : Option String) : Room :=
  { (r.replace fingerprint).1.add id sender fingerprint «alias» with
    qualities := (r.replace fingerprint).1.qualities.insert id .new }

namespace RoomManager
variable {m : RoomManager} {room a : RoomName} {id : ParticipantId} {sender : ParticipantSender}
  {fingerprint «alias» : Option String} {p : Participant}

/-- The room a participant joins. -/
def roomOrNew (m : RoomManager) (room : RoomName) : Room := (m.rooms.lookup room).getD .new

theorem roomOrNew_participants (m : RoomManager) (room : RoomName) :
    (m.roomOrNew room).participants = m.localSenders room := by
  rw [roomOrNew, localSenders]
  cases m.rooms.lookup room <;> rfl

theorem enter_eq (m : RoomManager) (room : RoomName) (sender : ParticipantSender)
    (fingerprint «alias» : Option String) (wasEmpty : Bool) :
    (m.enter room sender fingerprint «alias» wasEmpty).1 =
      { m.clearParticipants room ((m.roomOrNew room).replace fingerprint).2 with
        rooms := m.rooms.insert room
          ((m.roomOrNew room).admitted m.nextParticipantId sender fingerprint «alias»)
        nextParticipantId := m.nextParticipantId + 1
        events := if wasEmpty then m.events ++ [.localJoin room] else m.events } := by
  have hsame := SameRooms.clearParticipants (m := m) room ((m.roomOrNew room).replace fingerprint).2
  rw [enter]
  dsimp only
  rw [← roomOrNew, hsame.rooms, hsame.next, hsame.events]
  rfl

/-- After a join a room has those whom the new participant does not replace, and
the new participant. -/
theorem mem_localSenders_enter (m : RoomManager) (room : RoomName) (sender : ParticipantSender)
    (fingerprint «alias» : Option String) (wasEmpty : Bool) :
    p ∈ (m.enter room sender fingerprint «alias» wasEmpty).1.localSenders a ↔
      (p ∈ m.localSenders a ∧
        ¬ (a = room ∧ fingerprint.isSome ∧ p.fingerprint = fingerprint)) ∨
      (a = room ∧ p = ⟨m.nextParticipantId, sender, fingerprint, «alias»⟩) := by
  have hrooms : (m.enter room sender fingerprint «alias» wasEmpty).1.rooms = m.rooms.insert room
      ((m.roomOrNew room).admitted m.nextParticipantId sender fingerprint «alias») := by
    rw [enter_eq]
  by_cases ha : a = room
  · subst ha
    rw [localSenders_of_lookup (by rw [hrooms, Table.lookup_insert_self]),
      ← roomOrNew_participants m a]
    have hmem : p ∈ ((m.roomOrNew a).admitted m.nextParticipantId sender fingerprint
        «alias»).participants ↔ p ∈ ((m.roomOrNew a).replace fingerprint).1.participants ∨
          p = ⟨m.nextParticipantId, sender, fingerprint, «alias»⟩ :=
      List.mem_append.trans (or_congr_right List.mem_singleton)
    rw [hmem, Room.mem_replace]
    simp only [true_and, not_and, ne_eq]
  · rw [localSenders_of_ne hrooms ha rfl]
    simp only [ha, false_and, not_false_eq_true, and_true, or_false]

theorem join_eq (hauth : m.isAuthorized room fingerprint = true) :
    (m.join room sender fingerprint «alias»).1 =
      { m.clearParticipants room ((m.roomOrNew room).replace fingerprint).2 with
        rooms := m.rooms.insert room
          ((m.roomOrNew room).admitted m.nextParticipantId sender fingerprint «alias»)
        nextParticipantId := m.nextParticipantId + 1
        events := if m.wasEmpty room then m.events ++ [.localJoin room] else m.events } := by
  rw [join, if_pos hauth]
  exact enter_eq m room sender fingerprint «alias» (m.wasEmpty room)

theorem mem_localSenders_join (hauth : m.isAuthorized room fingerprint = true) :
    p ∈ (m.join room sender fingerprint «alias»).1.localSenders a ↔
      (p ∈ m.localSenders a ∧
        ¬ (a = room ∧ fingerprint.isSome ∧ p.fingerprint = fingerprint)) ∨
      (a = room ∧ p = ⟨m.nextParticipantId, sender, fingerprint, «alias»⟩) := by
  rw [join, if_pos hauth]
  exact mem_localSenders_enter m room sender fingerprint «alias» (m.wasEmpty room)

theorem join_of_unauthorized (hauth : m.isAuthorized room fingerprint = false) :
    (m.join room sender fingerprint «alias»).1 = m := by
  rw [join, if_neg (Bool.eq_false_iff.mp hauth)]

theorem Consistent.roomOrNew (h : m.Consistent) (room : RoomName) :
    (m.roomOrNew room).Consistent := by
  rw [RoomManager.roomOrNew]
  cases hlookup : m.rooms.lookup room with
  | none => exact .new
  | some r => exact (h.rooms room r hlookup).1

theorem Consistent.isEmpty (h : m.Consistent) (room : RoomName) :
    m.wasEmpty room = true ↔ room ∉ m.rooms := by
  rw [wasEmpty, ← AList.lookup_isSome]
  cases hlookup : m.rooms.lookup room with
  | none => exact iff_of_true rfl Bool.false_ne_true
  | some r =>
      refine iff_of_false (fun hempty => ?_) (fun hnot => hnot rfl)
      exact (h.rooms room r hlookup).2 (List.isEmpty_iff.mp hempty)

theorem Consistent.join (h : m.Consistent) (hopened : m.Opened) (hfresh : m.NextFresh)
    (hauth : m.isAuthorized room fingerprint = true) :
    (m.join room sender fingerprint «alias»).1.Consistent := by
  have hkept : ∀ p ∈ ((m.roomOrNew room).replace fingerprint).1.participants,
      p ∈ m.localSenders room := fun p hp =>
    roomOrNew_participants m room ▸ (Room.mem_replace.mp hp).1
  constructor
  · rw [join_eq hauth]
    refine h.rooms.insert ⟨((h.roomOrNew room).replace fingerprint).add sender «alias» .new ?_ ?_, ?_⟩
    · intro hmem
      obtain ⟨p, hp, hid⟩ := List.mem_map.mp hmem
      exact hfresh room p (hkept p hp) hid
    · rintro fp rfl p hp
      exact (Room.mem_replace.mp hp).2 rfl
    · exact List.append_ne_nil_of_right_ne_nil _ (List.cons_ne_nil _ _)
  · intro a b hne p hp q hq
    rcases (mem_localSenders_join hauth).mp hp with ⟨hold, -⟩ | ⟨rfl, rfl⟩
    · rcases (mem_localSenders_join hauth).mp hq with ⟨hold', -⟩ | ⟨rfl, rfl⟩
      · exact h.disjoint a b hne p hold q hold'
      · exact hfresh a p hold
    · rcases (mem_localSenders_join hauth).mp hq with ⟨hold', -⟩ | ⟨rfl, rfl⟩
      · exact (hfresh b q hold').symm
      · exact absurd rfl hne
  · have hcontains : ∀ r i, m.containsParticipant r i = true ∧
        ¬ (r = room ∧ i ∈ ((m.roomOrNew room).replace fingerprint).2) →
        (m.join room sender fingerprint «alias»).1.containsParticipant r i = true := by
      rintro r i ⟨hmem, hkeep⟩
      rw [containsParticipant_iff] at hmem ⊢
      obtain ⟨p, hp, rfl⟩ := List.mem_map.mp hmem
      refine List.mem_map_of_mem ((mem_localSenders_join hauth).mpr (Or.inl ⟨hp, ?_⟩))
      rintro ⟨rfl, hsome, hfp⟩
      rw [← roomOrNew_participants] at hp
      exact hkeep ⟨rfl, Room.mem_replaced.mpr ⟨p, hp, ⟨hsome, hfp⟩, rfl⟩⟩
    have hjoined := (h.names.clearParticipants room
      ((m.roomOrNew room).replace fingerprint).2).mono hcontains
    rw [join_eq hauth] at hjoined ⊢
    exact ⟨hjoined.keyframeCache, hjoined.keyframeBuffer, hjoined.pliState, hjoined.streamOwner,
      hjoined.receiverStates⟩
  · intro r
    rw [join_eq hauth]
    dsimp only
    split
    · rename_i hempty
      refine (h.events r).append fun hr => ?_
      obtain rfl : room = r := hr
      have heven : ¬ (eventsOf room m.events).length % 2 = 1 :=
        mt (hopened room).mpr ((h.isEmpty room).mp hempty)
      rw [if_pos (by omega)]
    · exact h.events r

theorem Opened.join (hopened : m.Opened) (h : m.Consistent)
    (hauth : m.isAuthorized room fingerprint = true) :
    (m.join room sender fingerprint «alias»).1.Opened := by
  intro r
  rw [join_eq hauth]
  dsimp only
  rw [Table.mem_insert]
  split
  · rename_i hempty
    have hclosed := (h.isEmpty room).mp hempty
    by_cases hr : room = r
    · subst hr
      rw [hopened] at hclosed
      rw [eventsOf_append_self room (e := .localJoin room) rfl, List.length_append, List.length_singleton]
      exact iff_of_true (Or.inl rfl) (by omega)
    · rw [eventsOf_append_ne (e := .localJoin room) hr]
      exact (or_iff_right (Ne.symm hr)).trans (hopened r)
  · rename_i hempty
    have hactive := not_not.mp (mt (h.isEmpty room).mpr hempty)
    rw [← hopened r]
    exact or_iff_right_of_imp fun hr => hr ▸ hactive

/-! ### Leaving -/

end RoomManager

/-- The room after a participant has left it. -/
def Room.left (r : Room) (id : ParticipantId) : Room :=
  { r with qualities := r.qualities.erase id }.remove id

namespace RoomManager
variable {m : RoomManager} {room a : RoomName} {id : ParticipantId} {r : Room} {p : Participant}

theorem leave_of_absent (hlookup : m.rooms.lookup room = none) : (m.leave room id).1 = m := by
  rw [leave, depart, hlookup]

theorem leave_eq (hlookup : m.rooms.lookup room = some r) (hne : (r.left id).participants ≠ []) :
    (m.leave room id).1 = { m.clearParticipantState room id with
      rooms := m.rooms.insert room (r.left id) } := by
  have hnonempty : ¬ (r.left id).isEmpty = true := mt List.isEmpty_iff.mp hne
  rw [leave, depart, hlookup]
  exact congrArg Prod.fst (if_neg hnonempty)

/-- The last participant takes the room away. -/
theorem leave_last_eq (hlookup : m.rooms.lookup room = some r)
    (hnil : (r.left id).participants = []) :
    (m.leave room id).1 = { (m.clearParticipantState room id).clearRoomState room with
      rooms := (m.rooms.insert room (r.left id)).erase room
      events := m.events ++ [.localLeave room] } := by
  have hempty : (r.left id).isEmpty = true := List.isEmpty_iff.mpr hnil
  rw [leave, depart, hlookup]
  exact congrArg Prod.fst (if_pos hempty)

theorem mem_localSenders_depart (m : RoomManager) (room : RoomName) (id : ParticipantId) :
    p ∈ (m.depart room id).1.localSenders a ↔
      p ∈ m.localSenders a ∧ ¬ (a = room ∧ p.id = id) := by
  cases hlookup : m.rooms.lookup room with
  | none =>
      rw [depart, hlookup]
      refine (and_iff_left_of_imp fun hp => ?_).symm
      rintro ⟨rfl, -⟩
      rw [localSenders, hlookup] at hp
      exact absurd hp List.not_mem_nil
  | some r =>
      have hrooms : (m.depart room id).1.rooms = m.rooms.insert room (r.left id) := by
        rw [depart, hlookup]
        rfl
      by_cases ha : a = room
      · subst ha
        rw [localSenders_of_lookup (by rw [hrooms, Table.lookup_insert_self]),
          localSenders_of_lookup hlookup]
        refine List.mem_filter.trans (and_congr_right fun _ => ?_)
        rw [decide_eq_true_eq]
        simp only [true_and, ne_eq]
      · rw [localSenders_of_ne hrooms ha rfl]
        simp only [ha, false_and, not_false_eq_true, and_true]

/-- A room without participants can be taken away. -/
theorem mem_localSenders_removeRoom (hempty : m.localSenders room = []) :
    p ∈ (m.removeRoom room).localSenders a ↔ p ∈ m.localSenders a := by
  by_cases ha : a = room
  · subst ha
    rw [hempty, localSenders, removeRoom, Table.lookup_erase_self]
    rfl
  · rw [localSenders_congr (m := m) (Table.lookup_erase_ne ha)]

theorem mem_localSenders_leave :
    p ∈ (m.leave room id).1.localSenders a ↔ p ∈ m.localSenders a ∧ ¬ (a = room ∧ p.id = id) := by
  rw [← mem_localSenders_depart]
  cases hlookup : m.rooms.lookup room with
  | none => rw [leave_of_absent hlookup, depart, hlookup]
  | some r =>
      have hdepart : (m.depart room id).1.rooms = m.rooms.insert room (r.left id) := by
        rw [depart, hlookup]
        rfl
      by_cases hnil : (r.left id).participants = []
      · have hempty : (m.depart room id).1.localSenders room = [] := by
          rw [localSenders_of_lookup (by rw [hdepart, Table.lookup_insert_self]), hnil]
        have hremoved : (m.leave room id).1.localSenders a =
            ((m.depart room id).1.removeRoom room).localSenders a :=
          localSenders_congr (by rw [leave_last_eq hlookup hnil, removeRoom, hdepart])
        rw [hremoved, mem_localSenders_removeRoom hempty]
      · have hsame : (m.leave room id).1.localSenders a = (m.depart room id).1.localSenders a :=
          localSenders_congr (by rw [leave_eq hlookup hnil, hdepart])
        rw [hsame]

theorem Consistent.disjoint_leave (h : m.Consistent) (room : RoomName) (id : ParticipantId) :
    ∀ a b, a ≠ b → ∀ p ∈ (m.leave room id).1.localSenders a,
      ∀ q ∈ (m.leave room id).1.localSenders b, p.id ≠ q.id :=
  fun a b hne p hp q hq =>
    h.disjoint a b hne p (mem_localSenders_leave.mp hp).1 q (mem_localSenders_leave.mp hq).1

theorem containsParticipant_leave {i : ParticipantId} (h : m.containsParticipant a i = true)
    (hstays : ¬ (a = room ∧ i = id)) : (m.leave room id).1.containsParticipant a i = true := by
  rw [containsParticipant_iff] at h ⊢
  obtain ⟨p, hp, rfl⟩ := List.mem_map.mp h
  exact List.mem_map_of_mem (mem_localSenders_leave.mpr ⟨hp, hstays⟩)

theorem Consistent.leave_some (h : m.Consistent) (hlookup : m.rooms.lookup room = some r)
    (hne : (r.left id).participants ≠ []) : (m.leave room id).1.Consistent := by
  constructor
  · rw [leave_eq hlookup hne]
    exact h.rooms.insert ⟨(h.rooms room r hlookup).1.remove id, hne⟩
  · exact h.disjoint_leave room id
  · have hleft := (h.names.clearParticipantState room id).mono fun a i hkeep =>
      containsParticipant_leave hkeep.1 hkeep.2
    rw [leave_eq hlookup hne] at hleft ⊢
    exact ⟨hleft.keyframeCache, hleft.keyframeBuffer, hleft.pliState, hleft.streamOwner,
      hleft.receiverStates⟩
  · rw [leave_eq hlookup hne]
    exact h.events

theorem Consistent.leave_last (h : m.Consistent) (hopened : m.Opened)
    (hlookup : m.rooms.lookup room = some r) (hnil : (r.left id).participants = []) :
    (m.leave room id).1.Consistent := by
  constructor
  · rw [leave_last_eq hlookup hnil]
    intro a b hget
    rw [Table.lookup_erase] at hget
    split at hget
    · exact nomatch hget
    · rename_i ha
      rw [Table.lookup_insert_ne ha] at hget
      exact h.rooms a b hget
  · exact h.disjoint_leave room id
  · have hleft := ((h.names.clearParticipantState room id).clearRoomState room).mono
      fun a i hkeep => containsParticipant_leave hkeep.1.1 hkeep.1.2
    rw [leave_last_eq hlookup hnil] at hleft ⊢
    exact ⟨hleft.keyframeCache, hleft.keyframeBuffer, hleft.pliState, hleft.streamOwner,
      hleft.receiverStates⟩
  · intro a
    rw [leave_last_eq hlookup hnil]
    refine (h.events a).append fun ha => ?_
    obtain rfl : room = a := ha
    have hodd := (hopened room).mp (AList.lookup_isSome.mp (hlookup ▸ rfl))
    rw [if_neg (by omega)]

theorem Opened.leave (hopened : m.Opened) (room : RoomName) (id : ParticipantId) :
    (m.leave room id).1.Opened := by
  cases hlookup : m.rooms.lookup room with
  | none => rwa [leave_of_absent hlookup]
  | some r =>
      have hactive : room ∈ m.rooms := AList.lookup_isSome.mp (hlookup ▸ rfl)
      intro a
      by_cases hnil : (r.left id).participants = []
      · rw [leave_last_eq hlookup hnil]
        dsimp only
        rw [Table.mem_erase, Table.mem_insert]
        by_cases ha : room = a
        · subst ha
          have hodd := (hopened room).mp hactive
          rw [eventsOf_append_self room (e := .localLeave room) rfl,
            List.length_append, List.length_singleton]
          exact iff_of_false (fun hmem => hmem.1 rfl) (by omega)
        · rw [eventsOf_append_ne (e := .localLeave room) ha, ← hopened a]
          exact ⟨fun hmem => hmem.2.resolve_left hmem.1, fun hmem => ⟨Ne.symm ha, Or.inr hmem⟩⟩
      · rw [leave_eq hlookup hnil]
        exact (Table.mem_insert.trans (or_iff_right_of_imp fun ha => ha ▸ hactive)).trans (hopened a)

theorem Consistent.leave (h : m.Consistent) (hopened : m.Opened) (room : RoomName)
    (id : ParticipantId) : (m.leave room id).1.Consistent := by
  cases hlookup : m.rooms.lookup room with
  | none => rwa [leave_of_absent hlookup]
  | some r =>
      by_cases hnil : (r.left id).participants = []
      · exact h.leave_last hopened hlookup hnil
      · exact h.leave_some hlookup hnil

/-! ### The rooms afterwards -/

theorem rooms_join_ne {a : RoomName} (hne : a ≠ room) (sender : ParticipantSender)
    (fingerprint «alias» : Option String) :
    (m.join room sender fingerprint «alias»).1.rooms.lookup a = m.rooms.lookup a := by
  cases hauth : m.isAuthorized room fingerprint with
  | true =>
      rw [join_eq hauth]
      exact Table.lookup_insert_ne hne
  | false => rw [join_of_unauthorized hauth]

theorem rooms_leave_ne {a : RoomName} (hne : a ≠ room) (id : ParticipantId) :
    (m.leave room id).1.rooms.lookup a = m.rooms.lookup a := by
  cases hlookup : m.rooms.lookup room with
  | none => rw [leave_of_absent hlookup]
  | some r =>
      by_cases hnil : (r.left id).participants = []
      · rw [leave_last_eq hlookup hnil]
        exact (Table.lookup_erase_ne hne).trans (Table.lookup_insert_ne hne)
      · rw [leave_eq hlookup hnil]
        exact Table.lookup_insert_ne hne

theorem rooms_join_self {sender : ParticipantSender} {fingerprint «alias» : Option String}
    (hauth : m.isAuthorized room fingerprint = true) :
    (m.join room sender fingerprint «alias»).1.rooms.lookup room =
      some ((m.roomOrNew room).admitted m.nextParticipantId sender fingerprint «alias») := by
  rw [join_eq hauth, Table.lookup_insert_self]

theorem rooms_leave_self {r : Room} {id : ParticipantId} (hlookup : m.rooms.lookup room = some r) :
    (m.leave room id).1.rooms.lookup room =
      if (r.left id).participants = [] then none else some (r.left id) := by
  split
  · rename_i hnil
    rw [leave_last_eq hlookup hnil, Table.lookup_erase_self]
  · rename_i hne
    rw [leave_eq hlookup hne, Table.lookup_insert_self]

/-! ### Observing -/

theorem observeQuality_of_absent {now : ℕ} {report : QualityReport}
    (hlookup : m.rooms.lookup room = none) : (m.observeQuality room id now report).1 = m := by
  rw [observeQuality, hlookup]

theorem observeQuality_eq {now : ℕ} {report : QualityReport}
    (hlookup : m.rooms.lookup room = some r) :
    (m.observeQuality room id now report).1 =
      { m with rooms := m.rooms.insert room (r.observe id now report).1 } := by
  rw [observeQuality, hlookup]

theorem observeQuality_localSenders (m : RoomManager) (room : RoomName) (id : ParticipantId)
    (now : ℕ) (report : QualityReport) (a : RoomName) :
    (m.observeQuality room id now report).1.localSenders a = m.localSenders a := by
  cases hlookup : m.rooms.lookup room with
  | none => rw [observeQuality_of_absent hlookup]
  | some r =>
      have hrooms : (m.observeQuality room id now report).1.rooms =
          m.rooms.insert room (r.observe id now report).1 := by rw [observeQuality_eq hlookup]
      by_cases ha : a = room
      · subst ha
        rw [localSenders_of_lookup hlookup, ← Room.observe_participants r id now report]
        exact localSenders_of_lookup (by rw [hrooms, Table.lookup_insert_self])
      · exact localSenders_of_ne hrooms ha rfl

theorem Consistent.observeQuality (h : m.Consistent) (room : RoomName) (id : ParticipantId)
    (now : ℕ) (report : QualityReport) : (m.observeQuality room id now report).1.Consistent := by
  have hsame := observeQuality_localSenders m room id now report
  cases hlookup : m.rooms.lookup room with
  | none => rwa [observeQuality_of_absent hlookup]
  | some r =>
      have hroom := h.rooms room r hlookup
      have hnames := h.names.mono
        (Q := fun a i => (m.observeQuality room id now report).1.containsParticipant a i = true)
        fun a i hcontains => by
          rw [containsParticipant_iff, hsame, ← containsParticipant_iff]
          exact hcontains
      rw [observeQuality_eq hlookup] at hsame hnames ⊢
      constructor
      · refine h.rooms.insert ⟨hroom.1.observe id now report, ?_⟩
        rw [Room.observe_participants]
        exact hroom.2
      · intro a b hne p hp q hq
        rw [hsame] at hp hq
        exact h.disjoint a b hne p hp q hq
      · exact ⟨hnames.keyframeCache, hnames.keyframeBuffer, hnames.pliState, hnames.streamOwner,
          hnames.receiverStates⟩
      · exact h.events

theorem Opened.observeQuality (hopened : m.Opened) (room : RoomName) (id : ParticipantId)
    (now : ℕ) (report : QualityReport) : (m.observeQuality room id now report).1.Opened := by
  cases hlookup : m.rooms.lookup room with
  | none => rwa [observeQuality_of_absent hlookup]
  | some r =>
      have hactive : room ∈ m.rooms := AList.lookup_isSome.mp (hlookup ▸ rfl)
      rw [observeQuality_eq hlookup]
      intro a
      exact (Table.mem_insert.trans (or_iff_right_of_imp fun ha => ha ▸ hactive)).trans (hopened a)

/-! ### Any operation -/

theorem consistent_join (h : m.Consistent) (hopened : m.Opened) (hfresh : m.NextFresh)
    (room : RoomName) (sender : ParticipantSender) (fingerprint «alias» : Option String) :
    (m.join room sender fingerprint «alias»).1.Consistent ∧
      (m.join room sender fingerprint «alias»).1.Opened := by
  cases hauth : m.isAuthorized room fingerprint with
  | true => exact ⟨h.join hopened hfresh hauth, hopened.join h hauth⟩
  | false =>
      rw [join_of_unauthorized hauth]
      exact ⟨h, hopened⟩

theorem consistent_step (h : m.Consistent) (hopened : m.Opened) {op : RoomOp}
    (hmember : op.ForMember m) (hfresh : op.isJoin = true → m.NextFresh) :
    (m.step op).Consistent ∧ (m.step op).Opened := by
  have hbeside : ∀ {m'}, SameRooms m m' ∧ m'.Names (fun room id => m.containsParticipant room id) →
      m'.Consistent ∧ m'.Opened :=
    fun ⟨hsame, hnames⟩ => ⟨h.of_sameRooms hsame hnames, hopened.of_sameRooms hsame⟩
  cases op with
  | allow room fp => exact hbeside ⟨⟨rfl, rfl, rfl⟩, h.names.keyframeCache, h.names.keyframeBuffer,
      h.names.pliState, h.names.streamOwner, h.names.receiverStates⟩
  | join room sender fp al => exact consistent_join h hopened (hfresh rfl) room sender fp al
  | joinWs room fp => exact consistent_join h hopened (hfresh rfl) room .webSocket fp none
  | leave room id => exact ⟨h.leave hopened room id, hopened.leave room id⟩
  | updateKeyframeCache room id pkt => exact hbeside (updateKeyframeCache_spec h.names pkt hmember)
  | registerStream room id pkt => exact hbeside (registerStream_spec h.names pkt hmember)
  | updateReceiverState room id bwe loss now =>
      exact hbeside (updateReceiverState_spec h.names bwe loss now hmember)
  | shouldForwardPli room id streamId now =>
      exact hbeside (shouldForwardPli_spec h.names room streamId now)
  | observeQuality room id now report =>
      exact ⟨h.observeQuality room id now report, hopened.observeQuality room id now report⟩

/-! ## Ids come from a counter -/

/-- The ids in use are among the `n` that have been drawn. -/
structure Drawn (start : ParticipantId) (n : ℕ) (m : RoomManager) : Prop where
  next : m.nextParticipantId = start + UInt64.ofNat n
  ids : ∀ room, ∀ p ∈ m.localSenders room, ∃ i < n, p.id = start + UInt64.ofNat i

variable {start : ParticipantId} {n : ℕ}

/-- The counter has not come round yet. -/
theorem Drawn.nextFresh (h : m.Drawn start n) (hn : n < 2 ^ 64) : m.NextFresh := by
  intro room p hp hid
  obtain ⟨i, hi, hdrawn⟩ := h.ids room p hp
  rw [hdrawn, h.next] at hid
  have heq := congrArg UInt64.toNat (UInt64.add_right_inj start |>.mp hid)
  rw [UInt64.toNat_ofNat_of_lt' (hi.trans hn), UInt64.toNat_ofNat_of_lt' hn] at heq
  omega

theorem Drawn.of_subset {m' : RoomManager} (h : m.Drawn start n)
    (hnext : m'.nextParticipantId = m.nextParticipantId)
    (hsub : ∀ room, ∀ p ∈ m'.localSenders room, p ∈ m.localSenders room) : m'.Drawn start n :=
  ⟨hnext.trans h.next, fun room p hp => h.ids room p (hsub room p hp)⟩

theorem Drawn.join (h : m.Drawn start n) (hauth : m.isAuthorized room fingerprint = true) :
    (m.join room sender fingerprint «alias»).1.Drawn start (n + 1) := by
  constructor
  · rw [join_eq hauth, UInt64.ofNat_add, ← UInt64.add_assoc, ← h.next]
    rfl
  · intro a p hp
    rcases (mem_localSenders_join hauth).mp hp with ⟨hold, -⟩ | ⟨-, rfl⟩
    · exact (h.ids a p hold).imp fun i hi => ⟨hi.1.trans n.lt_succ_self, hi.2⟩
    · exact ⟨n, n.lt_succ_self, h.next⟩

theorem leave_next (m : RoomManager) (room : RoomName) (id : ParticipantId) :
    (m.leave room id).1.nextParticipantId = m.nextParticipantId := by
  rw [leave, depart]
  cases m.rooms.lookup room with
  | none => rfl
  | some r => dsimp only; split <;> rfl

theorem SameRooms.drawn {m' : RoomManager} (hsame : SameRooms m m') (h : m.Drawn start n) :
    m'.Drawn start n :=
  h.of_subset hsame.next fun a _ hp => hsame.localSenders a ▸ hp

theorem names_true (m : RoomManager) : m.Names fun _ _ => True :=
  ⟨fun _ _ _ => trivial, fun _ _ _ => trivial, fun _ _ _ => trivial, fun _ _ _ => trivial,
    fun _ _ _ => trivial⟩

theorem drawn_join (h : m.Drawn start n) (room : RoomName) (sender : ParticipantSender)
    (fingerprint «alias» : Option String) :
    ∃ k ≤ n + 1, (m.join room sender fingerprint «alias»).1.Drawn start k := by
  cases hauth : m.isAuthorized room fingerprint with
  | true => exact ⟨n + 1, le_refl _, h.join hauth⟩
  | false =>
      rw [join_of_unauthorized hauth]
      exact ⟨n, n.le_succ, h⟩

/-- Only joins draw ids. -/
theorem drawn_step (h : m.Drawn start n) (op : RoomOp) :
    ∃ k ≤ n + [op].countP RoomOp.isJoin, (m.step op).Drawn start k := by
  cases op with
  | allow room fp => exact ⟨n, le_refl _, SameRooms.drawn (m := m) ⟨rfl, rfl, rfl⟩ h⟩
  | join room sender fp al => exact drawn_join h room sender fp al
  | joinWs room fp => exact drawn_join h room .webSocket fp none
  | leave room id =>
      exact ⟨n, le_refl _, h.of_subset (leave_next m room id) fun _ _ hp =>
        (mem_localSenders_leave.mp hp).1⟩
  | updateKeyframeCache room id pkt =>
      exact ⟨n, le_refl _, (updateKeyframeCache_spec m.names_true pkt trivial).1.drawn h⟩
  | registerStream room id pkt =>
      exact ⟨n, le_refl _, (registerStream_spec m.names_true pkt trivial).1.drawn h⟩
  | updateReceiverState room id bwe loss now =>
      exact ⟨n, le_refl _, (updateReceiverState_spec m.names_true bwe loss now trivial).1.drawn h⟩
  | shouldForwardPli room id streamId now =>
      exact ⟨n, le_refl _, (shouldForwardPli_spec m.names_true room streamId now).1.drawn h⟩
  | observeQuality room id now report =>
      refine ⟨n, le_refl _, h.of_subset ?_ fun a _ hp =>
        observeQuality_localSenders m room id now report a ▸ hp⟩
      cases hlookup : m.rooms.lookup room with
      | none => rw [step, observeQuality_of_absent hlookup]
      | some r => rw [step, observeQuality_eq hlookup]

/-! ## Every run -/

/-- Every join of the run draws an id that nobody has. -/
theorem eachStep_nextFresh {ops : List RoomOp} (hdrawn : m.Drawn start n)
    (hjoins : n + ops.countP RoomOp.isJoin ≤ 2 ^ 64) :
    EachStep step (fun m op => op.isJoin = true → m.NextFresh) m ops := by
  induction ops generalizing m n with
  | nil => trivial
  | cons op ops ih =>
      rw [← List.singleton_append, List.countP_append] at hjoins
      obtain ⟨k, hk, hnext⟩ := drawn_step hdrawn op
      refine ⟨fun hjoin => ?_, ih hnext (by omega)⟩
      rw [List.countP_cons_of_pos hjoin] at hjoins
      exact hdrawn.nextFresh (by omega)

theorem consistent_run {ops : List RoomOp} (h : m.Consistent) (hopened : m.Opened)
    (hmember : EachStep step (fun m op => op.ForMember m) m ops)
    (hfresh : EachStep step (fun m op => op.isJoin = true → m.NextFresh) m ops) :
    (run step m ops).Consistent :=
  (throughout_of_eachStep (P := fun m => m.Consistent ∧ m.Opened)
    (fun _ _ hs hop => consistent_step hs.1 hs.2 hop.1 hop.2) ⟨h, hopened⟩
    (eachStep_and.mpr ⟨hmember, hfresh⟩)).last.1

theorem initially (start : ParticipantId) (acl : Option (Table RoomName (List String))) :
    let m : RoomManager := ⟨∅, acl, [], start, ∅, ∅, ∅, ∅, ∅⟩
    m.Consistent ∧ m.Opened ∧ m.Drawn start 0 := by
  refine ⟨⟨Table.all_empty, ?_, ?_, ?_⟩, ?_, ?_, ?_⟩
  · intro a b _ p hp
    exact absurd hp List.not_mem_nil
  · exact ⟨Table.all_empty, Table.all_empty, Table.all_empty, Table.all_empty, Table.all_empty⟩
  · intro a i e hget
    exact nomatch hget
  · intro a
    exact iff_of_false (AList.notMem_empty a) Nat.zero_ne_one
  · exact (UInt64.add_zero start).symm
  · intro a p hp
    exact absurd hp List.not_mem_nil

/-- A relay starts with open rooms or with an empty list. -/
theorem exists_acl {m₀ : RoomManager} (hnew : m₀ = new start ∨ m₀ = withAcl start) :
    ∃ acl, m₀ = ⟨∅, acl, [], start, ∅, ∅, ∅, ∅, ∅⟩ := by
  rcases hnew with rfl | rfl
  · exact ⟨none, rfl⟩
  · exact ⟨some ∅, rfl⟩

/-- Whatever the rooms are used for, their state stays consistent as long as no
more participants have joined than there are ids. -/
theorem state_consistent {m₀ : RoomManager} {ops : List RoomOp}
    (hnew : m₀ = new start ∨ m₀ = withAcl start)
    (hmember : EachStep step (fun m op => op.ForMember m) m₀ ops)
    (hjoins : ops.countP RoomOp.isJoin ≤ 2 ^ 64) : (run step m₀ ops).Consistent := by
  obtain ⟨acl, rfl⟩ := exists_acl hnew
  obtain ⟨hconsistent, hopened, hdrawn⟩ := initially start acl
  exact consistent_run hconsistent hopened hmember
    (eachStep_nextFresh hdrawn ((Nat.zero_add _).symm ▸ hjoins))

theorem reconnected_room_consistent :
    (run step (new 7) [.join [1] .quic (some "ab") none, .joinWs [1] none,
      .updateReceiverState [1] 7 900 0 5, .join [1] .quic (some "ab") none,
      .leave [1] 8]).Consistent :=
  state_consistent (Or.inl rfl) (by decide) (by decide)

/-! ### Beyond that many joins -/

/-- Anonymous participants come into the room and leave it one after another. -/
def visits (room : RoomName) : ParticipantId → ℕ → List RoomOp
  | _, 0 => []
  | id, k + 1 => .join room .quic none none :: .leave room id :: visits room (id + 1) k

theorem visits_forMember {room : RoomName} {id : ParticipantId} {k : ℕ} {op : RoomOp}
    (hop : op ∈ visits room id k) (m : RoomManager) : op.ForMember m := by
  induction k generalizing id with
  | zero => exact absurd hop List.not_mem_nil
  | succ k ih =>
      rcases List.mem_cons.mp hop with rfl | hop
      · exact trivial
      · rcases List.mem_cons.mp hop with rfl | hop
        · exact trivial
        · exact ih hop

theorem leave_acl (m : RoomManager) (room : RoomName) (id : ParticipantId) :
    (m.leave room id).1.acl = m.acl := by
  rw [leave, depart]
  cases m.rooms.lookup room with
  | none => rfl
  | some r => dsimp only; split <;> rfl

theorem isAuthorized_of_open (hopen : m.acl = none) (room : RoomName) (fp : Option String) :
    m.isAuthorized room fp = true := by
  unfold isAuthorized
  rw [hopen]

/-- Visits to one room draw ids and leave the other rooms as they were. -/
theorem run_visits (hopen : m.acl = none) (room : RoomName) (k : ℕ) :
    (run step m (visits room m.nextParticipantId k)).acl = none ∧
      (run step m (visits room m.nextParticipantId k)).nextParticipantId =
        m.nextParticipantId + UInt64.ofNat k ∧
      ∀ a, a ≠ room → ∀ p ∈ m.localSenders a,
        p ∈ (run step m (visits room m.nextParticipantId k)).localSenders a := by
  induction k generalizing m with
  | zero => exact ⟨hopen, (UInt64.add_zero _).symm, fun _ _ _ hp => hp⟩
  | succ k ih =>
      have hauth := isAuthorized_of_open hopen room none
      have hjoin : ((m.join room .quic none none).1).acl = none := by
        rw [join_eq hauth]
        exact hopen
      have hnext : (m.join room .quic none none).1.nextParticipantId = m.nextParticipantId + 1 := by
        rw [join_eq hauth]
      obtain ⟨hacl, hid, hstay⟩ := ih
        (m := ((m.join room .quic none none).1.leave room m.nextParticipantId).1)
        ((leave_acl _ _ _).trans hjoin)
      rw [leave_next, hnext] at hacl hid hstay
      refine ⟨hacl, hid.trans ?_, fun a ha p hp => hstay a ha p ?_⟩
      · rw [UInt64.add_assoc, Nat.add_comm k 1, UInt64.ofNat_add]
        rfl
      · exact mem_localSenders_leave.mpr
          ⟨(mem_localSenders_join hauth).mpr (Or.inl ⟨hp, fun h => ha h.1⟩), fun h => ha h.1⟩

/-- One stays in its room while `k` others come into another one and leave, and one more comes. -/
def stays (room other : RoomName) (k : ℕ) : List RoomOp :=
  .join room .quic none none :: visits other 2 k ++ [.join other .quic none none]

theorem stays_forMember {room other : RoomName} {k : ℕ} {op : RoomOp} (hop : op ∈ stays room other k)
    (m : RoomManager) : op.ForMember m := by
  rcases List.mem_cons.mp hop with rfl | hop
  · exact trivial
  · rcases List.mem_append.mp hop with hop | hop
    · exact visits_forMember hop m
    · rw [List.mem_singleton.mp hop]
      exact trivial

/-- When the counter has come round, the last one has the id of the first. -/
theorem mem_stays {room other : RoomName} {k : ℕ} (hne : room ≠ other) (hk : 2 + UInt64.ofNat k = 1)
    (a : RoomName) (ha : a = room ∨ a = other) :
    ⟨1, .quic, none, none⟩ ∈ (run step (new 1) (stays room other k)).localSenders a := by
  have hauth := isAuthorized_of_open (m := new 1) rfl room none
  have hmem : ⟨1, .quic, none, none⟩ ∈ ((new 1).join room .quic none none).1.localSenders room :=
    (mem_localSenders_join hauth).mpr (Or.inr ⟨rfl, rfl⟩)
  have hopen : ((new 1).join room .quic none none).1.acl = none := by
    rw [join_eq hauth]
    rfl
  have hnext : ((new 1).join room .quic none none).1.nextParticipantId = 2 := by
    rw [join_eq hauth]
    rfl
  obtain ⟨hopen', hround, hstay⟩ := run_visits hopen other k
  rw [hnext] at hopen' hround hstay
  have hlast := isAuthorized_of_open hopen' other none
  have hrun : run step (new 1) (stays room other k) =
      ((run step ((new 1).join room .quic none none).1 (visits other 2 k)).join
        other .quic none none).1 := by
    rw [stays, run_append]
    rfl
  rw [hrun, mem_localSenders_join hlast]
  rcases ha with rfl | rfl
  · exact Or.inl ⟨hstay a hne _ hmem, fun h => hne h.1⟩
  · exact Or.inr ⟨rfl, by rw [hround, hk]⟩

theorem wrapped_counter_repeats_id :
    EachStep step (fun m op => op.ForMember m) (new 1) (stays [1] [2] (2 ^ 64 - 1)) ∧
      ¬ (run step (new 1) (stays [1] [2] (2 ^ 64 - 1))).Consistent := by
  have hne : ([1] : RoomName) ≠ [2] := by decide
  have hround : (2 : UInt64) + UInt64.ofNat (2 ^ 64 - 1) = 1 := by decide
  refine ⟨eachStep_of_forall fun op hop m => stays_forMember hop m, fun h => ?_⟩
  exact h.disjoint [1] [2] hne _ (mem_stays hne hround _ (Or.inl rfl)) _
    (mem_stays hne hround _ (Or.inr rfl)) rfl

end RoomManager
end Wzp.Relay.Sfu
