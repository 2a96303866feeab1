import Wzp.Relay.CallRooms
import Wzp.Relay.RoomRaces
import Wzp.Relay.SessionManager

/-!
# The rooms and their connections

A QUIC or WebSocket connection is given a session, joins its room, leaves it and gives the
session back. Each is a task of its own, and a join or a leave comes section by section.
-/
namespace Wzp.Relay

/-- The fingerprint a session is created with comes from the token alone. -/
def Client.authenticatedFp (c : Client) (authUrl : Bool) : Option String :=
  if authUrl then some c.tokenFp else none

/-- What the manager keeps of a session is true of its connection. -/
def Client.Describes (c : Client) (authUrl : Bool) (info : SessionInfo) : Prop :=
  info.roomName = c.room ∧ info.fingerprint = c.authenticatedFp authUrl ∧ info.state = .active

namespace Sfu
open Runs Leases

namespace RoomManager

def roomSize (m : RoomManager) (room : RoomName) : ℕ :=
  ((m.rooms.lookup room).map fun r => r.participants.length).getD 0

def list (m : RoomManager) : List (RoomName × ℕ) :=
  m.rooms.entries.map fun e => (e.1, e.2.participants.length)

end RoomManager

/-! ## Connections -/

/-- How far a connection has got. The id is that of its session. -/
inductive SessionPhase where
  | connecting
  | created (id : SessionId)
  | counted (id : SessionId)
  | joining (id : SessionId)
  | authorized (id : SessionId)
  | entering (id : SessionId) (wasEmpty : Bool)
  | inRoom (id : SessionId) (participant : ParticipantId)
  | departing (id : SessionId) (participant : ParticipantId)
  | releasing (id : SessionId) (participant : ParticipantId)
  | closing (id : SessionId) (participant : ParticipantId)
  | clearing (id : SessionId) (participant : ParticipantId)
  | announcing (id : SessionId) (participant : ParticipantId)
  | left (id : SessionId) (participant : Option ParticipantId)
  | uncounted (id : SessionId)
  | closed
  deriving DecidableEq

namespace SessionPhase

/-- The session it has. -/
def session : SessionPhase → Option SessionId
  | connecting | closed => none
  | created id | counted id | joining id | authorized id | entering id _ | inRoom id _
  | departing id _ | releasing id _ | closing id _ | clearing id _ | announcing id _ | left id _
  | uncounted id => some id

/-- Its session, as long as the gauge counts it. -/
def gauged : SessionPhase → Option SessionId
  | connecting | created _ | uncounted _ | closed => none
  | counted id | joining id | authorized id | entering id _ | inRoom id _
  | departing id _ | releasing id _ | closing id _ | clearing id _ | announcing id _ | left id _ =>
      some id

/-- The participant it is, or was. -/
def participant : SessionPhase → Option ParticipantId
  | inRoom _ p | departing _ p | releasing _ p | closing _ p | clearing _ p | announcing _ p => some p
  | left _ p => p
  | _ => none

/-- The participant it may find in its room. -/
def inside : SessionPhase → Option ParticipantId
  | inRoom _ p | departing _ p => some p
  | _ => none

/-- Its room has not been taken away by it. -/
def keepsRoom : SessionPhase → Bool
  | inRoom .. | departing .. | releasing .. | closing .. => true
  | _ => false

/-- A leave keeps the entry of the room from the lookup to the release. -/
def holdsEntry : SessionPhase → Bool
  | departing .. | releasing .. => true
  | _ => false

end SessionPhase

structure Connection where
  client : Client
  phase : SessionPhase
  deriving DecidableEq

/-- What the connections share. -/
structure RoomService where
  sessions : SessionManager
  activeSessions : ℤ
  rooms : RoomManager

namespace RoomService

/-- Only a QUIC connection looks whether there is a place. -/
def callRoomFull (r : RoomService) (client : Client) : Bool :=
  client.kind = .room && callPrefix.isPrefixOf client.room && r.rooms.roomSize client.room ≥ 2

/-- The next step of a connection. `held` says whether somebody keeps the entry of its room. -/
def advance (r : RoomService) (client : Client) (authUrl held : Bool) (now : ℕ) (nanos : UInt64) :
    SessionPhase → RoomService × SessionPhase
  | .connecting =>
      match r.sessions.createSession client.room (client.authenticatedFp authUrl) now nanos with
      | (sessions, .ok id) => ({ r with sessions }, .created id)
      | (sessions, .error _) => ({ r with sessions }, .closed)
  | .created id => ({ r with activeSessions := r.activeSessions + 1 }, .counted id)
  | .counted id => (r, if r.callRoomFull client then .left id none else .joining id)
  | .joining id =>
      (r, if r.rooms.isAuthorized client.room (client.fingerprint authUrl) then .authorized id
        else .left id none)
  | .authorized id => (r, .entering id (r.rooms.wasEmpty client.room))
  | .entering id wasEmpty =>
      if held then (r, .entering id wasEmpty)
      else
        let p := client.participant authUrl r.rooms.nextParticipantId
        let (rooms, joined) := r.rooms.enter client.room p.sender p.fingerprint p.alias wasEmpty
        ({ r with rooms }, .inRoom id joined.participantId)
  | .inRoom id p => (r, if client.room ∈ r.rooms.rooms then .departing id p else .left id (some p))
  | .departing id p =>
      let (rooms, room) := r.rooms.depart client.room p
      ({ r with rooms }, if room.any Room.isEmpty then .releasing id p else .left id (some p))
  | .releasing id p => (r, .closing id p)
  | .closing id p =>
      if held then (r, .closing id p)
      else ({ r with rooms := r.rooms.removeRoom client.room }, .clearing id p)
  | .clearing id p => ({ r with rooms := r.rooms.clearRoomState client.room }, .announcing id p)
  | .announcing id p => ({ r with rooms := r.rooms.send (.localLeave client.room) }, .left id (some p))
  | .left id _ => ({ r with activeSessions := r.activeSessions - 1 }, .uncounted id)
  | .uncounted id => ({ r with sessions := r.sessions.removeSession id }, .closed)
  | .closed => (r, .closed)

end RoomService

structure RoomServer where
  service : RoomService
  connections : List Connection

inductive ServerEvent where
  | accept (client : Client)
  | advance (i : ℕ) (now : ℕ) (nanos : UInt64)
  | leaveAgain (i : ℕ)
  | rooms (op : RoomOp)

/-- Only connections join and leave. -/
def RoomOp.moves : RoomOp → Bool
  | join .. | joinWs .. | leave .. => true
  | _ => false

namespace RoomServer

def start (rooms : RoomManager) (maxSessions : ℕ) : RoomServer := ⟨⟨.new maxSessions, 0, rooms⟩, []⟩

def held (s : RoomServer) (room : RoomName) : Bool :=
  s.connections.any fun c => c.client.room = room && c.phase.holdsEntry

/-- A QUIC connection whose media loop does not end in time leaves its room for this loop, which
may have left already. -/
def step (authUrl : Bool) (s : RoomServer) : ServerEvent → RoomServer
  | .accept client =>
      if client.kind = .signal then s
      else { s with connections := s.connections ++ [⟨client, .connecting⟩] }
  | .advance i now nanos =>
      match s.connections[i]? with
      | some c =>
          let (service, phase) :=
            s.service.advance c.client authUrl (s.held c.client.room) now nanos c.phase
          ⟨service, s.connections.set i { c with phase }⟩
      | none => s
  | .leaveAgain i =>
      match s.connections[i]? with
      | some ⟨client, .left id (some p)⟩ =>
          if client.kind = .room ∧ client.room ∈ s.service.rooms.rooms then
            { s with connections := s.connections.set i ⟨client, .departing id p⟩ }
          else s
      | _ => s
  | .rooms op =>
      if op.moves then s else { s with service := { s.service with rooms := s.service.rooms.step op } }

/-- What the connections have, as far as `f` tells. -/
def holding {ι : Type} (s : RoomServer) (f : SessionPhase → Option ι) (i : ℕ) : Option ι :=
  s.connections[i]?.bind fun c => f c.phase

def holders {ι : Type} (s : RoomServer) (f : SessionPhase → Option ι) : Set ℕ :=
  {i | (s.holding f i).isSome}

end RoomServer

/-! ## What a step of a connection does -/

namespace RoomService
variable (r : RoomService) (client : Client) (authUrl held : Bool) (now : ℕ) (nanos : UInt64)

/-- To the sessions. -/
theorem advance_sessions (ph : SessionPhase) :
    let after := r.advance client authUrl held now nanos ph
    (after.1.sessions = r.sessions ∧ after.2.session = ph.session) ∨
    (ph = .connecting ∧ r.sessions.totalCount < r.sessions.maxSessions ∧
      after.1.sessions = (r.sessions.createSession client.room (client.authenticatedFp authUrl)
        now nanos).1 ∧ after.2.session = some (sessionIdOf r.sessions.nextSession nanos)) ∨
    ∃ id, ph.session = some id ∧ after.1.sessions = r.sessions.removeSession id ∧
      after.2.session = none := by
  intro after
  cases ph with
  | connecting =>
      rcases Nat.lt_or_ge r.sessions.totalCount r.sessions.maxSessions with hfree | hfull
      · refine Or.inr (Or.inl ⟨rfl, hfree, ?_⟩)
        simp [after, advance, SessionManager.createSession_free hfree, SessionPhase.session]
      · left
        simp [after, advance, SessionManager.createSession_full hfull, SessionPhase.session]
  | uncounted id => exact Or.inr (Or.inr ⟨id, rfl, rfl, rfl⟩)
  | counted id | joining id | inRoom id p | departing id p =>
      refine Or.inl ⟨rfl, ?_⟩
      dsimp only [after, advance]
      split <;> rfl
  | entering id wasEmpty =>
      left
      cases held <;> exact ⟨rfl, rfl⟩
  | closing id p =>
      left
      cases held <;> exact ⟨rfl, rfl⟩
  | _ => exact Or.inl ⟨rfl, rfl⟩

/-- To the gauge. -/
theorem advance_activeSessions (ph : SessionPhase) :
    let after := r.advance client authUrl held now nanos ph
    (after.1.activeSessions = r.activeSessions ∧ after.2.gauged = ph.gauged) ∨
    (∃ id, ph = .created id ∧ after.1.activeSessions = r.activeSessions + 1 ∧
      after.2.gauged = some id) ∨
    ∃ id p, ph = .left id p ∧ after.1.activeSessions = r.activeSessions - 1 ∧
      after.2.gauged = none := by
  intro after
  cases ph with
  | created id => exact Or.inr (Or.inl ⟨id, rfl, rfl, rfl⟩)
  | left id p => exact Or.inr (Or.inr ⟨id, p, rfl, rfl, rfl⟩)
  | connecting =>
      left
      dsimp only [after, advance]
      split <;> exact ⟨rfl, rfl⟩
  | counted id | joining id | inRoom id p | departing id p =>
      refine Or.inl ⟨rfl, ?_⟩
      dsimp only [after, advance]
      split <;> rfl
  | entering id wasEmpty =>
      left
      cases held <;> exact ⟨rfl, rfl⟩
  | closing id p =>
      left
      cases held <;> exact ⟨rfl, rfl⟩
  | _ => exact Or.inl ⟨rfl, rfl⟩

/-- The participants stay where they are. -/
structure Quiet (m m' : RoomManager) (ph ph' : SessionPhase) : Prop where
  rooms : m'.rooms = m.rooms
  next : m'.nextParticipantId = m.nextParticipantId
  participant : ph'.participant = ph.participant
  inside : ph'.inside = ph.inside
  keepsRoom : ph'.keepsRoom = ph.keepsRoom

/-- To the rooms. -/
theorem advance_rooms (ph : SessionPhase) :
    let after := r.advance client authUrl held now nanos ph
    Quiet r.rooms after.1.rooms ph after.2 ∨
    (∃ id p, ph = .inRoom id p ∧ client.room ∉ r.rooms.rooms ∧ after.1.rooms = r.rooms ∧
      after.2 = .left id (some p)) ∨
    (∃ id p, ph = .left id p ∧ after.1.rooms = r.rooms ∧ after.2 = .uncounted id) ∨
    (∃ id wasEmpty, ph = .entering id wasEmpty ∧
      (let p := client.participant authUrl r.rooms.nextParticipantId
      after.1.rooms = (r.rooms.enter client.room p.sender p.fingerprint p.alias wasEmpty).1) ∧
      after.2 = .inRoom id r.rooms.nextParticipantId) ∨
    (∃ id p, ph = .departing id p ∧ after.1.rooms = (r.rooms.depart client.room p).1 ∧
      after.2 = if (r.rooms.depart client.room p).2.any Room.isEmpty then .releasing id p
        else .left id (some p)) ∨
    ∃ id p, ph = .closing id p ∧ after.1.rooms = r.rooms.removeRoom client.room ∧
      after.2 = .clearing id p := by
  intro after
  cases ph with
  | connecting =>
      left
      dsimp only [after, advance]
      split <;> exact ⟨rfl, rfl, rfl, rfl, rfl⟩
  | counted id | joining id =>
      left
      refine ⟨rfl, rfl, ?_, ?_, ?_⟩ <;> dsimp only [after, advance] <;> split <;> rfl
  | entering id wasEmpty =>
      cases held with
      | true => exact Or.inl ⟨rfl, rfl, rfl, rfl, rfl⟩
      | false =>
          refine Or.inr (Or.inr (Or.inr (Or.inl ⟨id, wasEmpty, rfl, rfl, ?_⟩)))
          exact congrArg (SessionPhase.inRoom id)
            (RoomTasks.enter_participantId r.rooms client.room _ _ _ wasEmpty)
  | inRoom id p =>
      by_cases hroom : client.room ∈ r.rooms.rooms
      · left
        simp only [after, advance, if_pos hroom]
        exact ⟨rfl, rfl, rfl, rfl, rfl⟩
      · refine Or.inr (Or.inl ⟨id, p, rfl, hroom, rfl, ?_⟩)
        simp only [after, advance, if_neg hroom]
  | departing id p => exact Or.inr (Or.inr (Or.inr (Or.inr (Or.inl ⟨id, p, rfl, rfl, rfl⟩))))
  | closing id p =>
      cases held with
      | true => exact Or.inl ⟨rfl, rfl, rfl, rfl, rfl⟩
      | false => exact Or.inr (Or.inr (Or.inr (Or.inr (Or.inr ⟨id, p, rfl, rfl, rfl⟩))))
  | left id p => exact Or.inr (Or.inr (Or.inl ⟨id, p, rfl, rfl, rfl⟩))
  | _ => exact Or.inl ⟨rfl, rfl, rfl, rfl, rfl⟩

end RoomService

/-! ## The rooms, section by section -/

namespace RoomManager
variable {m : RoomManager} {room a : RoomName} {id : ParticipantId} {sender : ParticipantSender}
  {fingerprint «alias» : Option String} {wasEmpty : Bool} {op : RoomOp}

def RoomsConsistent (m : RoomManager) : Prop := m.rooms.All fun _ r => r.Consistent

theorem mem_rooms_enter :
    a ∈ (m.enter room sender fingerprint «alias» wasEmpty).1.rooms ↔ a = room ∨ a ∈ m.rooms := by
  rw [enter_eq]
  exact Table.mem_insert

theorem enter_next : (m.enter room sender fingerprint «alias» wasEmpty).1.nextParticipantId =
    m.nextParticipantId + 1 := by
  rw [enter_eq]

theorem RoomsConsistent.enter (h : m.RoomsConsistent) (hfresh : m.NextFresh) :
    (m.enter room sender fingerprint «alias» wasEmpty).1.RoomsConsistent := by
  have hold : (m.roomOrNew room).Consistent := by
    rw [roomOrNew]
    cases hlookup : m.rooms.lookup room with
    | none => exact .new
    | some r => exact h room r hlookup
  rw [RoomsConsistent, enter_eq]
  refine h.insert ((hold.replace fingerprint).add sender «alias» .new ?_ ?_)
  · intro hmem
    obtain ⟨p, hp, hid⟩ := List.mem_map.mp hmem
    exact hfresh room p (roomOrNew_participants m room ▸ (Room.mem_replace.mp hp).1) hid
  · rintro fp rfl p hp
    exact (Room.mem_replace.mp hp).2 rfl

theorem mem_rooms_depart : a ∈ (m.depart room id).1.rooms ↔ a ∈ m.rooms := by
  rw [depart]
  cases hlookup : m.rooms.lookup room with
  | none => rfl
  | some r =>
      have hmem : room ∈ m.rooms := AList.lookup_isSome.mp (hlookup ▸ rfl)
      exact Table.mem_insert.trans (or_iff_right_of_imp fun ha => ha ▸ hmem)

theorem depart_next : (m.depart room id).1.nextParticipantId = m.nextParticipantId := by
  rw [depart]
  cases m.rooms.lookup room with
  | none => rfl
  | some r => rfl

theorem RoomsConsistent.depart (h : m.RoomsConsistent) : (m.depart room id).1.RoomsConsistent := by
  rw [RoomManager.depart]
  cases hlookup : m.rooms.lookup room with
  | none => exact h
  | some r => exact h.insert ((h room r hlookup).remove id)

/-- Somebody is still in the room. -/
theorem localSenders_depart_ne_nil (hroom : room ∈ m.rooms)
    (hrest : (m.depart room id).2.any Room.isEmpty = false) :
    (m.depart room id).1.localSenders room ≠ [] := by
  obtain ⟨r, hlookup⟩ := Option.isSome_iff_exists.mp (AList.lookup_isSome.mpr hroom)
  have hrooms : (m.depart room id).1.rooms = m.rooms.insert room (r.left id) := by
    rw [depart, hlookup]
    rfl
  rw [localSenders_of_lookup (by rw [hrooms, Table.lookup_insert_self])]
  intro hnil
  have hsome : (m.depart room id).2 = some (r.left id) := by
    rw [depart, hlookup]
    rfl
  rw [hsome] at hrest
  exact absurd (List.isEmpty_iff.mpr hnil) (Bool.eq_false_iff.mp hrest)

/-- Neither the rooms nor those in them change. -/
structure SameMembers (m m' : RoomManager) : Prop where
  localSenders : ∀ a, m'.localSenders a = m.localSenders a
  rooms : ∀ a, a ∈ m'.rooms ↔ a ∈ m.rooms
  next : m'.nextParticipantId = m.nextParticipantId
  consistent : m.RoomsConsistent → m'.RoomsConsistent

theorem SameMembers.of_rooms {m' : RoomManager} (hrooms : m'.rooms = m.rooms)
    (hnext : m'.nextParticipantId = m.nextParticipantId) : SameMembers m m' where
  localSenders := fun a => localSenders_congr (by rw [hrooms])
  rooms := fun a => by rw [hrooms]
  next := hnext
  consistent := fun h => by rwa [RoomsConsistent, hrooms]

theorem SameMembers.of_sameRooms {m' : RoomManager} (h : SameRooms m m') : SameMembers m m' :=
  .of_rooms h.rooms h.next

theorem sameMembers_observeQuality (m : RoomManager) (room : RoomName) (id : ParticipantId)
    (now : ℕ) (report : Proto.QualityReport) :
    SameMembers m (m.observeQuality room id now report).1 := by
  have hsame := observeQuality_localSenders m room id now report
  cases hlookup : m.rooms.lookup room with
  | none =>
      rw [observeQuality_of_absent hlookup]
      exact .of_rooms rfl rfl
  | some r =>
      have hmem : room ∈ m.rooms := AList.lookup_isSome.mp (hlookup ▸ rfl)
      rw [observeQuality_eq hlookup] at hsame ⊢
      exact ⟨hsame, fun a => Table.mem_insert.trans (or_iff_right_of_imp fun ha => ha ▸ hmem), rfl,
        fun h => h.insert ((h room r hlookup).observe id now report)⟩

theorem sameMembers_step (hop : op.moves = false) : SameMembers m (m.step op) := by
  cases op with
  | allow room fp => exact .of_rooms rfl rfl
  | join | joinWs | leave => cases hop
  | updateKeyframeCache room id pkt =>
      exact .of_sameRooms (updateKeyframeCache_spec m.names_true pkt trivial).1
  | registerStream room id pkt =>
      exact .of_sameRooms (registerStream_spec m.names_true pkt trivial).1
  | updateReceiverState room id bwe loss now =>
      exact .of_sameRooms (updateReceiverState_spec m.names_true bwe loss now trivial).1
  | shouldForwardPli room id streamId now =>
      exact .of_sameRooms (shouldForwardPli_spec m.names_true room streamId now).1
  | observeQuality room id now report => exact sameMembers_observeQuality m room id now report

end RoomManager

/-! ## What the connections have -/

namespace RoomServer
variable {ι : Type} {f : SessionPhase → Option ι} {s : RoomServer} {service : RoomService}
  {authUrl : Bool} {maxSessions n i : ℕ} {now : ℕ} {nanos : UInt64} {start : ParticipantId}
  {c : Connection} {phase : SessionPhase}

theorem holding_set (hc : s.connections[i]? = some c) (phase : SessionPhase) :
    holding ⟨service, s.connections.set i { c with phase }⟩ f =
      Function.update (s.holding f) i (f phase) := by
  funext j
  have hi : i < s.connections.length := (List.getElem?_eq_some_iff.mp hc).1
  by_cases hj : j = i
  · subst hj
    simp [holding, hi]
  · rw [Function.update_of_ne hj]
    simp [holding, List.getElem?_set_ne (Ne.symm hj)]

theorem holding_append (hf : f .connecting = none) (client : Client) :
    holding ⟨service, s.connections ++ [⟨client, .connecting⟩]⟩ f = s.holding f := by
  funext j
  rw [holding, holding, List.getElem?_append]
  split
  · rfl
  · rename_i hj
    rw [List.getElem?_eq_none (by omega : s.connections.length ≤ j)]
    cases hget : [(⟨client, .connecting⟩ : Connection)][j - s.connections.length]? with
    | none => rfl
    | some d =>
        obtain rfl := List.mem_singleton.mp (List.mem_of_getElem? hget)
        exact hf

theorem holding_eq (hc : s.connections[i]? = some c) : s.holding f i = f c.phase := by
  rw [holding, hc]
  rfl

theorem holding_same (hc : s.connections[i]? = some c) (hphase : f phase = f c.phase) :
    holding ⟨service, s.connections.set i { c with phase }⟩ f = s.holding f := by
  rw [holding_set hc, hphase, ← holding_eq hc (f := f), Function.update_eq_self]

/-- A connection that has come further still does for what it did. -/
theorem exists_set {P : Connection → Prop} {conns : List Connection} {c' : Connection}
    (hc : conns[i]? = some c) (hP : P c → P c') (h : ∃ d ∈ conns, P d) :
    ∃ d ∈ conns.set i c', P d := by
  obtain ⟨d, hd, hPd⟩ := h
  obtain ⟨j, hj⟩ := List.mem_iff_getElem?.mp hd
  by_cases hji : j = i
  · subst hji
    obtain rfl := Option.some.inj (hc.symm.trans hj)
    exact ⟨c', List.mem_set (List.getElem?_eq_some_iff.mp hc).1 c', hP hPd⟩
  · exact ⟨d, List.mem_of_getElem? ((List.getElem?_set_ne (Ne.symm hji)).trans hj), hPd⟩

end RoomServer
end Sfu
end Wzp.Relay
