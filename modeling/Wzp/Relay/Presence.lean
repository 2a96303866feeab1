import Wzp.Relay.Federation

/-!
# Federated presence

The signals between relays and how one relay handles them: who is in a global
room on which relay, and what the local clients are told about it.
-/
namespace Wzp.Relay
open FederationManager

/-- Signals as far as relays exchange or produce them here. -/
inductive SignalMessage (ι : Type) where
  | federationHello (tlsFingerprint : ι)
  | globalRoomActive (room : RoomName) (participants : List RoomParticipant)
  | globalRoomInactive (room : RoomName)
  | federatedSignalForward (inner : SignalMessage ι) (originRelayFp : ι)
  | roomUpdate (count : UInt32) (participants : List RoomParticipant)
  | other
  deriving DecidableEq

/-- First local participant in, last local participant out. -/
inductive RoomEvent where
  | localJoin (room : RoomName)
  | localLeave (room : RoomName)
  deriving DecidableEq, Repr

namespace RoomEvent

def room : RoomEvent → RoomName
  | localJoin room => room
  | localLeave room => room

def isJoin : RoomEvent → Bool
  | localJoin _ => true
  | localLeave _ => false

end RoomEvent

/-- What a relay does on a signal: signals to peers, signals to local clients,
and what it hands to its main loop together with the origin. -/
structure SignalHandled (ι : Type) where
  manager : FederationManager ι
  sends : List (ι × SignalMessage ι)
  updates : List (ParticipantId × SignalMessage ι)
  dispatched : Option (SignalMessage ι × ι)

/-- Remote participants get the label of the relay they were first heard from. -/
def tagRelay (label : String) (p : RoomParticipant) : RoomParticipant :=
  if p.relayLabel.isNone then { p with relayLabel := some label } else p

/-- The first of all entries with the same fingerprint. -/
def dedupFingerprints (ps : List RoomParticipant) : List RoomParticipant :=
  ps.eraseDupsBy fun p q => p.fingerprint == q.fingerprint

namespace PeerLink

def setActive (link : PeerLink) (room : RoomName) (participants : List RoomParticipant) :
    PeerLink :=
  { link with
    activeRooms := link.activeRooms.insert room
    remoteParticipants := Function.update link.remoteParticipants room
      (some (participants.map (tagRelay link.label))) }

/-- Forget a room, also under its canonical name. -/
def setInactive (link : PeerLink) (room : RoomName) (canonical : Option RoomName) : PeerLink :=
  let remote := Function.update link.remoteParticipants room none
  { link with
    activeRooms := link.activeRooms.filter (· ≠ room)
    remoteParticipants := match canonical with
      | some c => Function.update remote c none
      | none => remote }

end PeerLink

namespace FederationManager
variable {ι : Type}

/-- An active room here that is the same global room as `room`. -/
def localRoom (sha : Hash) (fm : FederationManager ι) (room : RoomName) : Option RoomName :=
  fm.roomMgr.activeRooms.find? fun r => fm.resolveGlobalRoom sha r = fm.resolveGlobalRoom sha room

/-- Tell the clients in the first matching local room who is in it. -/
def roomUpdates (sha : Hash) (fm : FederationManager ι) (room : RoomName)
    (remote : RoomName → List RoomParticipant) : List (ParticipantId × SignalMessage ι) :=
  match fm.roomMgr.activeRooms.find? fun r =>
      fm.isGlobalRoom sha r && fm.resolveGlobalRoom sha r = fm.resolveGlobalRoom sha room with
  | none => []
  | some r =>
      let all := dedupFingerprints (fm.roomMgr.localParticipantList r ++ remote r)
      ((fm.roomMgr.localSenders r).filter (·.sender = .quic)).map fun p =>
        (p.id, .roomUpdate (UInt32.ofNat all.length) all)

/-- Participants of all peers in a local room, under its canonical and its own name. -/
def allRemote (sha : Hash) (fm : FederationManager ι) (r : RoomName) : List RoomParticipant :=
  match fm.resolveGlobalRoom sha r with
  | none => []
  | some canonical => fm.peerLinks.flatMap fun (_, link) =>
      (link.remoteParticipants canonical).getD [] ++
        if canonical ≠ r then (link.remoteParticipants r).getD [] else []

variable [DecidableEq ι]

def link? (fm : FederationManager ι) (peer : ι) : Option PeerLink := fm.peerLinks.lookup peer

/-- All peers but the one a signal came from. -/
def otherPeers (fm : FederationManager ι) (source : ι) : List ι := fm.peers.filter (· ≠ source)

/-- Participants of the other peers, under the canonical name only. -/
def remainingRemote (sha : Hash) (fm : FederationManager ι) (source : ι) (room : RoomName) :
    List RoomParticipant :=
  match fm.resolveGlobalRoom sha room with
  | none => []
  | some canonical => dedupFingerprints ((fm.peerLinks.filter (·.1 ≠ source)).flatMap fun (_, link) =>
      (link.remoteParticipants canonical).getD [])

def handleActive (sha : Hash) (fm : FederationManager ι) (source : ι) (room : RoomName)
    (participants : List RoomParticipant) : SignalHandled ι :=
  if fm.isGlobalRoom sha room then
    let tagged := match fm.link? source with
      | some link => participants.map (tagRelay link.label)
      | none => participants
    let fm := fm.modifyLink source (·.setActive room participants)
    { manager := fm
      sends := (fm.otherPeers source).map fun fp => (fp, .globalRoomActive room tagged)
      updates := fm.roomUpdates sha room (fm.allRemote sha)
      dispatched := none }
  else ⟨fm, [], [], none⟩

/-- A room that has become empty at a peer is announced as still active if
there are participants here or at other peers. -/
def handleInactive (sha : Hash) (fm : FederationManager ι) (source : ι) (room : RoomName) :
    SignalHandled ι :=
  let fm := fm.modifyLink source (·.setInactive room (fm.resolveGlobalRoom sha room))
  let remaining := fm.remainingRemote sha source room
  let msg := match fm.localRoom sha room with
    | some r => .globalRoomActive room (remaining ++ fm.roomMgr.localParticipantList r)
    | none => if remaining ≠ [] then .globalRoomActive room remaining else .globalRoomInactive room
  { manager := fm
    sends := (fm.otherPeers source).map fun fp => (fp, msg)
    updates := fm.roomUpdates sha room fun _ => remaining
    dispatched := none }

def handleSignal (sha : Hash) (fm : FederationManager ι) (source : ι) (now : ℕ) :
    SignalMessage ι → SignalHandled ι
  | .globalRoomActive room participants =>
      (fm.touch source now).handleActive sha source room participants
  | .globalRoomInactive room => (fm.touch source now).handleInactive sha source room
  | .federatedSignalForward inner originRelayFp =>
      -- a forward of our own came back
      if originRelayFp = fm.localTlsFp then ⟨fm.touch source now, [], [], none⟩
      else ⟨fm.touch source now, [], [], some (inner, originRelayFp)⟩
  | _ => ⟨fm.touch source now, [], [], none⟩

omit [DecidableEq ι] in
/-- Announce a local change of a global room to all peers. -/
def dispatchRoomEvent (sha : Hash) (fm : FederationManager ι) : RoomEvent → List (ι × SignalMessage ι)
  | .localJoin room =>
      if fm.isGlobalRoom sha room then
        fm.peers.map fun fp => (fp, .globalRoomActive room (fm.roomMgr.localParticipantList room))
      else []
  | .localLeave room =>
      if fm.isGlobalRoom sha room then fm.peers.map fun fp => (fp, .globalRoomInactive room) else []

/-! ## What one announcement does -/

section
omit [DecidableEq ι]

theorem SameSetup.localRoom {a b : FederationManager ι} (h : SameSetup a b) (sha : Hash)
    (room : RoomName) : a.localRoom sha room = b.localRoom sha room := by
  simp only [FederationManager.localRoom, h.roomMgr, h.resolveGlobalRoom]

theorem SameSetup.dispatchRoomEvent {a b : FederationManager ι} (h : SameSetup a b) (sha : Hash)
    (event : RoomEvent) : a.dispatchRoomEvent sha event = b.dispatchRoomEvent sha event := by
  cases event with
  | localJoin room =>
      simp only [FederationManager.dispatchRoomEvent, h.isGlobalRoom, h.peers, h.roomMgr]
  | localLeave room => simp only [FederationManager.dispatchRoomEvent, h.isGlobalRoom, h.peers]

end

theorem SameSetup.otherPeers {a b : FederationManager ι} (h : SameSetup a b) (source : ι) :
    a.otherPeers source = b.otherPeers source := by
  rw [FederationManager.otherPeers, FederationManager.otherPeers, h.peers]

theorem sameSetup_modifyLink (fm : FederationManager ι) (peer : ι) (f : PeerLink → PeerLink) :
    SameSetup (fm.modifyLink peer f) fm := ⟨rfl, rfl, modifyLink_peers _ _ _⟩

theorem handleActive_setup (sha : Hash) (fm : FederationManager ι) (source : ι) (room : RoomName)
    (participants : List RoomParticipant) :
    SameSetup (fm.handleActive sha source room participants).manager fm := by
  rw [handleActive]
  split
  · exact sameSetup_modifyLink fm source (·.setActive room participants)
  · exact ⟨rfl, rfl, rfl⟩

theorem handleSignal_setup (sha : Hash) (fm : FederationManager ι) (source : ι) (now : ℕ)
    (msg : SignalMessage ι) : SameSetup (fm.handleSignal sha source now msg).manager fm := by
  have htouch := sameSetup_touch fm source now
  cases msg with
  | globalRoomActive room participants =>
      exact (handleActive_setup sha _ source room participants).trans htouch
  | globalRoomInactive room =>
      exact (sameSetup_modifyLink (fm.touch source now) source
        (·.setInactive room ((fm.touch source now).resolveGlobalRoom sha room))).trans htouch
  | federatedSignalForward inner originRelayFp =>
      rw [handleSignal]
      split
      · exact htouch
      · exact htouch
  | federationHello fp => exact htouch
  | roomUpdate count participants => exact htouch
  | other => exact htouch

/-- An active announcement of a global room always goes on to all other peers. -/
theorem sends_active (sha : Hash) (fm : FederationManager ι) (source : ι) (now : ℕ)
    (room : RoomName) (participants : List RoomParticipant) :
    ∃ tagged, (fm.handleSignal sha source now (.globalRoomActive room participants)).sends =
      if fm.isGlobalRoom sha room then
        (fm.otherPeers source).map fun fp => (fp, .globalRoomActive room tagged)
      else [] := by
  have hpeers : ∀ f, ((fm.touch source now).modifyLink source f).otherPeers source =
      fm.otherPeers source := fun f =>
    ((sameSetup_modifyLink _ source f).trans (sameSetup_touch fm source now)).otherPeers source
  simp only [handleSignal, handleActive, (sameSetup_touch fm source now).isGlobalRoom]
  split
  · exact ⟨_, by rw [hpeers]⟩
  · exact ⟨[], rfl⟩

/-- An inactive one does so too, for every room. -/
theorem sends_inactive (sha : Hash) (fm : FederationManager ι) (source : ι) (now : ℕ)
    (room : RoomName) :
    ∃ msg, (fm.handleSignal sha source now (.globalRoomInactive room)).sends =
        (fm.otherPeers source).map (fun fp => (fp, msg)) ∧
      ((∃ participants, msg = .globalRoomActive room participants) ∨
        msg = .globalRoomInactive room ∧ fm.localRoom sha room = none) := by
  simp only [handleSignal, handleInactive]
  generalize hf : (fun link : PeerLink => link.setInactive room _) = f
  have hsame := (sameSetup_modifyLink _ source f).trans (sameSetup_touch fm source now)
  refine ⟨_, by rw [hsame.otherPeers], ?_⟩
  rw [hsame.localRoom]
  cases hlocal : fm.localRoom sha room with
  | some r => exact Or.inl ⟨_, rfl⟩
  | none =>
      dsimp only
      split
      · exact Or.inl ⟨_, rfl⟩
      · exact Or.inr ⟨rfl, rfl⟩

/-! ## Relays that have heard of nobody -/

def NoRemote (fm : FederationManager ι) : Prop :=
  ∀ e ∈ fm.peerLinks, ∀ room, e.2.remoteParticipants room = none

theorem noRemote_modifyLink {fm : FederationManager ι} (h : fm.NoRemote) (peer : ι)
    {f : PeerLink → PeerLink}
    (hf : ∀ link : PeerLink, (∀ room, link.remoteParticipants room = none) →
      ∀ room, (f link).remoteParticipants room = none) : (fm.modifyLink peer f).NoRemote := by
  intro e he
  obtain ⟨⟨fp, link⟩, hmem, rfl⟩ := List.mem_map.mp he
  have hlink := h _ hmem
  by_cases hfp : fp = peer
  · simp only [if_pos hfp]
    exact hf link hlink
  · simp only [if_neg hfp]
    exact hlink

theorem noRemote_setInactive {link : PeerLink} (h : ∀ room, link.remoteParticipants room = none)
    (room : RoomName) (canonical : Option RoomName) (r : RoomName) :
    (link.setInactive room canonical).remoteParticipants r = none := by
  have hupdate : ∀ c, Function.update link.remoteParticipants c none = link.remoteParticipants := by
    intro c
    rw [← h c]
    exact Function.update_eq_self c _
  cases canonical with
  | none =>
      simp only [PeerLink.setInactive, hupdate]
      exact h r
  | some c =>
      simp only [PeerLink.setInactive, hupdate]
      exact h r

theorem remainingRemote_noRemote {fm : FederationManager ι} (h : fm.NoRemote) (sha : Hash)
    (source : ι) (room : RoomName) : fm.remainingRemote sha source room = [] := by
  rw [remainingRemote]
  split
  · rfl
  · rename_i canonical _
    have hnone : (fm.peerLinks.filter (·.1 ≠ source)).flatMap
        (fun e => (e.2.remoteParticipants canonical).getD []) = [] := by
      apply List.flatMap_eq_nil_iff.mpr
      intro e he
      rw [h e (List.mem_of_mem_filter he) canonical]
      rfl
    rw [hnone]
    rfl

/-- Such a relay without a local room passes on that the room is inactive. -/
theorem sends_inactive_noRemote {sha : Hash} {fm : FederationManager ι} {room : RoomName}
    (h : fm.NoRemote) (hlocal : fm.localRoom sha room = none) (source : ι) (now : ℕ) :
    (fm.handleSignal sha source now (.globalRoomInactive room)).sends =
        (fm.otherPeers source).map (fun fp => (fp, .globalRoomInactive room)) ∧
      (fm.handleSignal sha source now (.globalRoomInactive room)).manager.NoRemote := by
  have htouch : (fm.touch source now).NoRemote := noRemote_modifyLink h source fun _ hl => hl
  have hquiet := noRemote_modifyLink htouch source fun link hl =>
    noRemote_setInactive hl room ((fm.touch source now).resolveGlobalRoom sha room)
  have hsame := (sameSetup_modifyLink (fm.touch source now) source fun link =>
    link.setInactive room ((fm.touch source now).resolveGlobalRoom sha room)).trans
      (sameSetup_touch fm source now)
  refine ⟨?_, hquiet⟩
  simp only [handleSignal, handleInactive, hsame.localRoom, hlocal, hsame.otherPeers,
    remainingRemote_noRemote hquiet, ne_eq, not_true_eq_false, if_false]

end FederationManager
end Wzp.Relay
