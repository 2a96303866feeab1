import Wzp.Lib.MirroredTable
import Wzp.Lib.Runs
import Wzp.Relay.RoomDelivery

/-!
# The presence feed of a link

Joins and leaves on one relay leave room events, the dispatcher makes them
signals, and the relay at the other end of the link keeps the announced
participants by room name.
-/
namespace Wzp.Relay
open Bytes Runs MirroredTable

/-! ## Announced participants -/
namespace FederationManager
variable {ι : Type}

/-- Participants on other relays, under the canonical name of the room and the
name itself. -/
def getRemoteParticipants (sha : Hash) (fm : FederationManager ι) (room : RoomName) :
    List RoomParticipant :=
  dedupFingerprints (fm.peerLinks.flatMap fun (_, link) =>
    match fm.resolveGlobalRoom sha room with
    | some canonical =>
        (link.remoteParticipants canonical).getD [] ++
          if canonical ≠ room then (link.remoteParticipants room).getD [] else []
    | none => (link.remoteParticipants room).getD [])

end FederationManager

def RoomManager.fingerprints (m : RoomManager) (room : RoomName) : List String :=
  (m.localParticipantList room).map RoomParticipant.fingerprint

/-- The fingerprints a link has for a room name. -/
def PeerLink.fingerprints (link : PeerLink) (room : RoomName) : List String :=
  ((link.remoteParticipants room).getD []).map RoomParticipant.fingerprint

/-- Removing duplicates keeps every fingerprint. -/
theorem mem_dedupFingerprints {fp : String} : ∀ ps : List RoomParticipant,
    fp ∈ (dedupFingerprints ps).map RoomParticipant.fingerprint ↔
      fp ∈ ps.map RoomParticipant.fingerprint
  | [] => Iff.rfl
  | p :: ps => by
      have ih := @mem_dedupFingerprints fp
        (ps.filter fun q => (q.fingerprint == p.fingerprint) = false)
      rw [dedupFingerprints] at ih ⊢
      rw [List.eraseDupsBy_cons, List.map_cons, List.map_cons, List.mem_cons, List.mem_cons, ih]
      constructor
      · rintro (heq | hmem)
        · exact Or.inl heq
        · exact Or.inr ((List.filter_sublist.map _).subset hmem)
      · rintro (heq | hmem)
        · exact Or.inl heq
        · by_cases hfp : fp = p.fingerprint
          · exact Or.inl hfp
          · obtain ⟨q, hq, rfl⟩ := List.mem_map.mp hmem
            refine Or.inr (List.mem_map_of_mem (List.mem_filter.mpr ⟨hq, decide_eq_true ?_⟩))
            exact beq_false_of_ne fun heq => hfp heq
termination_by ps => ps.length
decreasing_by exact Nat.lt_succ_of_le (List.length_filter_le _ _)

/-! ## The feed -/

/-- The relay whose rooms change, its pending room events, the signals under way
on the link, and the relay they are for. -/
structure PresenceFeed (ι : Type) where
  sender : FederationManager ι
  events : List RoomEvent
  wire : List (SignalMessage ι)
  receiver : FederationManager ι

/-- Somebody joins or leaves, the dispatcher takes an event, a signal arrives. -/
inductive FeedStep where
  | join (room : RoomName) (p : Participant)
  | leave (room : RoomName) (id : ParticipantId)
  | dispatched
  | received (now : ℕ)
  deriving DecidableEq

/-- Nobody joins or leaves; something that is under way is processed. -/
def FeedStep.Processes : FeedStep → Prop
  | .join _ _ | .leave _ _ => False
  | .dispatched | .received _ => True

namespace PresenceFeed
variable {ι : Type} [DecidableEq ι] (sha : Hash) (senderFp receiverFp : ι)

def step (s : PresenceFeed ι) : FeedStep → PresenceFeed ι
  | .join room p =>
      if hfresh : s.sender.roomMgr.Fresh p.id then
        { s with
          sender := { s.sender with roomMgr := (s.sender.roomMgr.join room p hfresh).1 }
          events := s.events ++ (s.sender.roomMgr.join room p hfresh).2.toList }
      else s
  | .leave room id =>
      { s with
        sender := { s.sender with roomMgr := (s.sender.roomMgr.leave room id).1 }
        events := s.events ++ (s.sender.roomMgr.leave room id).2.toList }
  | .dispatched =>
      match s.events with
      | [] => s
      | event :: rest =>
          { s with
            events := rest
            wire := s.wire ++ (s.sender.dispatchRoomEvent sha event).filterMap fun (fp, msg) =>
              if fp = receiverFp then some msg else none }
  | .received now =>
      match s.wire with
      | [] => s
      | msg :: rest =>
          { s with
            wire := rest
            receiver := (s.receiver.handleSignal sha senderFp now msg).manager }

/-- All room events and signals have been processed. -/
def Settled (s : PresenceFeed ι) : Prop := s.events = [] ∧ s.wire = []

/-- The relay lists, for each name of a global room, exactly who is in the
sender's rooms that are this global room. -/
def Lists (s : PresenceFeed ι) : Prop :=
  ∀ g ∈ s.sender.globalRooms, ∀ r, s.sender.resolveGlobalRoom sha r = some g → ∀ fp,
    fp ∈ (s.receiver.getRemoteParticipants sha r).map RoomParticipant.fingerprint ↔
      ∃ room ∈ s.sender.roomMgr.activeRooms, s.sender.resolveGlobalRoom sha room = some g ∧
        fp ∈ s.sender.roomMgr.fingerprints room

/-- It does so once everything under way is processed. -/
def Converges (s : PresenceFeed ι) : Prop :=
  ∀ es, (∀ e ∈ es, e.Processes) →
    (run (step sha senderFp receiverFp) s es).Settled →
      (run (step sha senderFp receiverFp) s es).Lists sha

/-- The two relays have one link, to each other, and the same global rooms. -/
structure Linked (s : PresenceFeed ι) : Prop where
  senderPeers : s.sender.peers = [receiverFp]
  receiverPeers : s.receiver.peers = [senderFp]
  globalRooms : s.receiver.globalRooms = s.sender.globalRooms

/-! ## The feed mirrors a table -/

/-- An inactive room is removed under its own name and its canonical one. -/
def clears (fm : FederationManager ι) (room key : RoomName) : Bool :=
  room = key || fm.resolveGlobalRoom sha room = some key

def notice (fm : FederationManager ι) : RoomEvent → Option (Notice RoomName)
  | .localJoin room => if fm.isGlobalRoom sha room then some (.refresh room) else none
  | .localLeave room => if fm.isGlobalRoom sha room then some (.withdraw room) else none

def message (fm : FederationManager ι) : SignalMessage ι → Option (Message RoomName (List String))
  | .globalRoomActive room participants =>
      if fm.isGlobalRoom sha room then
        some (.put room (participants.map RoomParticipant.fingerprint))
      else none
  | .globalRoomInactive room => some (.drop room)
  | _ => none

def notices (s : PresenceFeed ι) : List (Notice RoomName) := s.events.filterMap (notice sha s.sender)

def messages (s : PresenceFeed ι) : List (Message RoomName (List String)) :=
  s.wire.filterMap (message sha s.sender)

def copy (s : PresenceFeed ι) (room : RoomName) : List String :=
  ((s.receiver.link? senderFp).map (·.fingerprints room)).getD []

/-- The fingerprints that the receiver is going to have for a room name. -/
def announced (s : PresenceFeed ι) (room : RoomName) : List String :=
  eventual (clears sha s.sender) [] (s.copy senderFp) s.sender.roomMgr.fingerprints (s.messages sha)
    (s.notices sha) room

/-- The dispatcher is still to announce this room with whoever is in it. -/
def JoinPending (s : PresenceFeed ι) (room : RoomName) : Prop :=
  Refreshing (clears sha s.sender) room (s.notices sha) = true

instance (s : PresenceFeed ι) (room : RoomName) : Decidable (s.JoinPending sha room) :=
  inferInstanceAs (Decidable (_ = true))

variable {sha senderFp receiverFp} {s : PresenceFeed ι} {room g : RoomName}

section
omit [DecidableEq ι]

/-- A canonical name resolves to itself. -/
theorem resolveGlobalRoom_canonical {fm : FederationManager ι}
    (h : fm.resolveGlobalRoom sha room = some g) : fm.resolveGlobalRoom sha g = some g := by
  by_cases hcall : callPrefix.isPrefixOf room = true
  · rw [FederationManager.resolveGlobalRoom, if_pos hcall] at h
    obtain rfl := Option.some.inj h
    rw [FederationManager.resolveGlobalRoom, if_pos hcall]
  · have hmem : g ∈ fm.globalRooms := by
      rw [FederationManager.resolveGlobalRoom, if_neg hcall] at h
      split at h
      · rename_i hroom
        exact Option.some.inj h ▸ hroom
      · exact List.mem_of_find?_eq_some h
    rw [FederationManager.resolveGlobalRoom, if_pos hmem, ite_self]

theorem isGlobalRoom_iff {fm : FederationManager ι} :
    fm.isGlobalRoom sha room = true ↔ (fm.resolveGlobalRoom sha room).isSome = true := by
  rw [FederationManager.isGlobalRoom]
  split
  · rename_i hcall
    rw [FederationManager.resolveGlobalRoom, if_pos hcall]
    exact ⟨fun _ => rfl, fun _ => rfl⟩
  · exact Iff.rfl

/-- A configured room has two names at most, its own and the hashed one. -/
theorem resolveGlobalRoom_names {fm : FederationManager ι}
    (h : fm.resolveGlobalRoom sha room = some g) : room = g ∨ room = hashRoomName sha g := by
  rw [FederationManager.resolveGlobalRoom] at h
  split at h
  · exact Or.inl (Option.some.inj h)
  · split at h
    · exact Or.inl (Option.some.inj h)
    · have hname := List.find?_some h
      simp only [decide_eq_true_eq] at hname
      exact Or.inr hname.symm

end

omit [DecidableEq ι] in
theorem Linked.resolveGlobalRoom (h : Linked senderFp receiverFp s) (room : RoomName) :
    s.receiver.resolveGlobalRoom sha room = s.sender.resolveGlobalRoom sha room := by
  simp only [FederationManager.resolveGlobalRoom, h.globalRooms]

omit [DecidableEq ι] in
theorem Linked.isGlobalRoom (h : Linked senderFp receiverFp s) (room : RoomName) :
    s.receiver.isGlobalRoom sha room = s.sender.isGlobalRoom sha room := by
  simp only [FederationManager.isGlobalRoom, h.resolveGlobalRoom]

omit [DecidableEq ι] in
theorem Linked.peerLinks (h : Linked senderFp receiverFp s) :
    ∃ link, s.receiver.peerLinks = [(senderFp, link)] := by
  have hpeers := h.receiverPeers
  rw [FederationManager.peers, List.map_eq_singleton_iff] at hpeers
  obtain ⟨⟨fp, link⟩, hlinks, rfl⟩ := hpeers
  exact ⟨link, hlinks⟩

theorem linked_step (h : Linked senderFp receiverFp s) (e : FeedStep) :
    Linked senderFp receiverFp (s.step sha senderFp receiverFp e) := by
  cases e with
  | join room p =>
      rw [step]
      split
      · exact ⟨h.senderPeers, h.receiverPeers, h.globalRooms⟩
      · exact h
  | leave room id => exact ⟨h.senderPeers, h.receiverPeers, h.globalRooms⟩
  | dispatched =>
      rw [step]
      split
      · exact h
      · exact ⟨h.senderPeers, h.receiverPeers, h.globalRooms⟩
  | received now =>
      rw [step]
      split
      · exact h
      · rename_i msg _ _
        have hsetup := s.receiver.handleSignal_setup sha senderFp now msg
        exact ⟨h.senderPeers, hsetup.peers.trans h.receiverPeers,
          hsetup.globalRooms.trans h.globalRooms⟩

theorem link?_modifyLink (fm : FederationManager ι) (peer : ι) (f : PeerLink → PeerLink) :
    (fm.modifyLink peer f).link? peer = (fm.link? peer).map f := by
  simp only [FederationManager.link?, FederationManager.modifyLink]
  induction fm.peerLinks with
  | nil => rfl
  | cons e links ih =>
      obtain ⟨fp, link⟩ := e
      rw [List.map_cons, List.lookup_cons, List.lookup_cons, ih]
      by_cases hfp : fp = peer
      · subst hfp
        simp only [beq_self_eq_true, if_true, Option.map_some]
      · rw [beq_false_of_ne fun heq => hfp heq.symm]

omit [DecidableEq ι] in
theorem fingerprints_setActive (link : PeerLink) (ps : List RoomParticipant) (key : RoomName) :
    (link.setActive room ps).fingerprints key =
      (Message.put room (ps.map RoomParticipant.fingerprint)).entry (clears sha s.sender) [] key
        (link.fingerprints key) := by
  have htag : ∀ p, (tagRelay link.label p).fingerprint = p.fingerprint := by
    intro p
    rw [tagRelay]
    split
    · rfl
    · rfl
  rw [PeerLink.fingerprints, PeerLink.setActive, Message.entry]
  by_cases hkey : room = key
  · subst hkey
    simp only [Function.update_self, if_true, Option.getD_some, List.map_map]
    exact List.map_congr_left fun p _ => htag p
  · simp only [Function.update_of_ne fun heq : key = room => hkey heq.symm, if_neg hkey]
    rfl

theorem fingerprints_setInactive (link : PeerLink) (canonical : Option RoomName) (key : RoomName) :
    (link.setInactive room canonical).fingerprints key =
      if room = key ∨ canonical = some key then [] else link.fingerprints key := by
  cases canonical with
  | none =>
      simp only [PeerLink.fingerprints, PeerLink.setInactive]
      by_cases hkey : room = key
      · subst hkey
        simp
      · have hne : key ≠ room := fun heq => hkey heq.symm
        simp [hkey, hne]
  | some canonical =>
      simp only [PeerLink.fingerprints, PeerLink.setInactive]
      by_cases hcanonical : canonical = key
      · subst hcanonical
        simp
      · have hnec : key ≠ canonical := fun heq => hcanonical heq.symm
        by_cases hkey : room = key
        · subst hkey
          simp [hnec]
        · have hne : key ≠ room := fun heq => hkey heq.symm
          simp [hkey, hne, hcanonical, hnec]

/-! ## The steps of the feed are steps of the mirrored table -/

/-- A signal does to the receiver's entries what its message does. -/
theorem copy_received (sha : Hash) (hlinked : Linked senderFp receiverFp s) {msg : SignalMessage ι}
    {rest : List (SignalMessage ι)} (hwire : s.wire = msg :: rest) (now : ℕ) (key : RoomName) :
    (s.step sha senderFp receiverFp (.received now)).copy senderFp key =
      match message sha s.sender msg with
      | some m => m.entry (clears sha s.sender) [] key (s.copy senderFp key)
      | none => s.copy senderFp key := by
  obtain ⟨link, hlink⟩ := hlinked.peerLinks
  have hlookup : s.receiver.link? senderFp = some link := by
    rw [FederationManager.link?, hlink, List.lookup_cons_self]
  have htouch : (s.receiver.touch senderFp now).link? senderFp =
      some { link with lastSeen := now } := by
    rw [FederationManager.touch, link?_modifyLink, hlookup]
    rfl
  have hsetup := s.receiver.sameSetup_touch senderFp now
  simp only [copy, step, hwire, hlookup, Option.map_some, Option.getD_some]
  cases msg with
  | globalRoomActive room participants =>
      simp only [FederationManager.handleSignal, FederationManager.handleActive, hsetup.isGlobalRoom,
        hlinked.isGlobalRoom, message]
      split
      · rw [link?_modifyLink, htouch]
        exact fingerprints_setActive (s := s) _ _ _
      · rw [htouch]
        rfl
  | globalRoomInactive room =>
      simp only [FederationManager.handleSignal, FederationManager.handleInactive,
        hsetup.resolveGlobalRoom, hlinked.resolveGlobalRoom, message]
      rw [link?_modifyLink, htouch]
      simp only [Option.map_some, Option.getD_some, fingerprints_setInactive, Message.entry, clears,
        Bool.or_eq_true, decide_eq_true_eq]
      rfl
  | federatedSignalForward inner origin =>
      simp only [FederationManager.handleSignal, message]
      split
      · rw [htouch]
        rfl
      · rw [htouch]
        rfl
  | federationHello fp =>
      simp only [FederationManager.handleSignal, htouch]
      rfl
  | roomUpdate count participants =>
      simp only [FederationManager.handleSignal, htouch]
      rfl
  | other =>
      simp only [FederationManager.handleSignal, htouch]
      rfl

theorem announced_received (hlinked : Linked senderFp receiverFp s) (now : ℕ) (key : RoomName) :
    (s.step sha senderFp receiverFp (.received now)).announced sha senderFp key =
      s.announced sha senderFp key := by
  cases hwire : s.wire with
  | nil => simp only [step, hwire]
  | cons msg rest =>
      have hcopy := copy_received sha hlinked hwire now key
      have hsender : (s.step sha senderFp receiverFp (.received now)).sender = s.sender := by
        simp only [step, hwire]
      have hevents : (s.step sha senderFp receiverFp (.received now)).events = s.events := by
        simp only [step, hwire]
      have hrest : (s.step sha senderFp receiverFp (.received now)).wire = rest := by
        simp only [step, hwire]
      rw [announced, announced, messages, messages, notices, notices, hsender, hevents, hrest, hwire,
        List.filterMap_cons]
      cases hmsg : message sha s.sender msg with
      | none =>
          simp only [hmsg] at hcopy
          exact eventual_copy hcopy
      | some m =>
          simp only [hmsg] at hcopy
          exact eventual_receive hcopy

/-- An event is sent on as its notice says. -/
theorem messages_of_event (sha : Hash) (hlinked : Linked senderFp receiverFp s) (event : RoomEvent) :
    ((s.sender.dispatchRoomEvent sha event).filterMap
        fun (fp, msg) => if fp = receiverFp then some msg else none).filterMap
      (message sha s.sender) =
        ((notice sha s.sender event).map (Notice.message s.sender.roomMgr.fingerprints)).toList := by
  have hsent : ∀ msg : SignalMessage ι, (s.sender.peers.map fun fp => (fp, msg)).filterMap
      (fun (fp, msg) => if fp = receiverFp then some msg else none) = [msg] := by
    intro msg
    simp only [hlinked.senderPeers, List.map_cons, List.map_nil, List.filterMap_cons, if_true,
      List.filterMap_nil]
  cases event with
  | localJoin room =>
      rw [FederationManager.dispatchRoomEvent, notice]
      split
      · rename_i hglobal
        rw [hsent, List.filterMap_cons, message, if_pos hglobal]
        rfl
      · rfl
  | localLeave room =>
      rw [FederationManager.dispatchRoomEvent, notice]
      split
      · rw [hsent]
        rfl
      · rfl

theorem announced_dispatched (hlinked : Linked senderFp receiverFp s) (key : RoomName) :
    (s.step sha senderFp receiverFp .dispatched).announced sha senderFp key =
      s.announced sha senderFp key := by
  cases hevents : s.events with
  | nil => simp only [step, hevents]
  | cons event rest =>
      have hsent := messages_of_event sha hlinked event
      have hafter : s.step sha senderFp receiverFp .dispatched =
          { s with
            events := rest
            wire := s.wire ++ (s.sender.dispatchRoomEvent sha event).filterMap fun (fp, msg) =>
              if fp = receiverFp then some msg else none } := by
        simp only [step, hevents]
      rw [hafter]
      simp only [announced, messages, notices, List.filterMap_append, hsent, hevents,
        List.filterMap_cons]
      cases notice sha s.sender event with
      | none =>
          simp only [Option.map_none, Option.toList_none, List.append_nil]
          rfl
      | some n => exact eventual_announce n

/-! ## Changes of the rooms -/

/-- The rooms have changed and made an event, or none. -/
def changed (s : PresenceFeed ι) (m : RoomManager) (event : Option RoomEvent) : PresenceFeed ι :=
  { s with
    sender := { s.sender with roomMgr := m }
    events := s.events ++ event.toList }

variable {m : RoomManager} {key : RoomName}

omit [DecidableEq ι] in
theorem notices_changed (sha : Hash) (s : PresenceFeed ι) (m : RoomManager) (event : Option RoomEvent) :
    (s.changed m event).notices sha =
      s.notices sha ++ (event.bind (notice sha s.sender)).toList := by
  have hlast : event.toList.filterMap (notice sha s.sender) =
      (event.bind (notice sha s.sender)).toList := by
    cases event with
    | none => rfl
    | some event =>
        rw [Option.toList_some, List.filterMap_cons, Option.bind_some]
        cases notice sha s.sender event with
        | none => rfl
        | some n => rfl
  rw [notices, changed, List.filterMap_append]
  exact congrArg (s.notices sha ++ ·) hlast

theorem announced_changed (sha : Hash) (senderFp : ι) (s : PresenceFeed ι) (m : RoomManager)
    (event : Option RoomEvent) (key : RoomName) :
    (s.changed m event).announced sha senderFp key =
      eventual (clears sha s.sender) [] (s.copy senderFp) m.fingerprints (s.messages sha)
        (s.notices sha ++ (event.bind (notice sha s.sender)).toList) key := by
  rw [announced, notices_changed]
  rfl

/-- Rooms other than `key` change without an event that clears `key`. -/
theorem announced_changed_other (hkey : m.fingerprints key = s.sender.roomMgr.fingerprints key)
    {event : Option RoomEvent}
    (hevent : ∀ n, event.bind (notice sha s.sender) = some n → ∀ old : List String,
      (n.message m.fingerprints).entry (clears sha s.sender) [] key old = old) :
    (s.changed m event).announced sha senderFp key = s.announced sha senderFp key := by
  rw [announced_changed]
  cases hnotice : event.bind (notice sha s.sender) with
  | none =>
      rw [Option.toList_none, List.append_nil]
      exact eventual_congr hkey
  | some n =>
      rw [Option.toList_some, eventual_append, hevent n hnotice]
      exact eventual_congr hkey

/-- A room that changes without an event. -/
theorem announced_changed_silent :
    (s.changed m none).announced sha senderFp room =
      if s.JoinPending sha room then m.fingerprints room else
         s.announced sha senderFp room := by
  rw [announced_changed, Option.bind_none, Option.toList_none, List.append_nil]
  split
  · rename_i hpending
    exact eventual_of_refreshing hpending
  · rename_i hpending
    exact eventual_of_not_refreshing ((Bool.not_eq_true _).mp hpending)

end PresenceFeed
end Wzp.Relay
