import Wzp.Lib.Flood
import Wzp.Relay.Federation

/-!
# Federated media

All relays of a federation, the datagrams between them, and what participants
receive. Packets are numbered as they are sent, only to tell them apart here.
-/
namespace Wzp.Relay
open Bytes Proto

/-- A datagram in flight that carries the packet of this number. -/
structure Copy (ι : Type) where
  packet : ℕ
  source : ι
  destination : ι
  datagram : Buf
  deriving DecidableEq

structure Delivery (ι : Type) where
  packet : ℕ
  relay : ι
  participant : ParticipantId
  bytes : Buf
  deriving DecidableEq

structure MediaNetwork (ι : Type) where
  relays : ι → FederationManager ι
  inFlight : List (Copy ι)
  delivered : List (Delivery ι)
  accepted : List (ℕ × ι)
  sent : ℕ

inductive MediaEvent (ι : Type) where
  | send (relay : ι) (room : RoomName) (sender : ParticipantId) (wire : Buf)
  | deliver (copy : Copy ι)
  | lose (copy : Copy ι)

namespace MediaNetwork
variable {ι : Type} [DecidableEq ι]

/-- A local participant's packet: to the other participants of the room, and to
all peers if the room is global. -/
def send (sha : Hash) (net : MediaNetwork ι) (relay : ι) (room : RoomName) (sender : ParticipantId)
    (pkt : MediaPacket) : MediaNetwork ι :=
  let fm := net.relays relay
  { net with
    inFlight := net.inFlight ++
      (fm.egress sha room pkt).map fun (fp, data) => ⟨net.sent, relay, fp, data⟩
    delivered := net.delivered ++ (forwardTargets fm.roomMgr room sender pkt).map fun p =>
      ⟨net.sent, relay, p.id, directBytes pkt sender p⟩
    sent := net.sent + 1 }

/-- A relay handles one datagram. -/
def deliver (sha : Hash) (net : MediaNetwork ι) (now : ℕ) (copy : Copy ι) : MediaNetwork ι :=
  let r := (net.relays copy.destination).handleDatagram sha copy.source now copy.datagram
  { net with
    relays := Function.update net.relays copy.destination r.manager
    inFlight := net.inFlight.erase copy ++
      r.forwarded.map fun (fp, data) => ⟨copy.packet, copy.destination, fp, data⟩
    delivered := net.delivered ++ r.delivered.map fun (id, bytes) =>
      ⟨copy.packet, copy.destination, id, bytes⟩
    accepted := match r.ingress with
      | .localDeliver _ => net.accepted ++ [(copy.packet, copy.destination)]
      | _ => net.accepted }

/-- Events that are not possible in the current state do nothing. -/
def step (sha : Hash) (net : MediaNetwork ι) (now : ℕ) : MediaEvent ι → MediaNetwork ι
  | .send relay room sender wire =>
      match MediaPacket.fromBytes wire with
      | none => net
      | some pkt =>
          if ((net.relays relay).roomMgr.localSenders room).any (·.id = sender) then
            net.send sha relay room sender pkt
          else net
  | .deliver copy => if copy ∈ net.inFlight then net.deliver sha now copy else net
  | .lose copy => { net with inFlight := net.inFlight.erase copy }

def run (sha : Hash) (net : MediaNetwork ι) (events : List (ℕ × MediaEvent ι)) : MediaNetwork ι :=
  events.foldl (fun net e => net.step sha e.1 e.2) net

/-- The participants that have received a packet, once for every time. -/
def recipients (net : MediaNetwork ι) (packet : ℕ) : List (ι × ParticipantId) :=
  (net.delivered.filter (·.packet = packet)).map fun d => (d.relay, d.participant)

/-- The relays that have accepted a packet from a peer. -/
def acceptors (net : MediaNetwork ι) (packet : ℕ) : List ι :=
  (net.accepted.filter (·.1 = packet)).map Prod.snd

/-- Nobody gets the packet twice, and its sender does not get it at all. -/
structure Safe (net : MediaNetwork ι) (packet : ℕ) (origin : ι) (sender : ParticipantId) : Prop where
  once : (net.recipients packet).Nodup
  noEcho : (origin, sender) ∉ net.recipients packet

/-! ## Packets keep their numbers -/

/-- All numbers in use belong to packets already sent. -/
structure Numbered (net : MediaNetwork ι) : Prop where
  inFlight : ∀ c ∈ net.inFlight, c.packet < net.sent
  delivered : ∀ d ∈ net.delivered, d.packet < net.sent
  accepted : ∀ a ∈ net.accepted, a.1 < net.sent

theorem mem_deliver_accepted {sha : Hash} {net : MediaNetwork ι} {now : ℕ} {copy : Copy ι}
    {a : ℕ × ι} (ha : a ∈ (net.deliver sha now copy).accepted) :
    a ∈ net.accepted ∨ a = (copy.packet, copy.destination) := by
  simp only [deliver] at ha
  split at ha
  · rcases List.mem_append.mp ha with h | h
    · exact Or.inl h
    · exact Or.inr (List.mem_singleton.mp h)
  · exact Or.inl ha

omit [DecidableEq ι] in
theorem numbered_send {net : MediaNetwork ι} (h : net.Numbered) (sha : Hash) (relay : ι)
    (room : RoomName) (sender : ParticipantId) (pkt : MediaPacket) :
    (net.send sha relay room sender pkt).Numbered := by
  refine ⟨?_, ?_, ?_⟩
  · intro c hc
    rcases List.mem_append.mp hc with hc | hc
    · exact Nat.lt_succ_of_lt (h.inFlight c hc)
    · obtain ⟨_, _, rfl⟩ := List.mem_map.mp hc
      exact Nat.lt_succ_self _
  · intro d hd
    rcases List.mem_append.mp hd with hd | hd
    · exact Nat.lt_succ_of_lt (h.delivered d hd)
    · obtain ⟨_, _, rfl⟩ := List.mem_map.mp hd
      exact Nat.lt_succ_self _
  · intro a ha
    exact Nat.lt_succ_of_lt (h.accepted a ha)

theorem numbered_deliver {net : MediaNetwork ι} (h : net.Numbered) (sha : Hash) (now : ℕ)
    {copy : Copy ι} (hc : copy ∈ net.inFlight) : (net.deliver sha now copy).Numbered := by
  have hlt := h.inFlight copy hc
  refine ⟨?_, ?_, ?_⟩
  · intro c hmem
    rcases List.mem_append.mp hmem with hmem | hmem
    · exact h.inFlight c (List.mem_of_mem_erase hmem)
    · obtain ⟨_, _, rfl⟩ := List.mem_map.mp hmem
      exact hlt
  · intro d hmem
    rcases List.mem_append.mp hmem with hmem | hmem
    · exact h.delivered d hmem
    · obtain ⟨_, _, rfl⟩ := List.mem_map.mp hmem
      exact hlt
  · intro a hmem
    rcases mem_deliver_accepted hmem with hmem | rfl
    · exact h.accepted a hmem
    · exact hlt

theorem numbered_step {net : MediaNetwork ι} (h : net.Numbered) (sha : Hash) (now : ℕ)
    (event : MediaEvent ι) : (net.step sha now event).Numbered := by
  cases event with
  | send relay room sender wire =>
      rw [step]
      split
      · exact h
      · split
        · exact numbered_send h sha _ _ _ _
        · exact h
  | deliver copy =>
      rw [step]
      split
      · rename_i hc
        exact numbered_deliver h sha now hc
      · exact h
  | lose copy =>
      exact ⟨fun c hc => h.inFlight c (List.mem_of_mem_erase hc), h.delivered, h.accepted⟩

/-! ## Rooms and links stay -/

def HasSetup (setup : ι → FederationManager ι) (net : MediaNetwork ι) : Prop :=
  FederationManager.HaveSetup setup net.relays

theorem hasSetup_step {setup : ι → FederationManager ι} {net : MediaNetwork ι}
    (h : net.HasSetup setup) (sha : Hash) (now : ℕ) (event : MediaEvent ι) :
    (net.step sha now event).HasSetup setup := by
  cases event with
  | send relay room sender wire =>
      rw [step]
      split
      · exact h
      · split
        · exact h
        · exact h
  | deliver copy =>
      rw [step]
      split
      · exact h.update (FederationManager.handleDatagram_setup sha _ _ now _)
      · exact h
  | lose copy => exact h

/-- No datagram has been sent yet. -/
structure Idle (setup : ι → FederationManager ι) (net : MediaNetwork ι) : Prop where
  setup : net.HasSetup setup
  inFlight : net.inFlight = []
  delivered : net.delivered = []
  accepted : net.accepted = []

omit [DecidableEq ι] in
theorem Idle.numbered {setup : ι → FederationManager ι} {net : MediaNetwork ι}
    (h : net.Idle setup) : net.Numbered := by
  refine ⟨?_, ?_, ?_⟩
  · rw [h.inFlight]
    exact fun _ hc => absurd hc List.not_mem_nil
  · rw [h.delivered]
    exact fun _ hd => absurd hd List.not_mem_nil
  · rw [h.accepted]
    exact fun _ ha => absurd ha List.not_mem_nil

theorem numbered_run {net : MediaNetwork ι} (h : net.Numbered) (sha : Hash)
    (events : List (ℕ × MediaEvent ι)) : (net.run sha events).Numbered := by
  induction events generalizing net with
  | nil => exact h
  | cons e events ih => exact ih (numbered_step h sha e.1 e.2)

theorem hasSetup_run {setup : ι → FederationManager ι} {net : MediaNetwork ι}
    (h : net.HasSetup setup) (sha : Hash) (events : List (ℕ × MediaEvent ι)) :
    (net.run sha events).HasSetup setup := by
  induction events generalizing net with
  | nil => exact h
  | cons e events ih => exact ih (hasSetup_step h sha e.1 e.2)

/-! ## What one datagram does to the logs -/

open FederationManager

/-- One delivery seen from the logs: an accepted copy adds its relay and the
participants of the room, a dropped one nothing. -/
theorem deliver_accepts {sha : Hash} {net : MediaNetwork ι} {now : ℕ} {copy : Copy ι}
    {pkt : MediaPacket} {room : RoomName}
    (h : Accepts sha (net.relays copy.destination) copy.source now copy.datagram pkt room
      ((net.relays copy.destination).handleDatagram sha copy.source now copy.datagram)) (k : ℕ) :
    (net.deliver sha now copy).acceptors k =
        net.acceptors k ++ (if copy.packet = k then [copy.destination] else []) ∧
      (net.deliver sha now copy).recipients k = net.recipients k ++
        (if copy.packet = k then
          ((net.relays copy.destination).roomMgr.localSenders room).map fun p =>
            (copy.destination, p.id)
        else []) ∧
      (net.deliver sha now copy).inFlight = net.inFlight.erase copy ++
        ((net.relays copy.destination).peers.filter (· ≠ copy.source)).map fun fp =>
          ⟨copy.packet, copy.destination, fp, copy.datagram⟩ := by
  refine ⟨?_, ?_, ?_⟩
  · simp only [acceptors, deliver, h.ingress, List.filter_append, List.map_append]
    by_cases hk : copy.packet = k
    · simp [hk]
    · simp [hk]
  · simp only [recipients, deliver, h.delivered, List.filter_append, List.map_append, List.map_map]
    by_cases hk : copy.packet = k
    · simp [hk, List.filter_map, Function.comp_def]
    · simp [hk, List.filter_map, Function.comp_def]
  · simp only [deliver, h.forwarded, List.map_map]
    rfl

theorem deliver_drops {sha : Hash} {net : MediaNetwork ι} {now : ℕ} {copy : Copy ι}
    (h : Drops (net.relays copy.destination) now
      ((net.relays copy.destination).handleDatagram sha copy.source now copy.datagram)) (k : ℕ) :
    (net.deliver sha now copy).acceptors k = net.acceptors k ∧
      (net.deliver sha now copy).recipients k = net.recipients k ∧
      (net.deliver sha now copy).inFlight = net.inFlight.erase copy := by
  refine ⟨?_, ?_, ?_⟩
  · simp only [acceptors, deliver]
    split
    · rename_i room hroom
      exact absurd hroom (h.ingress room)
    · rfl
  · simp only [recipients, deliver, h.delivered, List.map_nil, List.append_nil]
  · simp only [deliver, h.forwarded, List.map_nil, List.append_nil]

end MediaNetwork
end Wzp.Relay
