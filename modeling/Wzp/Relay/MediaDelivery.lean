import Wzp.Relay.MediaNetwork

/-!
# At most one delivery

A relay accepts a packet from its peers once. The relay it was sent on has not
recorded it, so a copy that comes back there is delivered to the sender's room.
-/
namespace Wzp.Relay
open Bytes Proto FederationManager

/-- What a run of one packet is about: the relays and their rooms, the tag and
media of the packet, and the time it is sent. -/
structure Flight (ι : Type) where
  sha : Hash
  setup : ι → FederationManager ι
  packet : ℕ
  start : ℕ
  rh : Buf
  pkt : MediaPacket

namespace Flight
variable {ι : Type}

def datagram (f : Flight ι) : Buf := f.rh ++ f.pkt.toBytes
def key (f : Flight ι) : UInt64 := datagramKey f.datagram f.pkt
def room? (f : Flight ι) (i : ι) : Option RoomName := (f.setup i).findRoom f.sha f.rh

/-- The participants a relay delivers the packet to when it accepts it. -/
def members (f : Flight ι) (i : ι) : List (ι × ParticipantId) :=
  match f.room? i with
  | none => []
  | some room => ((f.setup i).roomMgr.localSenders room).map fun p => (i, p.id)

def Linked (f : Flight ι) (i j : ι) : Prop := j ∈ (f.setup i).peers
def knowing (f : Flight ι) : Set ι := {i | (f.room? i).isSome}

/-- The tag has eight bytes and the media is what a client sent. -/
structure Proper (f : Flight ι) : Prop where
  tag : f.rh.length = 8
  wellFormed : f.pkt.WellFormed

theorem Proper.take {f : Flight ι} (h : f.Proper) : f.datagram.take 8 = f.rh := by
  rw [datagram, List.take_append_of_le_length (Nat.le_of_eq h.tag.symm),
    List.take_of_length_le (Nat.le_of_eq h.tag)]

theorem Proper.drop {f : Flight ι} (h : f.Proper) : f.datagram.drop 8 = f.pkt.toBytes :=
  List.drop_left' h.tag

theorem Proper.parse {f : Flight ι} (h : f.Proper) :
    MediaPacket.fromBytes (f.datagram.drop 8) = some f.pkt := by
  rw [h.drop, MediaPacket.fromBytes_toBytes h.wellFormed]

theorem Proper.length {f : Flight ι} (h : f.Proper) : 12 ≤ f.datagram.length := by
  rw [datagram, List.length_append, h.tag, MediaPacket.toBytes, List.length_append,
    MediaHeader.writeTo_length, MediaHeader.wireSize]
  omega

/-- The copies of the packet and the relays that have accepted it. -/
def flood (f : Flight ι) (net : MediaNetwork ι) : Flood.State ι :=
  { inFlight := {ab | ∃ c ∈ net.inFlight, c.packet = f.packet ∧ (c.source, c.destination) = ab}
    accepted := {i | i ∈ net.acceptors f.packet} }

/-- All copies carry the packet, every relay that accepted it remembers it, and
the packet was received directly (`direct`) or from accepting relays. -/
structure Tracked (f : Flight ι) (direct : List (ι × ParticipantId)) (net : MediaNetwork ι) :
    Prop where
  setup : net.HasSetup f.setup
  sent : f.packet < net.sent
  carried : ∀ c ∈ net.inFlight, c.packet = f.packet → c.datagram = f.datagram
  seen : ∀ i ∈ net.acceptors f.packet, (net.relays i).dedup.SeenSince f.key f.start
  nodup : (net.acceptors f.packet).Nodup
  log : net.recipients f.packet = direct ++ (net.acceptors f.packet).flatMap f.members

variable {f : Flight ι} {direct : List (ι × ParticipantId)} {net : MediaNetwork ι}

/-- Sending another packet does not touch this one. -/
theorem tracked_send (h : f.Tracked direct net) (relay : ι) (room : RoomName)
    (sender : ParticipantId) (pkt : MediaPacket) :
    f.Tracked direct (net.send f.sha relay room sender pkt) ∧
      (f.flood (net.send f.sha relay room sender pkt)).inFlight ⊆ (f.flood net).inFlight := by
  have hother : net.sent ≠ f.packet := h.sent.ne'
  have hlog : (net.send f.sha relay room sender pkt).recipients f.packet =
      net.recipients f.packet := by
    simp [MediaNetwork.recipients, MediaNetwork.send, List.filter_map, Function.comp_def, hother]
  refine ⟨⟨h.setup, Nat.lt_succ_of_lt h.sent, ?_, h.seen, h.nodup, hlog.trans h.log⟩, ?_⟩
  · intro c hc hk
    rcases List.mem_append.mp hc with hc | hc
    · exact h.carried c hc hk
    · obtain ⟨_, _, rfl⟩ := List.mem_map.mp hc
      exact absurd hk hother
  · rintro ab ⟨c, hc, hk, hab⟩
    rcases List.mem_append.mp hc with hc | hc
    · exact ⟨c, hc, hk, hab⟩
    · obtain ⟨_, _, rfl⟩ := List.mem_map.mp hc
      exact absurd hk hother

variable [DecidableEq ι] {now : ℕ} {copy : Copy ι}

/-- No datagram makes a relay forget the packet. -/
theorem seen_deliver (hle : f.start ≤ now) (hnow : now < f.start + Deduplicator.ttl) {i : ι}
    (h : (net.relays i).dedup.SeenSince f.key f.start) :
    ((net.deliver f.sha now copy).relays i).dedup.SeenSince f.key f.start := by
  simp only [MediaNetwork.deliver]
  by_cases hi : i = copy.destination
  · subst hi
    rw [Function.update_self]
    rcases handleDatagram_cases f.sha (net.relays copy.destination) copy.source now
      copy.datagram with ⟨_, _, hacc⟩ | hdrop
    · rw [hacc.dedup]
      exact h.isDup hle hnow _
    · rcases hdrop.dedup with heq | ⟨key, heq⟩
      · rw [heq]
        exact h
      · rw [heq]
        exact h.isDup hle hnow _
  · rw [Function.update_of_ne hi]
    exact h

/-- A delivery that the logs of this packet do not notice. -/
theorem tracked_unnoticed (h : f.Tracked direct net) (hle : f.start ≤ now)
    (hnow : now < f.start + Deduplicator.ttl) (hc : copy ∈ net.inFlight)
    (hacc : (net.deliver f.sha now copy).acceptors f.packet = net.acceptors f.packet)
    (hlog : (net.deliver f.sha now copy).recipients f.packet = net.recipients f.packet)
    (hfly : ∀ c ∈ (net.deliver f.sha now copy).inFlight, c.packet = f.packet → c ∈ net.inFlight) :
    f.Tracked direct (net.deliver f.sha now copy) ∧
      Flood.Step f.Linked f.knowing (f.flood net) (f.flood (net.deliver f.sha now copy)) := by
  have hsetup := MediaNetwork.hasSetup_step h.setup f.sha now (.deliver copy)
  rw [MediaNetwork.step, if_pos hc] at hsetup
  refine ⟨⟨hsetup, h.sent, ?_, ?_, ?_, ?_⟩, Flood.Step.drop ?_ ?_⟩
  · exact fun c hmem hk => h.carried c (hfly c hmem hk) hk
  · intro i hi
    rw [hacc] at hi
    exact seen_deliver hle hnow (h.seen i hi)
  · rw [hacc]
    exact h.nodup
  · rw [hlog, hacc]
    exact h.log
  · simp only [flood, hacc]
  · rintro ab ⟨c, hmem, hk, hab⟩
    exact ⟨c, hfly c hmem hk, hk, hab⟩

/-- What a relay that accepts a copy of the packet has checked and recorded. -/
theorem accepts_carried (hf : f.Proper) (h : f.Tracked direct net) (hc : copy ∈ net.inFlight)
    (hk : copy.packet = f.packet) {pkt : MediaPacket} {room : RoomName} {r : Handled ι}
    (hacc : Accepts f.sha (net.relays copy.destination) copy.source now copy.datagram pkt room r) :
    f.room? copy.destination = some room ∧
      ((net.relays copy.destination).dedup.isDup f.key now).1 = false ∧
      r.manager.dedup = ((net.relays copy.destination).dedup.isDup f.key now).2 := by
  have hdata := h.carried copy hc hk
  have hpkt : pkt = f.pkt := by
    have hparsed := hacc.parsed
    rw [hdata, hf.parse] at hparsed
    exact (Option.some.inj hparsed).symm
  have hkey : datagramKey copy.datagram pkt = f.key := by
    rw [hdata, hpkt, key]
  refine ⟨?_, hkey ▸ hacc.new, hkey ▸ hacc.dedup⟩
  rw [room?, ← hacc.found, hdata, hf.take, (h.setup copy.destination).findRoom]

omit [DecidableEq ι] in
/-- A relay that has accepted the packet does not accept it again. -/
theorem notMem_acceptors (h : f.Tracked direct net) (hnow : now < f.start + Deduplicator.ttl) {i : ι}
    (hnew : ((net.relays i).dedup.isDup f.key now).1 = false) : i ∉ net.acceptors f.packet := by
  intro hmem
  rw [Deduplicator.isDup_of_seen (h.seen i hmem) hnow] at hnew
  exact nomatch hnew

theorem tracked_accepts (hf : f.Proper) (h : f.Tracked direct net) (hle : f.start ≤ now)
    (hnow : now < f.start + Deduplicator.ttl) (hc : copy ∈ net.inFlight)
    (hk : copy.packet = f.packet) {pkt : MediaPacket} {room : RoomName}
    (hacc : Accepts f.sha (net.relays copy.destination) copy.source now copy.datagram pkt room
      ((net.relays copy.destination).handleDatagram f.sha copy.source now copy.datagram)) :
    f.Tracked direct (net.deliver f.sha now copy) := by
  obtain ⟨hacceptors, hrecipients, hfly⟩ := MediaNetwork.deliver_accepts hacc f.packet
  rw [if_pos hk] at hacceptors hrecipients
  obtain ⟨hroom, hnew, hrecord⟩ := accepts_carried hf h hc hk hacc
  have hsetup := MediaNetwork.hasSetup_step h.setup f.sha now (.deliver copy)
  rw [MediaNetwork.step, if_pos hc] at hsetup
  refine ⟨hsetup, h.sent, ?_, ?_, ?_, ?_⟩
  · intro c hmem hck
    rw [hfly] at hmem
    rcases List.mem_append.mp hmem with hmem | hmem
    · exact h.carried c (List.mem_of_mem_erase hmem) hck
    · obtain ⟨_, _, rfl⟩ := List.mem_map.mp hmem
      exact h.carried copy hc hk
  · intro i hi
    rw [hacceptors] at hi
    rcases List.mem_append.mp hi with hi | hi
    · exact seen_deliver hle hnow (h.seen i hi)
    · rw [List.mem_singleton.mp hi]
      simp only [MediaNetwork.deliver]
      rw [Function.update_self, hrecord]
      exact Deduplicator.seen_of_isDup hle hnew
  · rw [hacceptors, List.nodup_append]
    refine ⟨h.nodup, List.nodup_singleton _, ?_⟩
    intro x hx y hy hxy
    exact notMem_acceptors h hnow hnew (List.mem_singleton.mp hy ▸ hxy ▸ hx)
  · have hmembers : ((net.relays copy.destination).roomMgr.localSenders room).map
        (fun p => (copy.destination, p.id)) = f.members copy.destination := by
      simp only [members, hroom, (h.setup copy.destination).roomMgr]
    rw [hrecipients, hacceptors, h.log, hmembers, List.flatMap_append, List.append_assoc]
    simp

/-- Accepting a copy is an acceptance of the flood. -/
theorem flood_accepts (hf : f.Proper) (h : f.Tracked direct net)
    (hnow : now < f.start + Deduplicator.ttl) (hc : copy ∈ net.inFlight)
    (hk : copy.packet = f.packet) {pkt : MediaPacket} {room : RoomName}
    (hacc : Accepts f.sha (net.relays copy.destination) copy.source now copy.datagram pkt room
      ((net.relays copy.destination).handleDatagram f.sha copy.source now copy.datagram)) :
    Flood.Step f.Linked f.knowing (f.flood net) (f.flood (net.deliver f.sha now copy)) := by
  obtain ⟨hacceptors, -, hfly⟩ := MediaNetwork.deliver_accepts hacc f.packet
  rw [if_pos hk] at hacceptors
  obtain ⟨hroom, hnew, -⟩ := accepts_carried hf h hc hk hacc
  refine Flood.Step.accept copy.source copy.destination ⟨copy, hc, hk, rfl⟩ ?_
    (notMem_acceptors h hnow hnew) ?_ ?_
  · rw [knowing, Set.mem_ofPred_eq, hroom]
    rfl
  · ext i
    simp only [flood, hacceptors, Set.mem_ofPred_eq, Set.mem_insert_iff, List.mem_append,
      List.mem_singleton]
    exact or_comm
  · rintro a b ⟨c, hmem, hck, hab⟩
    rw [hfly] at hmem
    rcases List.mem_append.mp hmem with hmem | hmem
    · exact Or.inl ⟨c, List.mem_of_mem_erase hmem, hck, hab⟩
    · right
      obtain ⟨fp, hfp, rfl⟩ := List.mem_map.mp hmem
      obtain ⟨rfl, rfl⟩ := Prod.mk.inj hab
      obtain ⟨hpeer, hne⟩ := List.mem_filter.mp hfp
      rw [(h.setup copy.destination).peers] at hpeer
      exact ⟨rfl, hpeer, of_decide_eq_true hne⟩

theorem tracked_deliver (hf : f.Proper) (h : f.Tracked direct net) (hle : f.start ≤ now)
    (hnow : now < f.start + Deduplicator.ttl) (hc : copy ∈ net.inFlight) :
    f.Tracked direct (net.deliver f.sha now copy) ∧
      Flood.Step f.Linked f.knowing (f.flood net) (f.flood (net.deliver f.sha now copy)) := by
  rcases handleDatagram_cases f.sha (net.relays copy.destination) copy.source now
    copy.datagram with ⟨pkt, room, hacc⟩ | hdrop
  · by_cases hk : copy.packet = f.packet
    · exact ⟨tracked_accepts hf h hle hnow hc hk hacc, flood_accepts hf h hnow hc hk hacc⟩
    · -- a copy of another packet
      obtain ⟨hacceptors, hrecipients, hfly⟩ := MediaNetwork.deliver_accepts hacc f.packet
      rw [if_neg hk, List.append_nil] at hacceptors hrecipients
      refine tracked_unnoticed h hle hnow hc hacceptors hrecipients ?_
      intro c hmem hck
      rw [hfly] at hmem
      rcases List.mem_append.mp hmem with hmem | hmem
      · exact List.mem_of_mem_erase hmem
      · obtain ⟨_, _, rfl⟩ := List.mem_map.mp hmem
        exact absurd hck hk
  · obtain ⟨hacceptors, hrecipients, hfly⟩ := MediaNetwork.deliver_drops hdrop f.packet
    refine tracked_unnoticed h hle hnow hc hacceptors hrecipients ?_
    intro c hmem _
    rw [hfly] at hmem
    exact List.mem_of_mem_erase hmem

/-- Every event keeps the packet tracked and is a step of the flood. -/
theorem tracked_step (hf : f.Proper) (h : f.Tracked direct net) (hle : f.start ≤ now)
    (hnow : now < f.start + Deduplicator.ttl) (event : MediaEvent ι) :
    f.Tracked direct (net.step f.sha now event) ∧
      Flood.Step f.Linked f.knowing (f.flood net) (f.flood (net.step f.sha now event)) := by
  have hstay : f.Tracked direct net ∧ Flood.Step f.Linked f.knowing (f.flood net) (f.flood net) :=
    ⟨h, Flood.Step.drop rfl (fun _ hab => hab)⟩
  cases event with
  | send relay room sender wire =>
      rw [MediaNetwork.step]
      split
      · exact hstay
      · rename_i pkt _
        split
        · obtain ⟨htracked, hfly⟩ := tracked_send h relay room sender pkt
          exact ⟨htracked, Flood.Step.drop rfl hfly⟩
        · exact hstay
  | deliver copy =>
      rw [MediaNetwork.step]
      split
      · rename_i hc
        exact tracked_deliver hf h hle hnow hc
      · exact hstay
  | lose copy =>
      refine ⟨⟨h.setup, h.sent, ?_, h.seen, h.nodup, h.log⟩, Flood.Step.drop rfl ?_⟩
      · exact fun c hc hk => h.carried c (List.mem_of_mem_erase hc) hk
      · rintro ab ⟨c, hc, hk, hab⟩
        exact ⟨c, List.mem_of_mem_erase hc, hk, hab⟩

/-- Events within the lifetime of a recorded key. -/
def Within (start : ℕ) (events : List (ℕ × MediaEvent ι)) : Prop :=
  ∀ e ∈ events, start ≤ e.1 ∧ e.1 < start + Deduplicator.ttl

theorem tracked_run (hf : f.Proper) (h : f.Tracked direct net)
    {events : List (ℕ × MediaEvent ι)} (hin : Within f.start events) :
    f.Tracked direct (net.run f.sha events) ∧
      Relation.ReflTransGen (Flood.Step f.Linked f.knowing) (f.flood net)
        (f.flood (net.run f.sha events)) := by
  induction events generalizing net with
  | nil => exact ⟨h, Relation.ReflTransGen.refl⟩
  | cons e events ih =>
      obtain ⟨hle, hnow⟩ := hin e List.mem_cons_self
      obtain ⟨htracked, hstep⟩ := tracked_step hf h hle hnow e.2
      obtain ⟨hrun, hsteps⟩ := ih htracked fun e' he => hin e' (List.mem_cons_of_mem _ he)
      exact ⟨hrun, Relation.ReflTransGen.head hstep hsteps⟩

end Flight
end Wzp.Relay
