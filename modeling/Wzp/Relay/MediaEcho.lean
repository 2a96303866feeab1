import Wzp.Relay.MediaDelivery

/-!
# When media is echoed

One packet of one participant, from any state of the federation. It is safe in
all runs exactly if the peer links close no cycle through its relay.
-/
namespace Wzp.Relay
open Bytes Proto FederationManager

variable {ι : Type}

/-- The packet as it leaves relay `origin` for the room. -/
def Flight.ofSend (sha : Hash) (setup : ι → FederationManager ι) (origin : ι) (room : RoomName)
    (pkt : MediaPacket) (packet start : ℕ) : Flight ι :=
  { sha, setup, packet, start, rh := (setup origin).globalRoomHash sha room, pkt }

/-- What the sender's relay delivers by itself. -/
def directTargets (setup : ι → FederationManager ι) (origin : ι) (room : RoomName)
    (sender : ParticipantId) (pkt : MediaPacket) : List (ι × ParticipantId) :=
  (forwardTargets (setup origin).roomMgr room sender pkt).map fun p => (origin, p.id)

theorem length_roomHash (sha : Hash) (room : RoomName) : (roomHash sha room).length = 8 := by
  rw [roomHash, List.length_take, Vector.length_toList]
  rfl

theorem length_globalRoomHash (sha : Hash) (fm : FederationManager ι) (room : RoomName) :
    (fm.globalRoomHash sha room).length = 8 := by
  rw [globalRoomHash]
  split
  · exact length_roomHash _ _
  · exact length_roomHash _ _

theorem FederationManager.SameSetup.egress {a b : FederationManager ι} (h : SameSetup a b)
    (sha : Hash) (room : RoomName) (pkt : MediaPacket) :
    a.egress sha room pkt = b.egress sha room pkt := by
  simp only [FederationManager.egress, FederationManager.forwardToPeers, h.isGlobalRoom,
    h.globalRoomHash, h.peers]

namespace Flight

section started
variable {net : MediaNetwork ι} {setup : ι → FederationManager ι}

theorem proper_ofSend (sha : Hash) (setup : ι → FederationManager ι) (origin : ι) (room : RoomName)
    {wire : Buf} {pkt : MediaPacket} (hwire : MediaPacket.fromBytes wire = some pkt)
    (packet start : ℕ) : (ofSend sha setup origin room pkt packet start).Proper :=
  ⟨length_globalRoomHash _ _ _, MediaPacket.fromBytes_wellFormed hwire⟩

/-- The copies in flight right after the packet was sent. -/
theorem mem_sent (hnum : net.Numbered) (hsetup : net.HasSetup setup) (sha : Hash) (origin : ι)
    (room : RoomName) (sender : ParticipantId) (pkt : MediaPacket) {c : Copy ι}
    (hc : c ∈ (net.send sha origin room sender pkt).inFlight) (hk : c.packet = net.sent) :
    (setup origin).isGlobalRoom sha room = true ∧ c.source = origin ∧
      c.destination ∈ (setup origin).peers ∧
      c.datagram = (setup origin).globalRoomHash sha room ++ pkt.toBytes := by
  rcases List.mem_append.mp hc with hc | hc
  · exact absurd hk (hnum.inFlight c hc).ne
  · obtain ⟨⟨fp, data⟩, hmem, rfl⟩ := List.mem_map.mp hc
    rw [(hsetup origin).egress sha room pkt, egress] at hmem
    split at hmem
    · rename_i hglobal
      obtain ⟨fp', hfp, heq⟩ := List.mem_map.mp hmem
      obtain ⟨rfl, rfl⟩ := Prod.mk.inj heq
      exact ⟨hglobal, rfl, hfp, rfl⟩
    · exact absurd hmem List.not_mem_nil

theorem recipients_unsent (hnum : net.Numbered) : net.recipients net.sent = [] := by
  rw [MediaNetwork.recipients, List.map_eq_nil_iff, List.filter_eq_nil_iff]
  intro d hd heq
  exact absurd (of_decide_eq_true heq) (hnum.delivered d hd).ne

theorem recipients_send (hnum : net.Numbered) (hsetup : net.HasSetup setup) (sha : Hash)
    (origin : ι) (room : RoomName) (sender : ParticipantId) (pkt : MediaPacket) :
    (net.send sha origin room sender pkt).recipients net.sent =
      directTargets setup origin room sender pkt := by
  have hold := recipients_unsent hnum
  have hsame := (hsetup origin).roomMgr
  rw [MediaNetwork.recipients] at hold
  simp only [MediaNetwork.recipients, MediaNetwork.send, List.filter_append, List.map_append, hold,
    List.nil_append, hsame, directTargets]
  simp [List.filter_map, Function.comp_def]

theorem acceptors_unsent (hnum : net.Numbered) : net.acceptors net.sent = [] := by
  rw [MediaNetwork.acceptors, List.map_eq_nil_iff, List.filter_eq_nil_iff]
  intro a ha heq
  exact absurd (of_decide_eq_true heq) (hnum.accepted a ha).ne

theorem tracked_started (hnum : net.Numbered) (hsetup : net.HasSetup setup) (sha : Hash)
    (origin : ι) (room : RoomName) (sender : ParticipantId) (pkt : MediaPacket) (start : ℕ) :
    (ofSend sha setup origin room pkt net.sent start).Tracked
      (directTargets setup origin room sender pkt) (net.send sha origin room sender pkt) := by
  have hnone : (net.send sha origin room sender pkt).acceptors net.sent = [] :=
    acceptors_unsent hnum
  refine ⟨hsetup, Nat.lt_succ_self _, ?_, ?_, ?_, ?_⟩
  · intro c hc hk
    exact (mem_sent hnum hsetup sha origin room sender pkt hc hk).2.2.2
  · intro i hi
    rw [ofSend, hnone] at hi
    exact absurd hi List.not_mem_nil
  · rw [ofSend, hnone]
    exact List.nodup_nil
  · rw [ofSend, hnone, List.flatMap_nil, List.append_nil]
    exact recipients_send hnum hsetup sha origin room sender pkt

theorem flood_started (hnum : net.Numbered) (hsetup : net.HasSetup setup) (sha : Hash)
    (origin : ι) (room : RoomName) (sender : ParticipantId) (pkt : MediaPacket) (start : ℕ) :
    Flood.Started (ofSend sha setup origin room pkt net.sent start).Linked origin
      ((ofSend sha setup origin room pkt net.sent start).flood
        (net.send sha origin room sender pkt)) := by
  refine ⟨?_, ?_⟩
  · ext i
    have hnone : (net.send sha origin room sender pkt).acceptors net.sent = [] :=
      acceptors_unsent hnum
    simp only [flood, ofSend, hnone, List.not_mem_nil]
    rfl
  · rintro a b ⟨c, hc, hk, hab⟩
    obtain ⟨rfl, rfl⟩ := Prod.mk.inj hab
    obtain ⟨-, hsrc, hdst, -⟩ := mem_sent hnum hsetup sha origin room sender pkt hc hk
    exact ⟨hsrc, hdst⟩

end started

/-! ## Safe unless the origin accepts -/
section safe
variable {f : Flight ι} {net : MediaNetwork ι} {origin : ι} {room : RoomName}
  {sender : ParticipantId}

theorem mem_members {i j : ι} {id : ParticipantId} (h : (j, id) ∈ f.members i) :
    j = i ∧ ∃ room, f.room? i = some room ∧
      ∃ p ∈ (f.setup i).roomMgr.localSenders room, p.id = id := by
  rw [members] at h
  split at h
  · exact absurd h List.not_mem_nil
  · rename_i room hroom
    obtain ⟨p, hp, heq⟩ := List.mem_map.mp h
    obtain ⟨rfl, rfl⟩ := Prod.mk.inj heq
    exact ⟨rfl, room, hroom, p, hp, rfl⟩

theorem nodup_pairs (i : ι) {ps : List Participant} (h : (ps.map Participant.id).Nodup) :
    (ps.map fun p => (i, p.id)).Nodup := by
  have hmap : (ps.map fun p => (i, p.id)) = (ps.map Participant.id).map (Prod.mk i) := by
    rw [List.map_map]
    rfl
  rw [hmap]
  exact h.map fun _ _ heq => (Prod.mk.inj heq).2

theorem nodup_members (i : ι) : (f.members i).Nodup := by
  rw [members]
  split
  · exact List.nodup_nil
  · exact nodup_pairs i (RoomManager.localSenders_nodup _ _)

theorem nodup_directTargets (setup : ι → FederationManager ι) (origin : ι) (room : RoomName)
    (sender : ParticipantId) (pkt : MediaPacket) :
    (directTargets setup origin room sender pkt).Nodup := by
  apply nodup_pairs
  have hsub : (forwardTargets (setup origin).roomMgr room sender pkt).Sublist
      ((setup origin).roomMgr.localSenders room) :=
    List.filter_sublist.trans List.filter_sublist
  exact (RoomManager.localSenders_nodup _ _).sublist (hsub.map _)

/-- The sender's relay delivers to the other members of the room. -/
theorem mem_directTargets {setup : ι → FederationManager ι} {pkt : MediaPacket} {i : ι}
    {id : ParticipantId} (h : (i, id) ∈ directTargets setup origin room sender pkt) :
    i = origin ∧ id ≠ sender ∧ ∃ p ∈ (setup origin).roomMgr.localSenders room, p.id = id := by
  obtain ⟨p, hp, heq⟩ := List.mem_map.mp h
  obtain ⟨rfl, rfl⟩ := Prod.mk.inj heq
  obtain ⟨hp, hne⟩ := List.mem_filter.mp (List.mem_filter.mp hp).1
  exact ⟨rfl, of_decide_eq_true hne, p, hp, rfl⟩

/-- The packet is safe if its own relay does not accept it for the same room. -/
theorem safe_of_tracked (h : f.Tracked (directTargets f.setup origin room sender f.pkt) net)
    (hmember : ∃ p ∈ (f.setup origin).roomMgr.localSenders room, p.id = sender)
    (hquiet : origin ∈ net.acceptors f.packet → f.room? origin ≠ some room) :
    net.Safe f.packet origin sender := by
  -- nobody of the sender's room gets it through an acceptance of the origin
  have hother : ∀ i ∈ net.acceptors f.packet, ∀ id,
      (∃ p ∈ (f.setup origin).roomMgr.localSenders room, p.id = id) →
        (origin, id) ∉ f.members i := by
    rintro i hi id ⟨p, hp, rfl⟩ hmem
    obtain ⟨rfl, room', hroom, q, hq, hid⟩ := mem_members hmem
    by_cases heq : room' = room
    · subst heq
      exact hquiet hi hroom
    · exact RoomManager.localSenders_disjoint heq hq hp hid
  refine ⟨?_, ?_⟩
  · rw [h.log, List.nodup_append]
    refine ⟨nodup_directTargets _ _ _ _ _, ?_, ?_⟩
    · refine List.nodup_flatMap.mpr ⟨fun i _ => nodup_members i, ?_⟩
      refine h.nodup.imp ?_
      rintro i j hne ⟨k, id⟩ hk hk'
      exact hne ((mem_members hk).1.symm.trans (mem_members hk').1)
    · rintro ⟨i, id⟩ hi ⟨j, id'⟩ hj heq
      obtain ⟨rfl, rfl⟩ := Prod.mk.inj heq
      obtain ⟨rfl, -, hroom⟩ := mem_directTargets hi
      obtain ⟨j, hacc, hj⟩ := List.mem_flatMap.mp hj
      exact hother j hacc id hroom hj
  · rw [h.log]
    intro hmem
    rcases List.mem_append.mp hmem with hmem | hmem
    · exact (mem_directTargets hmem).2.1 rfl
    · obtain ⟨i, hi, hmem⟩ := List.mem_flatMap.mp hmem
      exact hother i hi sender hmember hmem

/-- If it does accept it, the sender is among the recipients. -/
theorem echo_of_tracked {direct : List (ι × ParticipantId)} (h : f.Tracked direct net)
    (hmember : ∃ p ∈ (f.setup origin).roomMgr.localSenders room, p.id = sender)
    (hroom : f.room? origin = some room) (hacc : origin ∈ net.acceptors f.packet) :
    ¬ net.Safe f.packet origin sender := by
  intro hsafe
  apply hsafe.noEcho
  rw [h.log]
  obtain ⟨p, hp, rfl⟩ := hmember
  refine List.mem_append.mpr (Or.inr (List.mem_flatMap.mpr ⟨origin, hacc, ?_⟩))
  simp only [members, hroom]
  exact List.mem_map.mpr ⟨p, hp, rfl⟩

end safe

/-! ## Along a cycle -/
section follow
variable [DecidableEq ι] {f : Flight ι} {net : MediaNetwork ι} {direct : List (ι × ParticipantId)}

/-- A relay that has not handled any datagram. -/
structure Unused (fm : FederationManager ι) : Prop where
  dedup : fm.dedup.entries = []
  rateLimiters : ∀ room, fm.rateLimiters room = none

/-- Such a relay accepts the packet and forwards it. -/
theorem deliver_unused (hf : f.Proper) (h : f.Tracked direct net) {a b : ι}
    (hcopy : ⟨f.packet, a, b, f.datagram⟩ ∈ net.inFlight) (hroom : (f.room? b).isSome)
    (hunused : Unused (net.relays b)) :
    f.Tracked direct (net.deliver f.sha f.start ⟨f.packet, a, b, f.datagram⟩) ∧
      b ∈ (net.deliver f.sha f.start ⟨f.packet, a, b, f.datagram⟩).acceptors f.packet ∧
      ∀ c, f.Linked b c → c ≠ a → ⟨f.packet, b, c, f.datagram⟩ ∈
        (net.deliver f.sha f.start ⟨f.packet, a, b, f.datagram⟩).inFlight := by
  generalize hc : (⟨f.packet, a, b, f.datagram⟩ : Copy ι) = copy at hcopy ⊢
  have hdst : copy.destination = b := hc ▸ rfl
  have hsrc : copy.source = a := hc ▸ rfl
  have hdata : copy.datagram = f.datagram := hc ▸ rfl
  have hk : copy.packet = f.packet := hc ▸ rfl
  obtain ⟨room, hroom⟩ := Option.isSome_iff_exists.mp hroom
  subst hdst hsrc
  rcases handleDatagram_cases f.sha (net.relays copy.destination) copy.source f.start
    copy.datagram with ⟨pkt, room', hacc⟩ | hdrop
  · obtain ⟨hacceptors, -, hfly⟩ := MediaNetwork.deliver_accepts hacc f.packet
    have hnow : f.start < f.start + Deduplicator.ttl := Nat.lt_add_of_pos_right (by decide)
    refine ⟨tracked_accepts hf h (Nat.le_refl _) hnow hcopy hk hacc, ?_, ?_⟩
    · rw [hacceptors, if_pos hk]
      exact List.mem_append.mpr (Or.inr (List.mem_singleton.mpr rfl))
    · intro c hlink hback
      have hpeer : c ∈ (net.relays copy.destination).peers := by
        rw [(h.setup copy.destination).peers]
        exact hlink
      rw [hfly]
      refine List.mem_append.mpr (Or.inr (List.mem_map.mpr ⟨c, ?_, ?_⟩))
      · exact List.mem_filter.mpr ⟨hpeer, decide_eq_true hback⟩
      · rw [hk, hdata]
  · -- it has no key and no limiter that could stop the packet
    have hfound : (net.relays copy.destination).findRoom f.sha (f.datagram.take 8) = some room := by
      rw [hf.take, (h.setup copy.destination).findRoom]
      exact hroom
    have hacc := handleDatagram_fresh copy.source f.start hf.length hf.parse hfound hunused.dedup
      (hunused.rateLimiters room)
    rw [hdata] at hdrop
    exact absurd hacc (hdrop.ingress room)

/-- Delivering the copies along a route, one relay after the other, brings the
packet to its end. -/
theorem follow_route (hf : f.Proper) {a b : ι} {rest : List ι}
    (hroute : Flood.Route f.Linked a b rest) (h : f.Tracked direct net)
    (hcopy : ⟨f.packet, a, b, f.datagram⟩ ∈ net.inFlight) (hnodup : (b :: rest).Nodup)
    (hroom : ∀ v ∈ b :: rest, (f.room? v).isSome)
    (hunused : ∀ v ∈ b :: rest, Unused (net.relays v)) {last : ι}
    (hlast : (b :: rest).getLast? = some last) :
    ∃ events, Within f.start events ∧ last ∈ (net.run f.sha events).acceptors f.packet := by
  have hnow : f.start < f.start + Deduplicator.ttl := Nat.lt_add_of_pos_right (by decide)
  induction hroute generalizing net with
  | @last a b =>
      obtain ⟨-, hacc, -⟩ := deliver_unused hf h hcopy (hroom b List.mem_cons_self)
        (hunused b List.mem_cons_self)
      refine ⟨[(f.start, .deliver ⟨f.packet, a, b, f.datagram⟩)], ?_, ?_⟩
      · intro e he
        rw [List.mem_singleton.mp he]
        exact ⟨Nat.le_refl _, hnow⟩
      · obtain rfl := Option.some.inj hlast
        rw [MediaNetwork.run, List.foldl_cons, List.foldl_nil, MediaNetwork.step, if_pos hcopy]
        exact hacc
  | @next a b c rest hlink hback _ ih =>
      obtain ⟨htracked, -, hfly⟩ := deliver_unused hf h hcopy (hroom b List.mem_cons_self)
        (hunused b List.mem_cons_self)
      obtain ⟨hb, hrest⟩ := List.nodup_cons.mp hnodup
      have hahead : ∀ v ∈ c :: rest,
          Unused ((net.deliver f.sha f.start ⟨f.packet, a, b, f.datagram⟩).relays v) := by
        intro v hv
        have hne : v ≠ b := by
          rintro rfl
          exact hb hv
        simp only [MediaNetwork.deliver]
        rw [Function.update_of_ne hne]
        exact hunused v (List.mem_cons_of_mem _ hv)
      obtain ⟨events, hin, hmem⟩ := ih htracked (hfly c hlink hback) hrest
        (fun v hv => hroom v (List.mem_cons_of_mem _ hv)) hahead hlast
      refine ⟨(f.start, .deliver ⟨f.packet, a, b, f.datagram⟩) :: events, ?_, ?_⟩
      · intro e he
        rcases List.mem_cons.mp he with rfl | he
        · exact ⟨Nat.le_refl _, hnow⟩
        · exact hin e he
      · rw [MediaNetwork.run, List.foldl_cons, MediaNetwork.step, if_pos hcopy]
        exact hmem

end follow
end Flight

/-! ## The exact condition -/

/-- The packet can come back to the sender's room: the room is global, its tag
leads back to it, and the links close a cycle of relays that know the room. -/
structure ComesBack (sha : Hash) (setup : ι → FederationManager ι) (origin : ι) (room : RoomName) :
    Prop where
  isGlobal : (setup origin).isGlobalRoom sha room = true
  found : (setup origin).findRoom sha ((setup origin).globalRoomHash sha room) = some room
  cycle : Flood.Cycle (fun i j => j ∈ (setup i).peers)
    {i | ((setup i).findRoom sha ((setup origin).globalRoomHash sha room)).isSome} origin

variable [DecidableEq ι]

/-- A member of the room can send. -/
theorem MediaNetwork.step_send {setup : ι → FederationManager ι} {net : MediaNetwork ι}
    (h : net.HasSetup setup) (sha : Hash) (now : ℕ) {origin : ι} {room : RoomName}
    {sender : ParticipantId} {wire : Buf} {pkt : MediaPacket}
    (hwire : MediaPacket.fromBytes wire = some pkt)
    (hmember : ∃ p ∈ (setup origin).roomMgr.localSenders room, p.id = sender) :
    net.step sha now (.send origin room sender wire) = net.send sha origin room sender pkt := by
  obtain ⟨p, hp, rfl⟩ := hmember
  have hany : ((net.relays origin).roomMgr.localSenders room).any (·.id = p.id) = true := by
    rw [(h origin).roomMgr]
    exact List.any_eq_true.mpr ⟨p, hp, decide_eq_true rfl⟩
  rw [step, hwire]
  simp only [hany, if_true]

section exact
variable {sha : Hash} {setup : ι → FederationManager ι} {origin : ι} {room : RoomName}
  {sender : ParticipantId} {pkt : MediaPacket} {net : MediaNetwork ι} {start : ℕ}

open Flight

/-- Without a way back the origin accepts nothing for the room. -/
theorem safe_after_send (hproper : (ofSend sha setup origin room pkt net.sent start).Proper)
    (hnum : net.Numbered) (hsetup : net.HasSetup setup)
    (hmember : ∃ p ∈ (setup origin).roomMgr.localSenders room, p.id = sender)
    (hback : ¬ ComesBack sha setup origin room) {later : List (ℕ × MediaEvent ι)}
    (hin : Within start later) :
    ((net.send sha origin room sender pkt).run sha later).Safe net.sent origin sender := by
  have hstart := tracked_started hnum hsetup sha origin room sender pkt start
  have hflood := flood_started hnum hsetup sha origin room sender pkt start
  obtain ⟨htracked, hsteps⟩ := tracked_run hproper hstart hin
  refine safe_of_tracked htracked hmember ?_
  intro hacc hfound
  by_cases hglobal : (setup origin).isGlobalRoom sha room = true
  · have hcycle := fun hc => hback ⟨hglobal, hfound, hc⟩
    exact (Flood.traced_run hcycle hflood hsteps).silent hacc
  · -- the room is local: no copy was ever sent
    have hnone : ((ofSend sha setup origin room pkt net.sent start).flood
        (net.send sha origin room sender pkt)).inFlight = ∅ := by
      ext ab
      refine ⟨?_, fun hab => absurd hab (Set.notMem_empty _)⟩
      rintro ⟨c, hc, hk, -⟩
      exact absurd (mem_sent hnum hsetup sha origin room sender pkt hc hk).1 hglobal
    have hquiet := (Flood.quiet_run hnone hsteps).2.trans hflood.accepted
    exact Set.notMem_empty _ (hquiet.subset hacc)

/-- The federation before any media. -/
def MediaNetwork.initial (setup : ι → FederationManager ι) : MediaNetwork ι :=
  { relays := fun i => { setup i with dedup := ⟨[]⟩, rateLimiters := fun _ => none }
    inFlight := []
    delivered := []
    accepted := []
    sent := 0 }

omit [DecidableEq ι] in
theorem MediaNetwork.idle_initial (setup : ι → FederationManager ι) :
    (initial setup).Idle setup :=
  ⟨fun _ => ⟨rfl, rfl, rfl⟩, rfl, rfl, rfl⟩

/-- With a way back the packet can be delivered to its sender. -/
theorem echo_after_send
    (hproper : (ofSend sha setup origin room pkt 0 0).Proper)
    (hmember : ∃ p ∈ (setup origin).roomMgr.localSenders room, p.id = sender)
    (hback : ComesBack sha setup origin room) :
    ∃ later, Within 0 later ∧
      ¬ (((MediaNetwork.initial setup).send sha origin room sender pkt).run sha later).Safe
        0 origin sender := by
  have hidle := MediaNetwork.idle_initial setup
  have hnum := hidle.numbered
  have hsetup := hidle.setup
  have hstart := tracked_started hnum hsetup sha origin room sender pkt 0
  obtain ⟨b, rest, hlink, hroute, hnodup, hlast, hknows⟩ := hback.cycle.route
  have hcopy : (⟨0, origin, b, (setup origin).globalRoomHash sha room ++ pkt.toBytes⟩ : Copy ι) ∈
      ((MediaNetwork.initial setup).send sha origin room sender pkt).inFlight := by
    refine List.mem_append.mpr (Or.inr (List.mem_map.mpr ⟨(b, _), ?_, rfl⟩))
    rw [(hsetup origin).egress sha room pkt, egress, if_pos hback.isGlobal]
    exact List.mem_map.mpr ⟨b, hlink, rfl⟩
  have hroom : ∀ v ∈ b :: rest, ((ofSend sha setup origin room pkt 0 0).room? v).isSome := by
    intro v hv
    rcases hknows v hv with rfl | hv
    · exact Option.isSome_iff_exists.mpr ⟨room, hback.found⟩
    · exact hv
  obtain ⟨later, hin, hacc⟩ := follow_route hproper hroute hstart hcopy hnodup hroom
    (fun v _ => ⟨rfl, fun _ => rfl⟩) hlast
  obtain ⟨htracked, -⟩ := tracked_run hproper hstart hin
  exact ⟨later, hin, echo_of_tracked htracked hmember hback.found hacc⟩

end exact

/-- In every run a packet is safe, if and only if it cannot come back. -/
theorem media_safe_iff (sha : Hash) (setup : ι → FederationManager ι) (origin : ι)
    (room : RoomName) (sender : ParticipantId) (wire : Buf) (pkt : MediaPacket)
    (hwire : MediaPacket.fromBytes wire = some pkt)
    (hmember : ∃ p ∈ (setup origin).roomMgr.localSenders room, p.id = sender) :
    (∀ net : MediaNetwork ι, net.Idle setup → ∀ prior start later, Flight.Within start later →
      (((net.run sha prior).step sha start (.send origin room sender wire)).run sha later).Safe
        (net.run sha prior).sent origin sender) ↔
      ¬ ComesBack sha setup origin room := by
  constructor
  · intro hsafe hback
    obtain ⟨later, hin, hecho⟩ := echo_after_send
      (Flight.proper_ofSend sha setup origin room hwire 0 0) hmember hback
    have hidle := MediaNetwork.idle_initial setup
    have h := hsafe (MediaNetwork.initial setup) hidle [] 0 later hin
    have hsend := MediaNetwork.step_send hidle.setup sha 0 hwire hmember
    rw [show (MediaNetwork.initial setup).run sha [] = MediaNetwork.initial setup from rfl,
      hsend] at h
    exact hecho h
  · intro hback net hidle prior start later hin
    have hnum := MediaNetwork.numbered_run hidle.numbered sha prior
    have hsetup := MediaNetwork.hasSetup_run hidle.setup sha prior
    rw [MediaNetwork.step_send hsetup sha start hwire hmember]
    exact safe_after_send (Flight.proper_ofSend sha setup origin room hwire _ _) hnum hsetup hmember
      hback hin

/-! ## Around a triangle -/
namespace Triangle

/-- An audio packet with one byte of payload. -/
def wire : Buf := [2, 0, 0, 0, 0, 0, 0, 0, 0, 7, 0, 0, 0, 20, 0, 0, 42]

def pkt : MediaPacket := ⟨⟨2, 0, .audio, .opus24k, 0, 0, 7, 20, 0⟩, [42], none⟩

/-- Around the triangle, back to the relay of the sender. -/
def around : List (ℕ × MediaEvent (Fin 3)) :=
  [(0, .deliver ⟨0, 0, 1, roomHash sha conf ++ wire⟩),
    (0, .deliver ⟨0, 1, 2, roomHash sha conf ++ wire⟩),
    (0, .deliver ⟨0, 2, 0, roomHash sha conf ++ wire⟩)]

end Triangle

theorem media_safe_iff_triangle :
    (∀ net : MediaNetwork (Fin 3), net.Idle Triangle.relay → ∀ prior start later,
      Flight.Within start later →
      (((net.run Triangle.sha prior).step Triangle.sha start
        (.send 0 Triangle.conf 1 Triangle.wire)).run Triangle.sha later).Safe
          (net.run Triangle.sha prior).sent 0 1) ↔
      ¬ ComesBack Triangle.sha Triangle.relay 0 Triangle.conf :=
  media_safe_iff Triangle.sha Triangle.relay 0 Triangle.conf 1 Triangle.wire Triangle.pkt
    (by decide) (by decide)

/-- The links are symmetric and all deliveries happen at once, but the sender
gets its own packet. -/
theorem triangle_echo :
    (∀ i j, j ∈ (Triangle.relay i).peers ↔ i ∈ (Triangle.relay j).peers) ∧
      (MediaNetwork.initial Triangle.relay).Idle Triangle.relay ∧
      Flight.Within 0 Triangle.around ∧
      ¬ (((MediaNetwork.initial Triangle.relay).step Triangle.sha 0
        (.send 0 Triangle.conf 1 Triangle.wire)).run Triangle.sha Triangle.around).Safe 0 0 1 := by
  refine ⟨by decide, MediaNetwork.idle_initial _, ?_, ?_⟩
  · intro e he
    simp only [Triangle.around, List.mem_cons, List.not_mem_nil, or_false] at he
    rcases he with rfl | rfl | rfl <;> exact ⟨Nat.le_refl _, by decide⟩
  · exact fun hsafe => absurd (by decide +kernel) hsafe.noEcho

end Wzp.Relay
