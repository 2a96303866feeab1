import Wzp.Relay.KeyframeStream
import Wzp.Relay.RoomRefinement
import Wzp.Relay.TrunkedForwarding

/-!
# Keyframes for those who join

What a new participant is replayed is compared with what the video branch of the forwarding loop
sends, while participants join, leave and send in any order.
-/
namespace Wzp.Relay.Sfu
open Bytes Proto Runs

/-- What the video branch sends of a packet to a receiver with this layer selected. -/
def videoBranch (pkt : MediaPacket) (sender : ParticipantId) (selected : UInt8) :
    Option MediaPacket :=
  if (videoRouteReason pkt selected).isSome then some (withOutboundVideoStreamId pkt sender)
  else none

/-- The loop of the relay sends a video packet as `videoBranch` says: the replay and the live
packets that are put together here are those of the loop. -/
theorem PlainLoop.sent_forward {Addr : Type} {cfg : LoopSetup Addr} {pkt : MediaPacket}
    (s : PlainLoop) (hvideo : pkt.header.mediaType = .video) :
    (s.forward cfg pkt).sent = s.sent ++
      ((s.state.manager.othersWithId cfg.room cfg.id).filter (·.sender = .quic)).filterMap fun p =>
        (videoBranch pkt cfg.id (s.state.manager.selectedLayer cfg.room p.id)).map fun out =>
          (p.id, out.toBytes) := by
  rw [PlainLoop.forward, LoopState.targets]
  dsimp only
  rw [List.append_right_inj, List.filter_filter, List.filterMap_filter,
    ← List.filterMap_eq_map, List.filterMap_filter]
  refine List.filterMap_congr fun p _ => ?_
  rw [videoBranch, hvideo]
  by_cases hquic : p.sender = .quic
  · by_cases hroute : (videoRouteReason pkt (s.state.manager.selectedLayer cfg.room p.id)).isSome
    · simp [hquic, hroute]
    · simp [hquic, hroute]
  · simp [hquic]

/-! ## The tables of one stream -/
namespace RoomManager
variable {m m' : RoomManager} {key : StreamKey} {room : RoomName} {id : ParticipantId}
  {sender : ParticipantSender} {fingerprint «alias» : Option String} {op : RoomOp}

/-- Nothing changes for the stream. -/
structure SameStream (m m' : RoomManager) (key : StreamKey) : Prop where
  keyframeCache : m'.keyframeCache.lookup key = m.keyframeCache.lookup key
  keyframeBuffer : m'.keyframeBuffer.lookup key = m.keyframeBuffer.lookup key

theorem SameStream.trans {m'' : RoomManager} (h : SameStream m m' key)
    (h' : SameStream m' m'' key) : SameStream m m'' key :=
  ⟨h'.keyframeCache.trans h.keyframeCache, h'.keyframeBuffer.trans h.keyframeBuffer⟩

theorem sameStream_of_retain (keep : StreamKey → Bool) (hkeep : keep key = true)
    (hcache : m'.keyframeCache = m.keyframeCache.retain fun k _ => keep k)
    (hbuffer : m'.keyframeBuffer = m.keyframeBuffer.retain fun k _ => keep k) :
    SameStream m m' key := by
  constructor
  · rw [hcache, Table.lookup_retain_keys, if_pos hkeep]
  · rw [hbuffer, Table.lookup_retain_keys, if_pos hkeep]

theorem sameStream_clearParticipantState (h : ¬ (key.1 = room ∧ key.2.1 = id)) :
    SameStream m (m.clearParticipantState room id) key :=
  sameStream_of_retain (fun k => ¬ (k.1 = room ∧ k.2.1 = id)) (decide_eq_true h) rfl rfl

theorem sameStream_clearRoomState (h : key.1 ≠ room) : SameStream m (m.clearRoomState room) key :=
  sameStream_of_retain (fun k => k.1 ≠ room) (decide_eq_true h) rfl rfl

theorem sameStream_clearParticipants {ids : List ParticipantId}
    (h : ¬ (key.1 = room ∧ key.2.1 ∈ ids)) : SameStream m (m.clearParticipants room ids) key := by
  induction ids generalizing m with
  | nil => exact ⟨rfl, rfl⟩
  | cons id ids ih =>
      have hhead : ¬ (key.1 = room ∧ key.2.1 = id) := fun hgone =>
        h ⟨hgone.1, List.mem_cons.mpr (Or.inl hgone.2)⟩
      have htail : ¬ (key.1 = room ∧ key.2.1 ∈ ids) := fun hgone =>
        h ⟨hgone.1, List.mem_cons_of_mem id hgone.2⟩
      exact (sameStream_clearParticipantState hhead).trans (ih htail)

theorem sameStream_join (h : m.Consistent) (hfresh : m.NextFresh)
    (hstays : (m.join room sender fingerprint «alias»).1.containsParticipant key.1 key.2.1) :
    SameStream m (m.join room sender fingerprint «alias»).1 key := by
  cases hauth : m.isAuthorized room fingerprint with
  | false =>
      rw [join_of_unauthorized hauth]
      exact ⟨rfl, rfl⟩
  | true =>
      have hkept : ¬ (key.1 = room ∧ key.2.1 ∈ ((m.roomOrNew room).replace fingerprint).2) := by
        rintro ⟨hroom, hreplaced⟩
        obtain ⟨q, hq, hfp, hid⟩ := Room.mem_replaced.mp hreplaced
        rw [containsParticipant_iff] at hstays
        obtain ⟨p, hp, hpid⟩ := List.mem_map.mp hstays
        rcases (mem_localSenders_join hauth).mp hp with ⟨hold, hother⟩ | ⟨-, rfl⟩
        · rw [hroom, ← roomOrNew_participants] at hold
          obtain rfl := (h.roomOrNew room).eq_of_id hold hq (hpid.trans hid.symm)
          exact hother ⟨hroom, hfp⟩
        · rw [roomOrNew_participants] at hq
          exact hfresh room q hq (hid.trans hpid.symm)
      have hcleared := sameStream_clearParticipants (m := m) hkept
      rw [join_eq hauth]
      exact ⟨hcleared.keyframeCache, hcleared.keyframeBuffer⟩

theorem sameStream_leave (hstays : (m.leave room id).1.containsParticipant key.1 key.2.1) :
    SameStream m (m.leave room id).1 key := by
  cases hlookup : m.rooms.lookup room with
  | none =>
      rw [leave_of_absent hlookup]
      exact ⟨rfl, rfl⟩
  | some r =>
      have hother : ¬ (key.1 = room ∧ key.2.1 = id) := by
        rw [containsParticipant_iff] at hstays
        obtain ⟨p, hp, hpid⟩ := List.mem_map.mp hstays
        exact fun hgone => (mem_localSenders_leave.mp hp).2 ⟨hgone.1, hpid.trans hgone.2⟩
      have hleft := sameStream_clearParticipantState (m := m) hother
      by_cases hnil : (r.left id).participants = []
      · have hroom : key.1 ≠ room := by
          intro hroom
          rw [containsParticipant, hroom, rooms_leave_self hlookup, if_pos hnil] at hstays
          exact absurd hstays Bool.false_ne_true
        have hclosed := hleft.trans (sameStream_clearRoomState hroom)
        rw [leave_last_eq hlookup hnil]
        exact ⟨hclosed.keyframeCache, hclosed.keyframeBuffer⟩
      · rw [leave_eq hlookup hnil]
        exact ⟨hleft.keyframeCache, hleft.keyframeBuffer⟩

/-- Only packets that the cache is updated with change the tables of a stream whose sender stays. -/
theorem sameStream_step (h : m.Consistent) (hfresh : op.isJoin = true → m.NextFresh)
    (hstays : (m.step op).containsParticipant key.1 key.2.1)
    (hother : ∀ room sender pkt, op ≠ .updateKeyframeCache room sender pkt) :
    SameStream m (m.step op) key := by
  cases op with
  | allow | updateReceiverState => exact ⟨rfl, rfl⟩
  | join room sender fp al => exact sameStream_join h (hfresh rfl) hstays
  | joinWs room fp => exact sameStream_join h (hfresh rfl) hstays
  | leave room id => exact sameStream_leave hstays
  | updateKeyframeCache room id pkt => exact absurd rfl (hother room id pkt)
  | registerStream room id pkt =>
      rw [step, registerStream]
      split
      · exact ⟨rfl, rfl⟩
      · exact ⟨rfl, rfl⟩
  | shouldForwardPli room id streamId now =>
      rw [step, shouldForwardPli]
      split
      · exact ⟨rfl, rfl⟩
      · split
        · exact ⟨rfl, rfl⟩
        · exact ⟨rfl, rfl⟩
  | observeQuality room id now report =>
      rw [step, observeQuality]
      split
      · exact ⟨rfl, rfl⟩
      · exact ⟨rfl, rfl⟩

/-! ## What a join returns -/

theorem join_ok {joined : Joined}
    (h : (m.join room sender fingerprint «alias»).2 = .ok joined) :
    m.isAuthorized room fingerprint = true ∧ joined.participantId = m.nextParticipantId ∧
      joined.keyframes =
        (m.join room sender fingerprint «alias»).1.cachedKeyframesForRoom room := by
  rw [join] at h ⊢
  cases hauth : m.isAuthorized room fingerprint with
  | false =>
      rw [if_neg (Bool.eq_false_iff.mp hauth)] at h
      cases h
  | true =>
      rw [if_pos hauth] at h
      obtain rfl := Except.ok.inj h
      rw [if_pos rfl]
      exact ⟨rfl, SameRooms.next (.clearParticipants room _), rfl⟩

theorem mem_cachedKeyframesForRoom {packets : List MediaPacket} :
    packets ∈ m.cachedKeyframesForRoom room ↔ ∃ id streamId e,
      m.keyframeCache.lookup (room, id, streamId) = some e ∧
        packets = e.packets.map (withOutboundVideoStreamId · id) := by
  rw [cachedKeyframesForRoom, List.mem_map]
  constructor
  · rintro ⟨⟨⟨room', id, streamId⟩, e⟩, he, rfl⟩
    obtain ⟨hmem, hroom⟩ := List.mem_filter.mp he
    obtain rfl : room' = room := of_decide_eq_true hroom
    exact ⟨id, streamId, e, AList.mem_lookup_iff.mpr hmem, rfl⟩
  · rintro ⟨id, streamId, e, hlookup, rfl⟩
    exact ⟨⟨(room, id, streamId), e⟩,
      List.mem_filter.mpr ⟨AList.mem_lookup_iff.mp hlookup, decide_eq_true rfl⟩, rfl⟩

/-- Nothing is recorded of a new participant, so it is on the lowest layer. -/
theorem selectedLayer_joined (h : m.Consistent) (hfresh : m.NextFresh)
    (hauth : m.isAuthorized room fingerprint = true) :
    (m.join room sender fingerprint «alias»).1.selectedLayer room m.nextParticipantId = 0 := by
  have hnew : m.receiverStates.lookup (room, m.nextParticipantId) = none := by
    refine Option.eq_none_iff_forall_ne_some.mpr fun state hstate => ?_
    obtain ⟨p, hp, hid⟩ := List.mem_map.mp (containsParticipant_iff.mp
      (h.names.receiverStates _ state hstate))
    exact hfresh room p hp hid
  rw [selectedLayer_congr (m := m.clearParticipants room ((m.roomOrNew room).replace fingerprint).2)
    (by rw [join_eq hauth]), selectedLayer_clearParticipants, selectedLayer, hnew]
  exact ite_self _

end RoomManager

namespace KeyframeFeed
variable {frames : RoomName → ParticipantId → Set Keyframe} {s : KeyframeFeed} {op : RoomOp}
  {key : StreamKey}

/-! ## Rooms with their packets -/

/-- The packets of those who are not in their room any more are left out. -/
def operate (s : KeyframeFeed) : RoomOp → KeyframeFeed
  | .updateKeyframeCache room sender pkt => s.step ⟨room, sender, pkt⟩
  | op => ⟨s.manager.step op,
      s.seen.filter fun c => (s.manager.step op).containsParticipant c.room c.sender⟩

/-- Whatever a new participant is replayed is what the video branch would send it of a packet in
the room, and the latest keyframe of each stream is among it, if it is forwarded. -/
structure ReplayAgrees (frames : RoomName → ParticipantId → Set Keyframe) (s : KeyframeFeed)
    (room : RoomName) (joined : Joined) : Prop where
  lowest : s.manager.selectedLayer room joined.participantId = 0
  live : ∀ packets ∈ joined.keyframes, ∀ out ∈ packets, ∃ c ∈ s.seen,
    c.room = room ∧ c.pkt.header.mediaType = .video ∧
      videoBranch c.pkt c.sender (s.manager.selectedLayer room joined.participantId) = some out
  whole : ∀ p ∈ s.manager.localSenders room, ∀ streamId f,
    Latest (frames room p.id) (onStream (room, p.id, streamId) s.seen) f →
      (∀ pkt ∈ f.packets, Forwarded pkt) →
        f.packets.map (withOutboundVideoStreamId · p.id) ∈ joined.keyframes

/-- If a participant joins, its replay agrees. -/
def JoinAgrees (frames : RoomName → ParticipantId → Set Keyframe) (s : KeyframeFeed) (op : RoomOp) :
    Prop :=
  ∀ room sender fingerprint «alias», op = .join room sender fingerprint «alias» →
    ∀ joined, (s.manager.join room sender fingerprint «alias»).2 = .ok joined →
      ReplayAgrees frames (s.operate op) room joined

/-- If a packet stores a keyframe, it stores a whole one that is forwarded. -/
def StoresNext (frames : RoomName → ParticipantId → Set Keyframe) (s : KeyframeFeed) (op : RoomOp) :
    Prop :=
  ∀ room sender pkt, op = .updateKeyframeCache room sender pkt → pkt.header.isRepair = false →
    EndsKeyframe pkt → StoresWhole (frames room sender)
      (onStream (room, sender, pkt.header.streamId) s.seen) pkt

theorem operate_manager (s : KeyframeFeed) (op : RoomOp) :
    (s.operate op).manager = s.manager.step op := by
  cases op <;> rfl

theorem operate_seen (hother : ∀ room sender pkt, op ≠ .updateKeyframeCache room sender pkt) :
    (s.operate op).seen =
      s.seen.filter fun c => (s.manager.step op).containsParticipant c.room c.sender := by
  cases op with
  | updateKeyframeCache room sender pkt => exact absurd rfl (hother room sender pkt)
  | _ => rfl

theorem onStream_stays {stays : RoomName → ParticipantId → Bool} (key : StreamKey)
    (seen : List KeyframeCall) :
    onStream key (seen.filter fun c => stays c.room c.sender) =
      if stays key.1 key.2.1 then onStream key seen else [] := by
  rw [onStream, List.filter_filter]
  split
  · rename_i hstays
    refine congrArg (List.map _) (List.filter_congr fun c _ => ?_)
    by_cases hkey : c.key = key
    · subst hkey
      rw [show stays c.room c.sender = true from hstays, Bool.and_true]
    · rw [decide_eq_false fun h => hkey h.1, Bool.false_and]
  · rename_i hgone
    rw [List.map_eq_nil_iff, List.filter_eq_nil_iff]
    rintro c - hboth
    obtain ⟨hkey, hstays⟩ := Bool.and_eq_true_iff.mp hboth
    obtain ⟨rfl, -⟩ := of_decide_eq_true hkey
    exact hgone hstays

/-! ## The invariant -/

/-- The tables are what the streams of the participants lead to, and these agree with what is
forwarded. -/
structure Replayable (frames : RoomName → ParticipantId → Set Keyframe) (s : KeyframeFeed) :
    Prop where
  consistent : s.manager.Consistent
  opened : s.manager.Opened
  gathered : s.Gathered
  cached : ∀ key, (s.manager.keyframeCache.lookup key).map KeyframeCacheEntry.packets =
    cached (onStream key s.seen)
  agrees : ∀ key, StreamAgrees (frames key.1 key.2.1) (onStream key s.seen)

/-- Nothing is kept of a stream whose sender is in no room. -/
theorem lookup_of_gone {m : RoomManager} (h : m.Consistent)
    (hgone : ¬ m.containsParticipant key.1 key.2.1) :
    m.keyframeCache.lookup key = none ∧ m.keyframeBuffer.lookup key = none :=
  ⟨Option.eq_none_iff_forall_ne_some.mpr fun e he => hgone (h.names.keyframeCache key e he),
    Option.eq_none_iff_forall_ne_some.mpr fun b hb => hgone (h.names.keyframeBuffer key b hb)⟩

theorem cached_step (hgathered : s.Gathered)
    (hcached : ∀ key, (s.manager.keyframeCache.lookup key).map KeyframeCacheEntry.packets =
      Sfu.cached (onStream key s.seen)) (c : KeyframeCall) (key : StreamKey) :
    ((s.step c).manager.keyframeCache.lookup key).map KeyframeCacheEntry.packets =
      Sfu.cached (onStream key (s.step c).seen) := by
  rw [show (s.step c).seen = s.seen ++ [c] from rfl, onStream_append]
  by_cases hends : c.pkt.header.isRepair = false ∧ EndsKeyframe c.pkt
  · rw [keyframeCache_step_end hends.1 hends.2.1 hends.2.2, Table.lookup_insert]
    by_cases hkey : key = c.key
    · subst hkey
      rw [if_pos rfl, if_pos ⟨rfl, hends.1⟩, cached_concat, if_pos hends.2, hgathered]
      rfl
    · rw [if_neg hkey, if_neg fun h => hkey h.1.symm, List.append_nil, hcached]
  · rw [keyframeCache_step_other hends, hcached]
    split
    · rename_i hnext
      rw [cached_concat, if_neg fun h => hends ⟨hnext.2, h⟩]
    · rw [List.append_nil]

theorem agrees_step
    (hagrees : ∀ key, StreamAgrees (frames key.1 key.2.1) (onStream key s.seen)) {c : KeyframeCall}
    (hwhole : c.pkt.header.isRepair = false → EndsKeyframe c.pkt →
      StoresWhole (frames c.room c.sender) (onStream c.key s.seen) c.pkt) (key : StreamKey) :
    StreamAgrees (frames key.1 key.2.1) (onStream key (s.step c).seen) := by
  rw [show (s.step c).seen = s.seen ++ [c] from rfl, onStream_append]
  split
  · rename_i hnext
    obtain ⟨rfl, hrepair⟩ := hnext
    exact (streamAgrees_concat (hagrees c.key)).mpr (hwhole hrepair)
  · rw [List.append_nil]
    exact hagrees key

theorem replayable_other (h : s.Replayable frames) (hmember : op.ForMember s.manager)
    (hfresh : op.isJoin = true → s.manager.NextFresh)
    (hother : ∀ room sender pkt, op ≠ .updateKeyframeCache room sender pkt) :
    (s.operate op).Replayable frames := by
  obtain ⟨hconsistent, hopened⟩ := RoomManager.consistent_step h.consistent h.opened hmember hfresh
  have hstream : ∀ key, onStream key (s.operate op).seen =
      if (s.manager.step op).containsParticipant key.1 key.2.1 then onStream key s.seen else [] := by
    intro key
    rw [operate_seen hother]
    exact onStream_stays key s.seen
  have hsame : ∀ key : StreamKey, (s.manager.step op).containsParticipant key.1 key.2.1 →
      RoomManager.SameStream s.manager (s.manager.step op) key := fun key hstays =>
    RoomManager.sameStream_step h.consistent hfresh hstays hother
  refine ⟨?_, ?_, fun key => ?_, fun key => ?_, fun key => ?_⟩
  · rwa [operate_manager]
  · rwa [operate_manager]
  · rw [operate_manager, hstream]
    split
    · rename_i hstays
      rw [(hsame key hstays).keyframeBuffer, h.gathered]
    · rename_i hgone
      exact (lookup_of_gone hconsistent hgone).2
  · rw [operate_manager, hstream]
    split
    · rename_i hstays
      rw [(hsame key hstays).keyframeCache, h.cached]
    · rename_i hgone
      rw [(lookup_of_gone hconsistent hgone).1]
      rfl
  · rw [hstream]
    split
    · exact h.agrees key
    · exact streamAgrees_nil _

theorem replayable_step (h : s.Replayable frames) (hmember : op.ForMember s.manager)
    (hfresh : op.isJoin = true → s.manager.NextFresh) (hwhole : s.StoresNext frames op) :
    (s.operate op).Replayable frames := by
  by_cases hpacket : ∃ room sender pkt, op = .updateKeyframeCache room sender pkt
  · obtain ⟨room, sender, pkt, rfl⟩ := hpacket
    obtain ⟨hconsistent, hopened⟩ := RoomManager.consistent_step h.consistent h.opened hmember hfresh
    exact ⟨hconsistent, hopened, gathered_step h.gathered _, cached_step h.gathered h.cached _,
      agrees_step h.agrees (hwhole room sender pkt rfl)⟩
  · exact replayable_other h hmember hfresh fun room sender pkt hop => hpacket ⟨room, sender, pkt, hop⟩

theorem replayable_start {m : RoomManager} (hconsistent : m.Consistent) (hopened : m.Opened)
    (hcache : m.keyframeCache = ∅) (hbuffer : m.keyframeBuffer = ∅) :
    (start m).Replayable frames where
  consistent := hconsistent
  opened := hopened
  gathered := by
    intro key
    rw [start, hbuffer]
    rfl
  cached := by
    intro key
    rw [start, hcache]
    rfl
  agrees key := streamAgrees_nil _

/-! ## Joining -/

theorem replayable_join {room : RoomName} {sender : ParticipantSender}
    {fingerprint «alias» : Option String} {joined : Joined} (h : s.Replayable frames)
    (hfresh : s.manager.NextFresh)
    (hjoined : (s.manager.join room sender fingerprint «alias»).2 = .ok joined) :
    (s.operate (.join room sender fingerprint «alias»)).ReplayAgrees frames room joined := by
  have hafter : (s.operate (.join room sender fingerprint «alias»)).Replayable frames :=
    replayable_other h trivial (fun _ => hfresh) fun _ _ _ hop => nomatch hop
  obtain ⟨hauth, hid, hkeyframes⟩ := RoomManager.join_ok hjoined
  have hlowest : (s.operate (.join room sender fingerprint «alias»)).manager.selectedLayer room
      joined.participantId = 0 := by
    rw [hid]
    exact RoomManager.selectedLayer_joined h.consistent hfresh hauth
  have hreplayed : joined.keyframes =
      (s.operate (.join room sender fingerprint «alias»)).manager.cachedKeyframesForRoom room :=
    hkeyframes
  refine ⟨hlowest, ?_, ?_⟩
  · intro packets hpackets out hout
    rw [hreplayed] at hpackets
    obtain ⟨id, streamId, e, hlookup, rfl⟩ := RoomManager.mem_cachedKeyframesForRoom.mp hpackets
    obtain ⟨pkt, hpkt, rfl⟩ := List.mem_map.mp hout
    have hcached := hafter.cached (room, id, streamId)
    rw [hlookup] at hcached
    -- the packet is forwarded, and it is one of those that came on the stream
    obtain ⟨hvideo, hroute⟩ := (hafter.agrees (room, id, streamId)).forwarded _ hcached.symm pkt hpkt
    obtain ⟨c, hc, rfl⟩ := List.mem_map.mp (cached_subset hcached.symm pkt hpkt)
    obtain ⟨hc, hstream⟩ := List.mem_filter.mp hc
    obtain ⟨hkey, -⟩ := of_decide_eq_true hstream
    obtain ⟨hroom, hrest⟩ := Prod.mk.inj hkey
    obtain ⟨hsender, -⟩ := Prod.mk.inj hrest
    refine ⟨c, hc, hroom, hvideo, ?_⟩
    rw [hlowest, videoBranch, if_pos hroute, hsender]
  · intro p hp streamId f hlatest hforwarded
    have hcached := hafter.cached (room, p.id, streamId)
    rw [(hafter.agrees (room, p.id, streamId)).latest f hlatest hforwarded] at hcached
    obtain ⟨e, hlookup, hpackets⟩ := Option.map_eq_some_iff.mp hcached
    rw [hreplayed]
    refine RoomManager.mem_cachedKeyframesForRoom.mpr ⟨p.id, streamId, e, hlookup, ?_⟩
    rw [hpackets]

/-- As long as there are ids, and every packet that stores a keyframe stores a whole one that is
forwarded, whoever joins is replayed what it would have been forwarded, and the latest keyframes
are whole. -/
theorem replay_agrees {id : ParticipantId} {m₀ : RoomManager} {ops : List RoomOp}
    (frames : RoomName → ParticipantId → Set Keyframe)
    (hnew : m₀ = RoomManager.new id ∨ m₀ = RoomManager.withAcl id)
    (hmember : EachStep RoomManager.step (fun m op => op.ForMember m) m₀ ops)
    (hjoins : ops.countP RoomOp.isJoin ≤ 2 ^ 64)
    (hwhole : EachStep operate (StoresNext frames) (start m₀) ops) :
    EachStep operate (JoinAgrees frames) (start m₀) ops := by
  obtain ⟨acl, rfl⟩ := RoomManager.exists_acl hnew
  obtain ⟨hconsistent, hopened, hdrawn⟩ := RoomManager.initially id acl
  have hids : 0 + ops.countP RoomOp.isJoin ≤ 2 ^ 64 := (Nat.zero_add _).symm ▸ hjoins
  have hfresh := RoomManager.eachStep_nextFresh hdrawn hids
  have hsteps := eachStep_and.mpr ⟨(eachStep_project manager operate_manager).mpr
    (eachStep_and.mpr ⟨hmember, hfresh⟩), hwhole⟩
  refine EachStep.imp (P := Replayable frames) ?_ ?_
    (replayable_start hconsistent hopened rfl rfl) hsteps
  · exact fun s op h hop => replayable_step h hop.1.1 hop.1.2 hop.2
  · rintro s op h hop room sender fingerprint «alias» rfl joined hjoined
    exact replayable_join h (hop.1.2 rfl) hjoined

/-- One participant sends the packets, and another one joins. -/
def sentThenJoined (packets : List MediaPacket) : List RoomOp :=
  .join [1] .quic none none ::
    (packets.map (.updateKeyframeCache [1] 1 ·) ++ [.join [1] .quic none none])

theorem whole_keyframe_replayed :
    EachStep operate (JoinAgrees fun _ _ => {twoFragments}) (start (RoomManager.new 1))
      (sentThenJoined twoFragments.packets) := by
  refine replay_agrees _ (Or.inl rfl) (by decide) (by decide) ⟨?_, ?_, ?_, ?_, trivial⟩
  · exact fun _ _ _ hop => nomatch hop
  · rintro room sender pkt hop - hend
    obtain ⟨rfl, rfl, rfl⟩ := RoomOp.updateKeyframeCache.inj hop
    exact absurd hend (by decide)
  · rintro room sender pkt hop - -
    obtain ⟨rfl, rfl, rfl⟩ := RoomOp.updateKeyframeCache.inj hop
    have hstream : ∀ front, front = twoFragments.front → StoresWhole {twoFragments} front
        twoFragments.last := by
      rintro front rfl
      refine ⟨by decide, Or.inr ?_, ?_, Or.inl ⟨twoFragments, rfl, rfl, .refl _, by decide⟩⟩
      · rintro b hb
        obtain rfl := Option.some.inj hb
        decide
      · rintro f rfl - -
        exact ⟨[], rfl, fun b hb => absurd hb.symm (Option.some_ne_none b)⟩
    exact hstream _ rfl
  · exact fun _ _ _ hop => nomatch hop

/-! ### Replays that disagree -/

/-- A keyframe in one packet on the highest of three layers. -/
def highLayer : Keyframe where
  front := []
  last := ⟨⟨2, MediaHeader.flagKeyframe ||| MediaHeader.flagFrameEnd, .video, .h264Baseline, 2, 0, 10,
    40, 0⟩, [7], none⟩
  keyframe := by decide
  frameEnd := by decide
  stream := by decide
  timestamp := by decide

/-- An audio packet comes between the two packets of a keyframe. -/
def interruptedPackets : List MediaPacket := interrupted.map KeyframeCall.pkt

/-- A keyframe is replayed of a layer that is not forwarded, and half of one that is. -/
theorem replay_disagrees :
    EachStep RoomManager.step (fun m op => op.ForMember m) (RoomManager.new 1)
        (sentThenJoined highLayer.packets) ∧
      ¬ EachStep operate (JoinAgrees fun _ _ => {highLayer}) (start (RoomManager.new 1))
        (sentThenJoined highLayer.packets) ∧
    EachStep RoomManager.step (fun m op => op.ForMember m) (RoomManager.new 1)
        (sentThenJoined interruptedPackets) ∧
      ¬ EachStep operate (JoinAgrees fun _ _ => {twoFragments}) (start (RoomManager.new 1))
        (sentThenJoined interruptedPackets) := by
  refine ⟨by decide, fun h => ?_, by decide, fun h => ?_⟩
  · have hreplay := h.2.2.1 _ _ _ _ rfl _ rfl
    obtain ⟨c, hc, -, -, hsent⟩ := hreplay.live _ (List.mem_singleton_self _) _
      (List.mem_singleton_self _)
    obtain rfl := List.mem_singleton.mp hc
    exact absurd hsent (by decide)
  · have hreplay := h.2.2.2.2.1 _ _ _ _ rfl _ rfl
    have hlatest : Latest {twoFragments} interruptedPackets twoFragments := by
      refine ⟨rfl, interruptedPackets.take 2, [], rfl, ⟨rfl, by decide, by decide⟩, ?_⟩
      exact fun mid pkt later hafter => absurd hafter.symm
        (List.append_ne_nil_of_right_ne_nil _ (List.cons_ne_nil _ _))
    have hwhole := hreplay.whole _ List.mem_cons_self 0 twoFragments hlatest (by decide)
    exact absurd (List.mem_singleton.mp hwhole) (by decide)

end KeyframeFeed
end Wzp.Relay.Sfu
