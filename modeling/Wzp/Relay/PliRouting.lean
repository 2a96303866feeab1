import Mathlib.Data.List.Nodup
import Wzp.Relay.RoomConsistency

/-!
# Picture loss indications

A receiver asks for a keyframe with the stream id it sees, which the relay made
from the sender's participant id. The relay looks up who owns the stream, and
then tells everybody else in the room.
-/
namespace Wzp.Relay.Sfu
open Bytes Proto Runs

/-- Forwarded video of participants whose ids are congruent has one stream id. -/
theorem outboundVideoStreamId_eq_iff {a b : ParticipantId} :
    outboundVideoStreamId a = outboundVideoStreamId b ↔
      (a.toNat - 1) % 250 = (b.toNat - 1) % 250 := by
  have hvalue : ∀ id : ParticipantId,
      (outboundVideoStreamId id).toNat = (id.toNat - 1) % 250 + 1 := by
    intro id
    have hlt : (id.toNat - 1) % 250 + 1 < 2 ^ 8 := by omega
    rw [outboundVideoStreamId, UInt8.toNat_ofNat_of_lt' hlt]
  rw [← UInt8.toNat_inj, hvalue, hvalue]
  exact Nat.succ_inj

/-- The rooms, and who has sent video since joining. -/
structure VideoRooms where
  manager : RoomManager
  sentVideo : List (RoomName × ParticipantId)

namespace VideoRooms

def start (m : RoomManager) : VideoRooms := ⟨m, []⟩

def step (s : VideoRooms) (op : RoomOp) : VideoRooms :=
  { manager := s.manager.step op
    sentVideo := match op with
      | .registerStream room id pkt =>
          if pkt.header.mediaType = .video then (room, id) :: s.sentVideo else s.sentVideo
      | .join room _ _ _ | .joinWs room _ =>
          s.sentVideo.filter (· ≠ (room, s.manager.nextParticipantId))
      | _ => s.sentVideo }

/-- The participants of the room that send video. -/
def videoSenders (s : VideoRooms) (room : RoomName) : List Participant :=
  (s.manager.localSenders room).filter fun p => (room, p.id) ∈ s.sentVideo

/-- The senders whose forwarded video carries the stream id. -/
def sendersOf (s : VideoRooms) (room : RoomName) (streamId : UInt8) : List Participant :=
  (s.videoSenders room).filter fun p => outboundVideoStreamId p.id = streamId

def suppresses (s : VideoRooms) (room : RoomName) (streamId : UInt8) (now : ℕ) : Bool :=
  (s.manager.streamOwner.lookup (room, streamId)).any (s.manager.pliSuppressed room streamId now)

/-- Senders have stream ids of their own, and an indication that is not
suppressed goes to the sender of its stream and to nobody else. -/
def RoutesPli (s : VideoRooms) : RoomOp → Prop
  | .shouldForwardPli room receiver streamId now => s.suppresses room streamId now = false →
      ((s.videoSenders room).map fun p => outboundVideoStreamId p.id).Nodup ∧
        (s.manager.forwardPli room receiver streamId now).2 = s.sendersOf room streamId
  | _ => True

def quicOthers (s : VideoRooms) (room : RoomName) (receiver : ParticipantId) : List Participant :=
  (s.manager.othersWithId room receiver).filter (·.sender = .quic)

/-- No two senders' ids are congruent, the sender of the stream is the only
other participant on QUIC and somebody owns the stream; or nobody sends on the
stream, and nobody owns it or there is no other participant on QUIC. -/
def Unambiguous (s : VideoRooms) : RoomOp → Prop
  | .shouldForwardPli room receiver streamId now => s.suppresses room streamId now = false →
      ((s.videoSenders room).map fun p => (p.id.toNat - 1) % 250).Nodup ∧
        (∀ p ∈ s.videoSenders room, outboundVideoStreamId p.id = streamId →
          s.quicOthers room receiver = [p] ∧ (room, streamId) ∈ s.manager.streamOwner) ∧
        ((∀ p ∈ s.videoSenders room, outboundVideoStreamId p.id ≠ streamId) →
          s.quicOthers room receiver = [] ∨ (room, streamId) ∉ s.manager.streamOwner)
  | _ => True

variable {s : VideoRooms} {room : RoomName} {receiver : ParticipantId} {streamId : UInt8} {now : ℕ}

/-- Whoever owns the stream, all others are told. -/
theorem forwardPli_eq (h : s.suppresses room streamId now = false) :
    (s.manager.forwardPli room receiver streamId now).2 =
      if (room, streamId) ∈ s.manager.streamOwner then s.quicOthers room receiver else [] := by
  rw [RoomManager.forwardPli, RoomManager.shouldForwardPli]
  rw [suppresses] at h
  cases howner : s.manager.streamOwner.lookup (room, streamId) with
  | none =>
      have habsent : (room, streamId) ∉ s.manager.streamOwner :=
        AList.lookup_eq_none.mp howner
      rw [if_neg habsent]
  | some sender =>
      rw [howner, Option.any_some] at h
      have hpresent : (room, streamId) ∈ s.manager.streamOwner :=
        AList.lookup_isSome.mp (howner ▸ rfl)
      rw [if_pos hpresent]
      dsimp only
      rw [if_neg (Bool.eq_false_iff.mp h)]
      rfl

theorem nodup_outbound_iff (senders : List Participant) :
    (senders.map fun p => outboundVideoStreamId p.id).Nodup ↔
      (senders.map fun p => (p.id.toNat - 1) % 250).Nodup := by
  rw [List.Nodup, List.pairwise_map, List.Nodup, List.pairwise_map]
  exact List.Pairwise.iff fun _ _ => not_congr outboundVideoStreamId_eq_iff

/-- One of the senders has the stream, or none has. -/
theorem sendersOf_cases (s : VideoRooms) (room : RoomName) (streamId : UInt8)
    (h : ((s.videoSenders room).map fun p => outboundVideoStreamId p.id).Nodup) :
    (∃ p ∈ s.videoSenders room, outboundVideoStreamId p.id = streamId ∧
      s.sendersOf room streamId = [p]) ∨
    (∀ p ∈ s.videoSenders room, outboundVideoStreamId p.id ≠ streamId) ∧
      s.sendersOf room streamId = [] := by
  cases hsenders : s.sendersOf room streamId with
  | nil =>
      refine Or.inr ⟨fun p hp hid => ?_, rfl⟩
      have hmem : p ∈ s.sendersOf room streamId := List.mem_filter.mpr ⟨hp, decide_eq_true hid⟩
      rw [hsenders] at hmem
      exact List.not_mem_nil hmem
  | cons p rest =>
      have hall : ∀ q ∈ p :: rest, q ∈ s.videoSenders room ∧ outboundVideoStreamId q.id = streamId := by
        intro q hq
        rw [← hsenders] at hq
        obtain ⟨hmem, hid⟩ := List.mem_filter.mp hq
        exact ⟨hmem, of_decide_eq_true hid⟩
      have hdistinct : ((p :: rest).map fun q => outboundVideoStreamId q.id).Nodup := by
        rw [← hsenders]
        exact h.sublist (List.filter_sublist.map _)
      have hp := hall p List.mem_cons_self
      refine Or.inl ⟨p, hp.1, hp.2, congrArg (List.cons p) ?_⟩
      refine List.eq_nil_iff_forall_not_mem.mpr fun q hq => ?_
      have hq' := hall q (List.mem_cons_of_mem p hq)
      exact (List.nodup_cons.mp hdistinct).1
        (List.mem_map.mpr ⟨q, hq, hq'.2.trans hp.2.symm⟩)

theorem routesPli_iff (s : VideoRooms) (op : RoomOp) : s.RoutesPli op ↔ s.Unambiguous op := by
  cases op with
  | shouldForwardPli room receiver streamId now =>
      refine imp_congr_right fun hsuppresses => ?_
      rw [forwardPli_eq hsuppresses, ← nodup_outbound_iff]
      refine and_congr_right fun hnodup => ?_
      rcases sendersOf_cases s room streamId hnodup with ⟨p, hp, hid, hone⟩ | ⟨hnone, hnil⟩
      · rw [hone]
        constructor
        · intro heq
          split at heq
          · rename_i howned
            refine ⟨fun q hq hqid => ?_, fun hnot => absurd hid (hnot p hp)⟩
            have hmem : q ∈ s.sendersOf room streamId :=
              List.mem_filter.mpr ⟨hq, decide_eq_true hqid⟩
            rw [hone] at hmem
            exact ⟨heq.trans (congrArg (fun r => [r]) (List.mem_singleton.mp hmem).symm), howned⟩
          · exact nomatch heq
        · rintro ⟨hsender, -⟩
          obtain ⟨hothers, howned⟩ := hsender p hp hid
          rw [if_pos howned, hothers]
      · rw [hnil]
        constructor
        · intro heq
          refine ⟨fun p hp hid => absurd hid (hnone p hp), fun _ => ?_⟩
          split at heq
          · exact Or.inl heq
          · rename_i howned
            exact Or.inr howned
        · rintro ⟨-, hothers⟩
          rcases hothers hnone with hnobody | hunowned
          · rw [hnobody, ite_self]
          · rw [if_neg hunowned]
  | _ => exact Iff.rfl

/-- Indications reach the right sender exactly as long as each finds the room
unambiguous. -/
theorem pli_routing_iff (m₀ : RoomManager) (ops : List RoomOp) :
    EachStep step RoutesPli (start m₀) ops ↔ EachStep step Unambiguous (start m₀) ops :=
  eachStep_congr routesPli_iff

/-- With two others on QUIC an indication for a stream that somebody owns is
always misrouted. -/
theorem not_routesPli_of_two (hsuppresses : s.suppresses room streamId now = false)
    (howned : (room, streamId) ∈ s.manager.streamOwner)
    (htwo : 2 ≤ (s.quicOthers room receiver).length) :
    ¬ s.RoutesPli (.shouldForwardPli room receiver streamId now) := by
  intro h
  obtain ⟨hnodup, heq⟩ := h hsuppresses
  rw [forwardPli_eq hsuppresses, if_pos howned] at heq
  rcases sendersOf_cases s room streamId hnodup with ⟨p, -, -, hone⟩ | ⟨-, hnil⟩
  · rw [heq, hone, List.length_singleton] at htwo
    exact absurd htwo (by decide)
  · rw [heq, hnil, List.length_nil] at htwo
    exact absurd htwo (by decide)

/-! ### Three participants -/

/-- The first of three sends video, and the third asks it for a keyframe. -/
def threeParticipants : List RoomOp :=
  [.join [1] .quic none none, .join [1] .quic none none, .join [1] .quic none none,
    .registerStream [1] 1 ⟨⟨2, 0, .video, .h264Baseline, 0, 0, 7, 40, 0⟩, [0], none⟩,
    .shouldForwardPli [1] 3 1 0]

theorem bystander_gets_pli : ¬ EachStep step RoutesPli (start (.new 1)) threeParticipants := by
  rintro ⟨-, -, -, -, hpli, -⟩
  exact not_routesPli_of_two (by decide) (by decide) (by decide) hpli

end VideoRooms
end Wzp.Relay.Sfu
