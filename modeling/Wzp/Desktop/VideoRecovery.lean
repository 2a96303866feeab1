import Wzp.Desktop.VideoContinuity
import Wzp.Desktop.VideoSender

/-!
# Video after a loss

A receiver in any state, behind what it has lost or before it has seen anything, to which
from now on the packets come in order. It shows every frame from the next keyframe on, and
the send task lets no more than its interval pass until then.
-/
namespace Wzp.Desktop
open Bytes Proto Video Runs Deadlines
open VideoSender (promptEncoder promptEncoder_answers)

/-! ## The frames that are shown -/

def VideoAction.shown : VideoAction → Option ReassembledVideoFrame
  | .decode frame => some frame
  | _ => none

/-- The relay rewrites the stream of a packet. -/
def onStream (streamId : UInt8) (pkt : MediaPacket) : MediaPacket :=
  { pkt with header := { pkt.header with streamId } }

def isVideo (pkt : MediaPacket) : Bool := pkt.header.mediaType = .video

namespace VideoReceiver

def receive (s : VideoReceiver) (arrivals : List (ℕ × MediaPacket)) : VideoReceiver :=
  run (fun s p => (s.recvMedia p.1 p.2).1) s arrivals

/-- The frames that go to the decoder. -/
def shown (s : VideoReceiver) (arrivals : List (ℕ × MediaPacket)) : List ReassembledVideoFrame :=
  (s.actions arrivals).filterMap VideoAction.shown

theorem shown_cons (s : VideoReceiver) (now : ℕ) (pkt : MediaPacket)
    (rest : List (ℕ × MediaPacket)) :
    s.shown ((now, pkt) :: rest) =
      (s.recvMedia now pkt).2.filterMap VideoAction.shown ++ (s.recvMedia now pkt).1.shown rest := by
  rw [shown, actions_cons, List.filterMap_append]
  rfl

theorem shown_append (s : VideoReceiver) (as bs : List (ℕ × MediaPacket)) :
    s.shown (as ++ bs) = s.shown as ++ (s.receive as).shown bs := by
  induction as generalizing s with
  | nil => rfl
  | cons a as ih =>
      obtain ⟨now, pkt⟩ := a
      rw [List.cons_append, shown_cons, shown_cons, ih, List.append_assoc]
      rfl

theorem recvMedia_of_not_video {s : VideoReceiver} (now : ℕ) {pkt : MediaPacket}
    (h : isVideo pkt = false) : s.recvMedia now pkt = (s, []) := by
  rw [recvMedia, if_neg (of_decide_eq_false h)]

/-- Other media make no difference. -/
theorem shown_filter (s : VideoReceiver) (arrivals : List (ℕ × MediaPacket)) :
    s.shown arrivals = s.shown (arrivals.filter fun p => isVideo p.2) := by
  induction arrivals generalizing s with
  | nil => rfl
  | cons a rest ih =>
      obtain ⟨now, pkt⟩ := a
      rw [shown_cons, List.filter_cons]
      by_cases hvideo : isVideo pkt = true
      · rw [if_pos hvideo, shown_cons, ih]
      · rw [if_neg hvideo, recvMedia_of_not_video now (Bool.eq_false_iff.mpr hvideo), ih]
        rfl

end VideoReceiver

/-! ## The numbers -/

namespace VideoContinuity
variable {c : VideoContinuity} {seq : UInt32}

/-- Packets that are numbered from `seq` on show no gap: the first is the expected one, or
they are all taken to be late until the expected one comes. -/
def Follows (c : VideoContinuity) (seq : UInt32) : Prop :=
  ∃ expected, c.expectedSeq = some expected ∧ (seq = expected ∨ 10000 ≤ seq - expected)

theorem late_succ {d : UInt32} (h : 10000 ≤ d) : d + 1 = 0 ∨ 10000 ≤ d + 1 := by
  rw [UInt32.le_iff_toNat_le] at h ⊢
  rw [← UInt32.toNat_inj, UInt32.toNat_add]
  have hlt := d.toNat_lt
  change 10000 ≤ d.toNat at h
  change (d.toNat + 1) % 2 ^ 32 = 0 ∨ 10000 ≤ (d.toNat + 1) % 2 ^ 32
  omega

theorem observePacket_follows (c : VideoContinuity) (seq : UInt32) :
    (c.observePacket seq).1.Follows (seq + 1) := by
  unfold observePacket
  cases hexpected : c.expectedSeq with
  | none => exact ⟨seq + 1, rfl, .inl rfl⟩
  | some expected =>
      dsimp only
      by_cases hlate : 10000 ≤ seq - expected
      · rw [if_pos hlate]
        refine ⟨expected, hexpected, ?_⟩
        have hsucc : seq + 1 - expected = seq - expected + 1 := by
          rw [UInt32.sub_eq_add_neg, UInt32.sub_eq_add_neg]
          ac_rfl
        rcases late_succ hlate with hzero | hnext
        · exact .inl ((UInt32.sub_eq_iff_eq_add.mp (hsucc.trans hzero)).trans (UInt32.zero_add _))
        · exact .inr (hsucc ▸ hnext)
      · rw [if_neg hlate]
        split
        · exact ⟨seq + 1, rfl, .inl rfl⟩
        · exact ⟨seq + 1, rfl, .inl rfl⟩

theorem Follows.observePacket (h : c.Follows seq) :
    (c.observePacket seq).1.waitForKeyframe = c.waitForKeyframe := by
  obtain ⟨expected, hexpected, rfl | hlate⟩ := h
  · rw [VideoContinuity.observePacket, hexpected]
    dsimp only
    rw [UInt32.sub_self]
    rfl
  · rw [VideoContinuity.observePacket, hexpected]
    dsimp only
    rw [if_pos hlate]

end VideoContinuity

/-! ## One packet -/

/-- The fragment of the frame, with its number. -/
structure Piece (f : VideoFrame) (i : ℕ) (pkt : MediaPacket) : Prop where
  fragment : f.Fragment i pkt
  video : isVideo pkt = true
  seq : pkt.header.seq = f.seq + UInt32.ofNat i

namespace VideoReceiver
variable {s : VideoReceiver} {pkt : MediaPacket} {f : VideoFrame} {is : List ℕ} {i : ℕ}

/-- What is done about a gap shows nothing, and does not touch the numbers. -/
theorem observe_shown (c : VideoContinuity) (now : ℕ) (pkt : MediaPacket) :
    (observe c now pkt).2.filterMap VideoAction.shown = [] ∧
      (observe c now pkt).1.expectedSeq = (c.observePacket pkt.header.seq).1.expectedSeq ∧
      (observe c now pkt).1.waitForKeyframe = (c.observePacket pkt.header.seq).1.waitForKeyframe := by
  unfold observe
  rcases c.observePacket pkt.header.seq with ⟨c', _ | gap⟩
  · exact ⟨rfl, rfl, rfl⟩
  dsimp only
  unfold VideoContinuity.shouldSendPli
  split
  · exact ⟨rfl, rfl, rfl⟩
  · exact ⟨rfl, rfl, rfl⟩

theorem observe_follows (hpiece : Piece f i pkt) (c : VideoContinuity) (now : ℕ) :
    (observe c now pkt).1.Follows (f.seq + UInt32.ofNat (i + 1)) := by
  obtain ⟨expected, hexpected, hnext⟩ := c.observePacket_follows pkt.header.seq
  have hsucc : pkt.header.seq + 1 = f.seq + UInt32.ofNat (i + 1) := by
    rw [hpiece.seq, UInt32.ofNat_add, ← UInt32.add_assoc]
    rfl
  exact ⟨expected, (observe_shown c now pkt).2.1.trans hexpected, hsucc ▸ hnext⟩

theorem recvMedia_more (now : ℕ) (hvideo : isVideo pkt = true) (h : s.reassembler.Holds f is)
    (hpkt : f.Fragment i pkt) (hmore : ¬ ∀ j < f.pieces.length, j ∈ i :: is) :
    (s.recvMedia now pkt).1 =
        ⟨(observe s.continuity now pkt).1, (s.reassembler.push pkt).1⟩ ∧
      (s.recvMedia now pkt).2.filterMap VideoAction.shown = [] := by
  have hpush : s.reassembler.push pkt = ((s.reassembler.push pkt).1, none) :=
    Prod.ext rfl (h.push_more hpkt hmore).2
  rw [recvMedia, if_pos (of_decide_eq_true hvideo), hpush]
  exact ⟨rfl, (observe_shown s.continuity now pkt).1⟩

/-- The last piece lets the frame be shown, unless a keyframe is waited for and it is none. -/
theorem recvMedia_last (now : ℕ) (hvideo : isVideo pkt = true) (h : s.reassembler.Holds f is)
    (hpkt : f.Fragment i pkt) (hall : ∀ j < f.pieces.length, j ∈ i :: is) (hfits : f.Fits) :
    (s.recvMedia now pkt).1.continuity.expectedSeq =
        (observe s.continuity now pkt).1.expectedSeq ∧
      (s.recvMedia now pkt).1.continuity.waitForKeyframe =
        ((observe s.continuity now pkt).1.waitForKeyframe && !f.isKeyframe) ∧
      (s.recvMedia now pkt).1.reassembler =
        (s.reassembler.push pkt).1.evictStale f.timestampMs 5000 ∧
      (s.recvMedia now pkt).2.filterMap VideoAction.shown =
        if f.isKeyframe || !(observe s.continuity now pkt).1.waitForKeyframe then [f.received]
        else [] := by
  have hpush : s.reassembler.push pkt = ((s.reassembler.push pkt).1, some f.received) :=
    Prod.ext rfl ((h.push_last hpkt hall).2 hfits)
  have hquiet := (observe_shown s.continuity now pkt).1
  rw [recvMedia, if_pos (of_decide_eq_true hvideo), hpush]
  dsimp only [complete]
  rw [List.filterMap_append, hquiet, List.nil_append, hpkt.timestamp]
  have hkey : f.received.isKeyframe = f.isKeyframe := rfl
  rw [VideoContinuity.shouldDecode, hkey]
  cases f.isKeyframe with
  | true => exact ⟨rfl, (Bool.and_false _).symm, rfl, rfl⟩
  | false =>
      cases hwait : (observe s.continuity now pkt).1.waitForKeyframe with
      | true => exact ⟨rfl, rfl, rfl, rfl⟩
      | false => exact ⟨rfl, hwait, rfl, rfl⟩

/-! ## One frame -/

/-- No piece is left over under the timestamp. -/
def Fresh (s : VideoReceiver) (ts : UInt32) : Prop := s.reassembler.pending.lookup ts = none

theorem lookup_evictStale_of_none {r : VideoReassembler} {ts : UInt32}
    (h : r.pending.lookup ts = none) (current maxAge : UInt32) :
    (r.evictStale current maxAge).pending.lookup ts = none := by
  rw [VideoReassembler.lookup_evictStale, h, ite_self]

theorem lookup_push_of_none {r : VideoReassembler} {ts : UInt32} (hpiece : Piece f i pkt)
    (hts : ts ≠ f.timestampMs) (h : r.pending.lookup ts = none) :
    (r.push pkt).1.pending.lookup ts = none := by
  rw [VideoReassembler.lookup_push_of_ne (hpiece.fragment.timestamp ▸ hts.symm)]
  exact h

/-- The last pieces of the frame come, and `wait` is whether a keyframe is waited for once
the first of them is there. -/
structure Takes (s : VideoReceiver) (f : VideoFrame) (wait : Bool)
    (arrivals : List (ℕ × MediaPacket)) : Prop where
  shows : s.shown arrivals = if f.isKeyframe || !wait then [f.received] else []
  waits : (s.receive arrivals).continuity.waitForKeyframe = (wait && !f.isKeyframe)
  follows : (s.receive arrivals).continuity.Follows (f.seq + UInt32.ofNat f.pieces.length)
  fresh : ∀ ts, ts = f.timestampMs ∨ s.Fresh ts → (s.receive arrivals).Fresh ts

variable {wait : Bool}

theorem takes_last (now : ℕ) (hpiece : Piece f i pkt) (hlast : i + 1 = f.pieces.length)
    (hfits : f.Fits) (h : s.reassembler.Holds f is) (his : ∀ j, j ∈ is ↔ j < i)
    (hwait : (s.continuity.observePacket (f.seq + UInt32.ofNat i)).1.waitForKeyframe = wait) :
    s.Takes f wait [(now, pkt)] := by
  have hall : ∀ j < f.pieces.length, j ∈ i :: is := by
    intro j hj
    rw [List.mem_cons, his]
    omega
  obtain ⟨hexpected, hwaits, hreassembler, hshown⟩ :=
    recvMedia_last now hpiece.video h hpiece.fragment hall hfits
  have hobserved := (observe_shown s.continuity now pkt).2.2
  rw [hpiece.seq, hwait] at hobserved
  rw [hobserved] at hwaits hshown
  refine ⟨?_, hwaits, ?_, fun ts hts => ?_⟩
  · rw [shown_cons, hshown]
    exact List.append_nil _
  · obtain ⟨expected, hfollows, hnext⟩ := observe_follows hpiece s.continuity now
    exact ⟨expected, hexpected.trans hfollows, hlast ▸ hnext⟩
  · change (s.recvMedia now pkt).1.Fresh ts
    rw [Fresh, hreassembler]
    apply lookup_evictStale_of_none
    by_cases hown : ts = f.timestampMs
    · rw [hown]
      exact (h.push_last hpiece.fragment hall).1
    · exact lookup_push_of_none hpiece hown (hts.resolve_left hown)

theorem Takes.cons (now : ℕ) {rest : List (ℕ × MediaPacket)} (hpiece : Piece f i pkt)
    (hnext : (s.recvMedia now pkt).1.reassembler = (s.reassembler.push pkt).1)
    (hquiet : (s.recvMedia now pkt).2.filterMap VideoAction.shown = [])
    (h : (s.recvMedia now pkt).1.Takes f wait rest) : s.Takes f wait ((now, pkt) :: rest) where
  shows := by
    rw [shown_cons, hquiet]
    exact h.shows
  waits := h.waits
  follows := h.follows
  fresh := by
    intro ts hts
    refine h.fresh ts ?_
    by_cases hown : ts = f.timestampMs
    · exact .inl hown
    · refine .inr ?_
      rw [Fresh, hnext]
      exact lookup_push_of_none hpiece hown (hts.resolve_left hown)

/-- By induction on the pieces from `i` on: they show no gap, so that what is waited for
does not change until the last. -/
theorem takes_pieces {m : ℕ} {arrivals : List (ℕ × MediaPacket)}
    (hpieces : List.Forall₂ (fun p j => Piece f j p.2) arrivals (List.range' i (m + 1)))
    (hlength : i + m + 1 = f.pieces.length) (hfits : f.Fits)
    (h : s.reassembler.Holds f is) (his : ∀ j, j ∈ is ↔ j < i)
    (hwait : (s.continuity.observePacket (f.seq + UInt32.ofNat i)).1.waitForKeyframe = wait) :
    s.Takes f wait arrivals := by
  induction m generalizing s i is arrivals with
  | zero =>
      rw [List.range'_succ, List.range'_zero] at hpieces
      obtain ⟨⟨now, pkt⟩, rest, hpiece, hrest, rfl⟩ := List.forall₂_cons_right_iff.mp hpieces
      obtain rfl := List.forall₂_nil_right_iff.mp hrest
      exact takes_last now hpiece hlength hfits h his hwait
  | succ m ih =>
      rw [List.range'_succ] at hpieces
      obtain ⟨⟨now, pkt⟩, rest, hpiece, hrest, rfl⟩ := List.forall₂_cons_right_iff.mp hpieces
      have hmore : ¬ ∀ j < f.pieces.length, j ∈ i :: is := by
        intro hall
        have hnext := hall (i + 1) (by omega)
        rw [List.mem_cons, his] at hnext
        omega
      obtain ⟨hnext, hquiet⟩ := recvMedia_more now hpiece.video h hpiece.fragment hmore
      have hobserved := (observe_shown s.continuity now pkt).2.2
      rw [hpiece.seq, hwait] at hobserved
      have hfollows := observe_follows hpiece s.continuity now
      refine Takes.cons now hpiece (congrArg VideoReceiver.reassembler hnext) hquiet ?_
      rw [hnext]
      apply ih hrest (by omega) (h.push_more hpiece.fragment hmore).1
      · intro j
        rw [List.mem_cons, his]
        omega
      · exact hfollows.observePacket.trans hobserved

end VideoReceiver

/-! ## The packets of a frame -/

namespace Piece
variable {f : VideoFrame} {i : ℕ} {pkt : MediaPacket}

theorem of_packets (h : f.packets[i]? = some pkt) (streamId : UInt8) :
    Piece f i (onStream streamId pkt) := by
  have hfragment := VideoFrame.fragment_of_packets h
  rw [VideoFrame.packets_eq (VideoFrame.data_ne_nil h), List.getElem?_map,
    List.getElem?_zipIdx] at h
  obtain ⟨⟨chunk, j⟩, hmap, rfl⟩ := Option.map_eq_some_iff.mp h
  obtain ⟨chunk', -, heq⟩ := Option.map_eq_some_iff.mp hmap
  obtain ⟨rfl, rfl⟩ := Prod.mk.inj heq
  refine ⟨hfragment.onStream streamId, rfl, ?_⟩
  rw [Nat.zero_add]
  rfl

end Piece

theorem forall₂_range' {α : Type*} {R : α → ℕ → Prop} {as : List α} (i : ℕ)
    (h : ∀ k a, as[k]? = some a → R a (i + k)) : List.Forall₂ R as (List.range' i as.length) := by
  induction as generalizing i with
  | nil => exact .nil
  | cons a as ih =>
      rw [List.length_cons, List.range'_succ]
      refine .cons (h 0 a rfl) (ih (i + 1) fun k b hb => ?_)
      have hnext := h (k + 1) b hb
      rwa [show i + 1 + k = i + (k + 1) by omega]

namespace VideoReceiver
variable {s : VideoReceiver} {f : VideoFrame}

/-- A whole frame in order. -/
theorem takes_frame {arrivals : List (ℕ × MediaPacket)} {streamId : UInt8} (hdata : f.data ≠ [])
    (hpackets : arrivals.map Prod.snd = f.packets.map (onStream streamId)) (hfits : f.Fits)
    (hfresh : s.Fresh f.timestampMs) :
    s.Takes f (s.continuity.observePacket f.seq).1.waitForKeyframe arrivals := by
  obtain ⟨m, hm⟩ := Nat.exists_eq_succ_of_ne_zero
    (Nat.pos_iff_ne_zero.mp (VideoFrame.pieces_pos hdata))
  have hcount : arrivals.length = m + 1 := by
    have hlength := congrArg List.length hpackets
    rw [List.length_map, List.length_map, VideoFrame.length_packets hdata] at hlength
    exact hlength.trans hm
  have hpieces : List.Forall₂ (fun p j => Piece f j p.2) arrivals (List.range' 0 (m + 1)) := by
    rw [← hcount]
    refine forall₂_range' 0 fun k p hp => ?_
    have hget := congrArg (·[k]?) hpackets
    rw [List.getElem?_map, hp, List.getElem?_map] at hget
    obtain ⟨pkt, hpkt, heq⟩ := Option.map_eq_some_iff.mp hget.symm
    rw [Nat.zero_add, ← heq]
    exact Piece.of_packets hpkt streamId
  have hnone : ∀ j, j ∈ ([] : List ℕ) ↔ j < 0 := fun j =>
    iff_of_false List.not_mem_nil (Nat.not_lt_zero j)
  have hzero : f.seq + UInt32.ofNat 0 = f.seq := UInt32.add_zero f.seq
  exact takes_pieces hpieces (by omega) hfits (VideoReassembler.holds_of_none hfresh) hnone
    (by rw [hzero])

/-! ## The frames of a sender -/

/-- Whole frames in order, from any one on: once none is waited for they are all shown, and
else those from the next keyframe on. -/
theorem receive_frames {frames : List VideoFrame} {seq : UInt32} {streamId : UInt8}
    {arrivals : List (ℕ × MediaPacket)} (hlinked : VideoFrame.Linked seq frames)
    (hpackets : arrivals.map Prod.snd =
      (frames.flatMap VideoFrame.packets).map (onStream streamId))
    (hfits : ∀ f ∈ frames, f.Fits) (hfresh : ∀ f ∈ frames, s.Fresh f.timestampMs) :
    ∃ wait, (s.continuity.Follows seq → wait = s.continuity.waitForKeyframe) ∧
      s.shown arrivals =
        (if wait then frames.dropWhile fun f => !f.isKeyframe else frames).map
          VideoFrame.received := by
  induction frames generalizing s seq arrivals with
  | nil =>
      obtain rfl := List.map_eq_nil_iff.mp hpackets
      refine ⟨s.continuity.waitForKeyframe, fun _ => rfl, ?_⟩
      cases s.continuity.waitForKeyframe with
      | true => rfl
      | false => rfl
  | cons f frames ih =>
      obtain ⟨hdata, rfl, hrest⟩ := hlinked
      rw [List.flatMap_cons, List.map_append] at hpackets
      obtain ⟨own, others, rfl, hown, hothers⟩ := List.map_eq_append_iff.mp hpackets
      have htakes := takes_frame hdata hown (hfits f List.mem_cons_self)
        (hfresh f List.mem_cons_self)
      obtain ⟨wait, hwait, hshown⟩ := ih hrest hothers
        (fun g hg => hfits g (List.mem_cons_of_mem f hg))
        (fun g hg => htakes.fresh _ (.inr (hfresh g (List.mem_cons_of_mem f hg))))
      refine ⟨_, fun hfollows => hfollows.observePacket, ?_⟩
      rw [shown_append, htakes.shows, hshown, hwait (VideoFrame.nextSeq_eq hdata ▸ htakes.follows),
        htakes.waits]
      cases hkey : f.isKeyframe with
      | true => cases (s.continuity.observePacket f.seq).1.waitForKeyframe <;> simp [hkey]
      | false => cases (s.continuity.observePacket f.seq).1.waitForKeyframe <;> simp [hkey]

end VideoReceiver

/-! ## A sender and a receiver -/

/-- The video that a sender goes on with after some events, and a receiver in any state to
which all of it comes in order on some stream, among other media. -/
structure VideoLink {E : Type*} (enc : VideoEncoder E) where
  codec : CodecId
  encoder : E
  before : List VideoSenderEvent
  events : List VideoSenderEvent
  receiver : VideoReceiver
  streamId : UInt8
  arrivals : List (ℕ × MediaPacket)

namespace VideoLink
variable {E : Type*} {enc : VideoEncoder E}

def sender (link : VideoLink enc) : VideoSender E :=
  reached (VideoSender.step enc) (VideoSender.start enc link.codec link.encoder) link.before

def sent (link : VideoLink enc) : List SentVideo :=
  outputs (VideoSender.step enc) link.sender link.events

/-- Nothing is lost on the way, each frame fits into its packets, and the receiver has no
pieces left over under the timestamp of one. -/
structure Whole (link : VideoLink enc) : Prop where
  accepted : ∀ event ∈ link.events, event.Accepted
  arrive : (link.arrivals.filter fun p => isVideo p.2).map Prod.snd =
    (link.sent.flatMap SentVideo.packets).map (onStream link.streamId)
  fits : ∀ sent ∈ link.sent, sent.frame.Fits
  fresh : ∀ sent ∈ link.sent, link.receiver.Fresh sent.frame.timestampMs

/-- All is shown from the first keyframe on at the latest. -/
theorem shown_from_keyframe {link : VideoLink enc} (h : link.Whole) :
    ∃ missed seen, link.sent = missed ++ seen ∧
      link.receiver.shown link.arrivals = seen.map (·.frame.received) ∧
      (missed = [] ∨ missed = (link.sent.takeWhile fun sent => !sent.isKeyframe) ∧
        seen = link.sent.dropWhile fun sent => !sent.isKeyframe) := by
  have hlinked := VideoSender.outputs_linked enc link.sender link.events
  have hpackets := h.arrive.trans (congrArg (List.map (onStream link.streamId))
    (VideoSender.outputs_packets h.accepted enc link.sender))
  obtain ⟨wait, -, hshown⟩ := VideoReceiver.receive_frames (s := link.receiver) hlinked hpackets
    (List.forall_mem_map.mpr h.fits) (List.forall_mem_map.mpr h.fresh)
  rw [← VideoReceiver.shown_filter] at hshown
  cases wait with
  | false =>
      refine ⟨[], link.sent, rfl, ?_, .inl rfl⟩
      rw [hshown, if_neg Bool.false_ne_true, List.map_map]
      rfl
  | true =>
      refine ⟨link.sent.takeWhile fun sent => !sent.isKeyframe,
        link.sent.dropWhile fun sent => !sent.isKeyframe, List.takeWhile_append_dropWhile.symm,
        ?_, .inr ⟨rfl, rfl⟩⟩
      rw [hshown, if_pos rfl, List.dropWhile_map, List.map_map]
      rfl

/-- Whatever the receiver has missed, it shows the video again: every frame that is sent after
the first ones, which are none or all those before a keyframe. These are at most as many as
remain of the interval, and what the encoder takes to answer; only the latter if the picture
loss has just been indicated. -/
theorem video_recovers {latency : ℕ} (hanswers : enc.AnswersRequests latency)
    (link : VideoLink enc) (h : link.Whole) :
    ∃ missed seen, link.sent = missed ++ seen ∧
      link.receiver.shown link.arrivals = seen.map (·.frame.received) ∧
      (∀ sent ∈ missed, sent.isKeyframe = false) ∧
      (missed ≠ [] → ∀ sent ∈ seen.head?, sent.isKeyframe = true) ∧
      missed.length ≤ videoKeyframeIntervalFrames - link.sender.framesSinceKeyframe + latency ∧
      (link.before.getLast? = some .pictureLossIndication → missed.length ≤ latency) := by
  have hcounted := VideoSender.reached_counted enc link.codec link.encoder link.before
  obtain ⟨missed, seen, hsplit, hshown, hmissed⟩ := shown_from_keyframe h
  have hbound : ∀ n, Within (VideoSender.step enc) SentVideo.isKeyframe n link.sender →
      missed.length ≤ n := by
    intro n hwithin
    rcases hmissed with rfl | ⟨rfl, -⟩
    · exact Nat.zero_le n
    · exact hwithin.length_takeWhile_le link.events
  refine ⟨missed, seen, hsplit, hshown, fun sent hsent => ?_, fun hsome sent hsent => ?_,
    hbound _ (VideoSender.within_interval hanswers hcounted), fun hlast => hbound _ ?_⟩
  · rcases hmissed with rfl | ⟨rfl, -⟩
    · exact absurd hsent List.not_mem_nil
    · have hskipped := List.mem_takeWhile_imp hsent
      exact Bool.not_eq_true' _ ▸ hskipped
  · obtain ⟨-, rfl⟩ := hmissed.resolve_left hsome
    have hhead := List.head?_dropWhile_not (fun sent => !SentVideo.isKeyframe sent) link.sent
    rw [hsent] at hhead
    exact Bool.not_eq_eq_eq_not.mp hhead
  · obtain ⟨earlier, hbefore⟩ := List.getLast?_eq_some_iff.mp hlast
    rw [sender, hbefore, reached_append_singleton]
    exact VideoSender.within_indicated hanswers
      (VideoSender.reached_counted enc link.codec link.encoder earlier)

def grey : VideoSenderEvent := .camera ⟨2, 2, [16, 16, 16, 16, 128, 128], 0⟩ 40 none

/-- A frame in one packet. -/
def arrival (now : ℕ) (isKeyframe : Bool) (seq : UInt32) : ℕ × MediaPacket :=
  (now, onStream 3 (fragmentPacket .h264Baseline isKeyframe seq 40 1 0
    (framed [0, 0, 0, 1, if isKeyframe then 0x65 else 0x41] 2 2)))

/-- The first frame was lost, the second has shown it and was dropped, and now that the
loss has been indicated two more come. -/
def afterLoss : VideoLink promptEncoder where
  codec := .h264Baseline
  encoder := false
  before := [grey, grey, .pictureLossIndication]
  events := [grey, grey]
  receiver := ⟨⟨some 2, true, some 60, 1, 1⟩, VideoReassembler.new⟩
  streamId := 3
  arrivals := [arrival 120 true 2, arrival 160 false 3]

theorem afterLoss_whole : afterLoss.Whole where
  accepted := by
    intro event hevent
    obtain rfl | rfl : event = grey ∨ event = grey := by simpa [afterLoss] using hevent
    · rfl
    · rfl
  arrive := by decide +kernel
  fits := by
    change ∀ sent ∈ afterLoss.sent, sent.frame.data.length ≤ 255 * 1168 - 8
    decide +kernel
  fresh := fun _ _ => rfl

/-- The next frame is a keyframe, and no more is missed. -/
theorem video_recovers_afterLoss : afterLoss.sent.length = 2 ∧
    afterLoss.receiver.shown afterLoss.arrivals = afterLoss.sent.map (·.frame.received) := by
  refine ⟨by decide +kernel, ?_⟩
  obtain ⟨missed, seen, hsplit, hshown, -, -, -, hindicated⟩ :=
    video_recovers promptEncoder_answers afterLoss afterLoss_whole
  obtain rfl := List.length_eq_zero_iff.mp (Nat.le_zero.mp (hindicated rfl))
  rw [hsplit]
  exact hshown

end VideoLink
end Wzp.Desktop
