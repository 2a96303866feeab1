import Wzp.Lib.Runs
import Wzp.Relay.Rooms
import Wzp.Video.Reassembly

/-!
# The video of a room

A receiver puts the frames of all senders of a room together in one reassembler. It
is recorded whose fragments an entry has, and with which frame's packet each frame
was returned.
-/
namespace Wzp.Video
open Bytes Proto Relay Runs

/-- What comes to a receiver: a packet of a frame as the relay sends it, as often
and in whatever order, or the time to drop old entries. -/
inductive RoomEvent (ι : Type*) where
  | packet (frame : ι) (fragment : ℕ) (sender : ParticipantId)
  | evictStale (currentTimestampMs maxAgeMs : UInt32)

/-- A reassembler, whose fragments it has, and what it has returned. -/
structure RoomView (ι : Type*) where
  reassembler : VideoReassembler
  pending : List (ι × ℕ)
  returned : List (ι × ReassembledVideoFrame)

namespace RoomView
variable {ι : Type*} (frames : ι → VideoFrame)

def start : RoomView ι := ⟨.new, [], []⟩

def receive (s : RoomView ι) (frame : ι) (fragment : ℕ) (pkt : MediaPacket) : RoomView ι where
  reassembler := (s.reassembler.push pkt).1
  pending :=
    if (s.reassembler.entryWith pkt).ready then
      s.pending.filter fun p => (frames p.1).timestampMs ≠ (frames frame).timestampMs
    else (frame, fragment) :: s.pending
  returned := ((s.reassembler.push pkt).2.map (frame, ·)).toList ++ s.returned

def step (s : RoomView ι) : RoomEvent ι → RoomView ι
  | .packet frame fragment sender =>
      match (frames frame).packets[fragment]? with
      | some pkt => s.receive frames frame fragment (withOutboundVideoStreamId pkt sender)
      | none => s
  | .evictStale currentTimestampMs maxAgeMs =>
      { s with
        reassembler := s.reassembler.evictStale currentTimestampMs maxAgeMs
        pending := s.pending.filter fun p =>
          currentTimestampMs - (frames p.1).timestampMs ≤ maxAgeMs }

/-- Every frame that is returned is the whole of the frame whose packet came, and no
frame is returned again. -/
structure Sound (s : RoomView ι) : Prop where
  whole : ∀ o ∈ s.returned, o.2 = (frames o.1).received
  once : (s.returned.map Prod.fst).Nodup

/-- What is there under the timestamp of the frame is of this frame. -/
def Alone (s : RoomView ι) (frame : ι) : Prop :=
  ∀ p ∈ s.pending, (frames p.1).timestampMs = (frames frame).timestampMs → p.1 = frame

/-- All other fragments of the frame are there. -/
def Completes (s : RoomView ι) (frame : ι) (fragment : ℕ) : Prop :=
  ∀ i < (frames frame).packets.length, i ≠ fragment → (frame, i) ∈ s.pending

/-- No other frame has left fragments under the timestamp, and the frame that is
complete with the packet has not been cut short, nor returned before. -/
def Proper (s : RoomView ι) : RoomEvent ι → Prop
  | .packet frame fragment _ => s.Alone frames frame ∧
      (s.Completes frames frame fragment →
        (frames frame).Fits ∧ ∀ o ∈ s.returned, o.1 ≠ frame)
  | .evictStale _ _ => True

/-! ## The fragments recorded are those held -/

/-- The fragments under a timestamp. -/
def heldAt (s : RoomView ι) (ts : UInt32) : List ℕ :=
  (s.pending.filter fun p => (frames p.1).timestampMs = ts).map Prod.snd

/-- As long as a frame is alone, the fragments are held. -/
def Tracks (s : RoomView ι) : Prop :=
  ∀ frame, s.Alone frames frame →
    s.reassembler.Holds (frames frame) (s.heldAt frames (frames frame).timestampMs)

variable {frames} {s : RoomView ι} {frame : ι} {fragment : ℕ} {pkt : MediaPacket} {ts : UInt32}

theorem tracks_start : (start : RoomView ι).Tracks frames :=
  fun frame _ => VideoReassembler.holds_of_none (AList.lookup_empty (frames frame).timestampMs)

/-- The entry depends only on its timestamp. -/
theorem holds_of_lookup_eq {r r' : VideoReassembler} {f : VideoFrame} {is : List ℕ}
    (h : r.Holds f is)
    (hlookup : r'.pending.lookup f.timestampMs = r.pending.lookup f.timestampMs) :
    r'.Holds f is := by
  rw [VideoReassembler.Holds, hlookup]
  exact h

theorem mem_heldAt (h : s.Alone frames frame) {i : ℕ} :
    i ∈ s.heldAt frames (frames frame).timestampMs ↔ (frame, i) ∈ s.pending := by
  rw [heldAt, List.mem_map]
  constructor
  · rintro ⟨p, hp, rfl⟩
    obtain ⟨hmem, hts⟩ := List.mem_filter.mp hp
    obtain rfl := h p hmem (of_decide_eq_true hts)
    exact hmem
  · intro hmem
    exact ⟨(frame, i), List.mem_filter.mpr ⟨hmem, decide_eq_true rfl⟩, rfl⟩

/-- Dropping what has other timestamps. -/
theorem heldAt_filter (keep : UInt32 → Prop) [DecidablePred keep] (s : RoomView ι) (h : keep ts) :
    ((s.pending.filter fun p => keep (frames p.1).timestampMs).filter fun p =>
      (frames p.1).timestampMs = ts).map Prod.snd = s.heldAt frames ts := by
  rw [heldAt, List.filter_filter]
  congr 1
  refine List.filter_congr fun p _ => ?_
  by_cases hp : (frames p.1).timestampMs = ts
  · subst hp
    rw [decide_eq_true rfl, decide_eq_true h]
    rfl
  · rw [decide_eq_false hp]
    rfl

theorem alone_of_filter (keep : UInt32 → Prop) [DecidablePred keep] {pending : List (ι × ℕ)}
    (hkeep : keep (frames frame).timestampMs)
    (h : ∀ p ∈ pending.filter fun p => keep (frames p.1).timestampMs,
      (frames p.1).timestampMs = (frames frame).timestampMs → p.1 = frame) :
    ∀ p ∈ pending, (frames p.1).timestampMs = (frames frame).timestampMs → p.1 = frame := by
  intro p hp hts
  exact h p (List.mem_filter.mpr ⟨hp, decide_eq_true (hts ▸ hkeep)⟩) hts

theorem tracks_evictStale (h : s.Tracks frames) (currentTimestampMs maxAgeMs : UInt32) :
    (s.step frames (.evictStale currentTimestampMs maxAgeMs)).Tracks frames := by
  intro frame halone
  have hlookup := Table.lookup_retain_keys s.reassembler.pending
    (fun ts => currentTimestampMs - ts ≤ maxAgeMs) (frames frame).timestampMs
  by_cases hkeep : currentTimestampMs - (frames frame).timestampMs ≤ maxAgeMs
  · rw [if_pos (decide_eq_true hkeep)] at hlookup
    have hheld : (s.step frames (.evictStale currentTimestampMs maxAgeMs)).heldAt frames
        (frames frame).timestampMs = s.heldAt frames (frames frame).timestampMs :=
      heldAt_filter (currentTimestampMs - · ≤ maxAgeMs) s hkeep
    rw [hheld]
    exact holds_of_lookup_eq
      (h frame (alone_of_filter (currentTimestampMs - · ≤ maxAgeMs) hkeep halone)) hlookup
  · rw [if_neg (fun heq => hkeep (of_decide_eq_true heq))] at hlookup
    have hnone : (s.step frames (.evictStale currentTimestampMs maxAgeMs)).heldAt frames
        (frames frame).timestampMs = [] := by
      rw [heldAt, List.map_eq_nil_iff, List.filter_eq_nil_iff]
      intro p hp hts
      have hpkeep := of_decide_eq_true (List.mem_filter.mp hp).2
      rw [of_decide_eq_true hts] at hpkeep
      exact hkeep hpkeep
    rw [hnone]
    exact VideoReassembler.holds_of_none hlookup

/-- The fragment is the last one exactly if the others are held. -/
theorem completes_iff (halone : s.Alone frames frame) (hdata : (frames frame).data ≠ []) :
    (∀ i < (frames frame).pieces.length,
      i ∈ fragment :: s.heldAt frames (frames frame).timestampMs) ↔
        s.Completes frames frame fragment := by
  rw [Completes, VideoFrame.length_packets hdata]
  refine forall₂_congr fun i _ => ?_
  rw [List.mem_cons, mem_heldAt halone]
  exact or_iff_not_imp_left

/-- With the last fragment the frame is returned, and nothing is left under its
timestamp. -/
theorem receive_last (htracks : s.Tracks frames) (halone : s.Alone frames frame)
    (hpkt : (frames frame).Fragment fragment pkt) (hdata : (frames frame).data ≠ [])
    (hlast : s.Completes frames frame fragment) :
    (s.receive frames frame fragment pkt).Tracks frames ∧ ((frames frame).Fits →
      (s.receive frames frame fragment pkt).returned =
        (frame, (frames frame).received) :: s.returned) := by
  have hholds := htracks frame halone
  have hall := (completes_iff halone hdata).mpr hlast
  have hready : (s.reassembler.entryWith pkt).ready = true :=
    ((hholds.entryWith hpkt).ready_iff (List.cons_ne_nil _ _)).mpr hall
  have hpush := hholds.push_last hpkt hall
  refine ⟨fun other halone' => ?_, fun hfits => ?_⟩
  · have hpending : (s.receive frames frame fragment pkt).pending =
        s.pending.filter fun p => (frames p.1).timestampMs ≠ (frames frame).timestampMs :=
      if_pos hready
    rw [Alone, hpending] at halone'
    rw [heldAt, hpending]
    by_cases hts : (frames other).timestampMs = (frames frame).timestampMs
    · have hnone : (s.pending.filter fun p =>
          (frames p.1).timestampMs ≠ (frames frame).timestampMs).filter (fun p =>
            (frames p.1).timestampMs = (frames other).timestampMs) = [] := by
        rw [List.filter_eq_nil_iff]
        intro p hp heq
        exact of_decide_eq_true (List.mem_filter.mp hp).2 ((of_decide_eq_true heq).trans hts)
      rw [hnone]
      exact VideoReassembler.holds_of_none (hts ▸ hpush.1)
    · rw [heldAt_filter (· ≠ (frames frame).timestampMs) s hts]
      exact holds_of_lookup_eq
        (htracks other (alone_of_filter (· ≠ (frames frame).timestampMs) hts halone'))
        (VideoReassembler.lookup_push_of_ne (fun heq => hts (heq.symm.trans hpkt.timestamp)))
  · change ((s.reassembler.push pkt).2.map (frame, ·)).toList ++ s.returned = _
    rw [hpush.2 hfits]
    rfl

/-- Before that it is one more fragment. -/
theorem receive_more (htracks : s.Tracks frames) (halone : s.Alone frames frame)
    (hpkt : (frames frame).Fragment fragment pkt) (hdata : (frames frame).data ≠ [])
    (hmore : ¬ s.Completes frames frame fragment) :
    (s.receive frames frame fragment pkt).Tracks frames ∧
      (s.receive frames frame fragment pkt).returned = s.returned := by
  have hholds := htracks frame halone
  have hmissing := mt (completes_iff halone hdata).mp hmore
  have hready : ¬ (s.reassembler.entryWith pkt).ready = true :=
    mt ((hholds.entryWith hpkt).ready_iff (List.cons_ne_nil _ _)).mp hmissing
  have hpush := hholds.push_more hpkt hmissing
  refine ⟨fun other halone' => ?_, ?_⟩
  · have hpending : (s.receive frames frame fragment pkt).pending =
        (frame, fragment) :: s.pending := if_neg hready
    rw [Alone, hpending] at halone'
    rw [heldAt, hpending]
    by_cases hts : (frames frame).timestampMs = (frames other).timestampMs
    · obtain rfl := halone' (frame, fragment) List.mem_cons_self hts
      rw [List.filter_cons, if_pos (decide_eq_true rfl), List.map_cons]
      exact hpush.1
    · rw [List.filter_cons, if_neg (fun heq => hts (of_decide_eq_true heq))]
      exact holds_of_lookup_eq
        (htracks other fun p hp => halone' p (List.mem_cons_of_mem _ hp))
        (VideoReassembler.lookup_push_of_ne (fun heq => hts (hpkt.timestamp.symm.trans heq)))
  · change ((s.reassembler.push pkt).2.map (frame, ·)).toList ++ s.returned = _
    rw [hpush.2]
    rfl

/-! ## Whole frames -/

theorem fragment_withOutboundVideoStreamId (h : (frames frame).Fragment fragment pkt)
    (sender : ParticipantId) :
    (frames frame).Fragment fragment (withOutboundVideoStreamId pkt sender) := by
  unfold withOutboundVideoStreamId
  split
  · exact h.onStream _
  · exact h

theorem sound_step (e : RoomEvent ι) (h : s.Tracks frames ∧ s.Sound frames)
    (hproper : s.Proper frames e) :
    (s.step frames e).Tracks frames ∧ (s.step frames e).Sound frames := by
  cases e with
  | evictStale currentTimestampMs maxAgeMs =>
      exact ⟨tracks_evictStale h.1 currentTimestampMs maxAgeMs, ⟨h.2.whole, h.2.once⟩⟩
  | packet frame fragment sender =>
      rw [step]
      cases hsent : (frames frame).packets[fragment]? with
      | none => exact h
      | some sent =>
          have hpkt := fragment_withOutboundVideoStreamId
            (VideoFrame.fragment_of_packets hsent) sender
          have hdata := VideoFrame.data_ne_nil hsent
          by_cases hlast : s.Completes frames frame fragment
          · obtain ⟨hfits, hnew⟩ := hproper.2 hlast
            obtain ⟨htracks, hreturned⟩ := receive_last h.1 hproper.1 hpkt hdata hlast
            refine ⟨htracks, ?_, ?_⟩
            · intro o ho
              rw [hreturned hfits, List.mem_cons] at ho
              obtain rfl | ho := ho
              · rfl
              · exact h.2.whole o ho
            · rw [hreturned hfits, List.map_cons, List.nodup_cons]
              refine ⟨fun hmem => ?_, h.2.once⟩
              obtain ⟨o, ho, hframe⟩ := List.mem_map.mp hmem
              exact hnew o ho hframe
          · obtain ⟨htracks, hreturned⟩ := receive_more h.1 hproper.1 hpkt hdata hlast
            refine ⟨htracks, ?_, ?_⟩
            · rw [hreturned]
              exact h.2.whole
            · rw [hreturned]
              exact h.2.once

/-- In a run in which no frame comes between the fragments of another of its timestamp,
none that is complete is cut short, and none is complete again after it was returned,
the frames returned are whole, and each is returned once. -/
theorem sound_of_proper {es : List (RoomEvent ι)}
    (h : EachStep (step frames) (Proper frames) start es) :
    Throughout (step frames) (Sound frames) start es := by
  have hstart : (start : RoomView ι).Tracks frames ∧ (start : RoomView ι).Sound frames :=
    ⟨tracks_start, ⟨fun o ho => absurd ho List.not_mem_nil, List.nodup_nil⟩⟩
  have htracked : Throughout (step frames) (fun s => s.Tracks frames ∧ s.Sound frames) start es :=
    throughout_of_eachStep (fun _ e hs hproper => sound_step e hs hproper) hstart h
  exact htracked.mono fun _ => And.right

/-- Two frames of one timestamp from two senders, and a frame of one packet. -/
def threeFrames : Fin 3 → VideoFrame
  | 0 => ⟨List.replicate 1200 1, .h264Baseline, true, 0, 33, 640, 480⟩
  | 1 => ⟨List.replicate 1200 2, .h264Baseline, true, 0, 33, 640, 480⟩
  | 2 => ⟨[5], .h264Baseline, false, 2, 66, 640, 480⟩

instance (s : RoomView (Fin 3)) (e : RoomEvent (Fin 3)) : Decidable (s.Proper threeFrames e) :=
  match e with
  | .packet frame fragment _ =>
      have : Decidable (threeFrames frame).Fits := inferInstanceAs (Decidable (_ ≤ _))
      inferInstanceAs (Decidable ((∀ p ∈ s.pending, _ → p.1 = frame) ∧
        ((∀ i < _, i ≠ fragment → (frame, i) ∈ s.pending) → _ ∧ ∀ o ∈ s.returned, o.1 ≠ frame)))
  | .evictStale _ _ => isTrue trivial

/-- The frames one after the other, each with repeated packets. -/
theorem sound_inTurn :
    Throughout (step threeFrames) (Sound threeFrames) start
      [.packet 0 1 1, .packet 0 1 1, .packet 0 0 1, .packet 2 0 1, .packet 1 0 2, .packet 1 1 2,
        .evictStale 9000 5000] :=
  sound_of_proper (by decide +kernel)

/-- Of the two frames with the same timestamp one half each makes a frame that nobody
sent, and a packet that comes twice gives its frame twice. -/
theorem mixed_and_repeated :
    (∃ o ∈ (run (step threeFrames) start [.packet 0 0 1, .packet 1 1 2]).returned,
      ∀ frame, o.2 ≠ (threeFrames frame).received) ∧
    (run (step threeFrames) start [.packet 2 0 1, .packet 2 0 1]).returned =
      [(2, (threeFrames 2).received), (2, (threeFrames 2).received)] := by
  decide +kernel

end RoomView
end Wzp.Video
