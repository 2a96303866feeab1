import Mathlib.Algebra.GroupWithZero.Nat
import Wzp.Relay.VideoScorer

/-!
# Frames and their packets

The scorer is to judge a stream by its frames, but is given their packets. It sees the same
as if each frame came whole exactly if each does.
-/
namespace Wzp.Relay
open Bytes Proto Runs Video

/-- A frame of video as it is sent: one packet or more, with their lengths, all with the
keyframe flag of the frame, which arrive together. -/
structure SentFrame where
  isKeyframe : Bool
  now : ℕ
  first : MediaHeader × ℕ
  rest : List (MediaHeader × ℕ)
  ofFrame : ∀ p ∈ first :: rest, p.1.mediaType = .video ∧ p.1.isKeyframe = isKeyframe

namespace SentFrame

def packets (f : SentFrame) : List (MediaHeader × ℕ) := f.first :: f.rest

def arrivals (f : SentFrame) : List ScoredArrival := f.packets.map fun p => ⟨p.1, p.2, f.now, none⟩

/-- The frame in one packet. -/
def whole (f : SentFrame) : ScoredArrival := ⟨f.first.1, (f.packets.map (·.2)).sum, f.now, none⟩

/-- The packets of an encoded frame are such packets. -/
theorem packetized_ofFrame (frame : Buf) (codecId : CodecId) (isKeyframe : Bool)
    (seq timestampMs width height : UInt32) :
    ∀ p ∈ (packetizeVideoFrame frame codecId isKeyframe seq timestampMs width height).1,
      p.header.mediaType = .video ∧ p.header.isKeyframe = isKeyframe := by
  intro p hp
  unfold packetizeVideoFrame at hp
  split at hp
  · cases hp
  · obtain ⟨q, _, rfl⟩ := List.mem_map.mp hp
    exact ⟨rfl, isKeyframe_fragmentPacket _ _ _ _ _⟩

end SentFrame

/-- A packet of video that comes with no bandwidth. -/
def ScoredArrival.Plain (p : ScoredArrival) : Prop := p.header.mediaType = .video ∧ p.bweKbps = none

namespace VideoScorer

/-- The stream with each frame as it is split. -/
def splitRun (now : ℕ) (fs : List SentFrame) : VideoScorer :=
  run observe (new now) (fs.flatMap SentFrame.arrivals)

/-- The stream with each frame whole. -/
def wholeRun (now : ℕ) (fs : List SentFrame) : VideoScorer :=
  run observe (new now) (fs.map SentFrame.whole)

/-- There are more packets than any threshold of the score. -/
def Judged (s : VideoScorer) : Prop := noKeyframeThreshold < s.totalPackets

/-- The features are equal, and the verdicts where there are enough packets for them. -/
def ScoresAs (s t : VideoScorer) : Prop :=
  s.iFrameCount = t.iFrameCount ∧ s.pFrameCount = t.pFrameCount ∧
    s.keyframeIatSamples = t.keyframeIatSamples ∧ (s.Judged → t.Judged → s.verdict = t.verdict)

/-! ## Counting -/

variable {s : VideoScorer} {p : ScoredArrival} {ps : List ScoredArrival} {fs : List SentFrame}

/-- A packet counts for its flag. -/
theorem observe_counts (h : p.Plain) :
    (s.observe p).iFrameCount = s.iFrameCount + (if p.header.isKeyframe then 1 else 0) ∧
      (s.observe p).pFrameCount = s.pFrameCount + (if p.header.isKeyframe then 0 else 1) := by
  simp only [observe, h.1, h.2, if_true]
  cases p.header.isKeyframe with
  | true => exact ⟨rfl, (UInt32.add_zero _).symm⟩
  | false => exact ⟨(UInt32.add_zero _).symm, rfl⟩

theorem run_counts (h : ∀ p ∈ ps, p.Plain) :
    (run observe s ps).iFrameCount =
        s.iFrameCount + UInt32.ofNat (ps.countP (·.header.isKeyframe)) ∧
      (run observe s ps).pFrameCount =
        s.pFrameCount + UInt32.ofNat (ps.countP (!·.header.isKeyframe)) := by
  induction ps generalizing s with
  | nil => simp
  | cons p ps ih =>
      rw [List.forall_mem_cons] at h
      obtain ⟨hi, hp⟩ := observe_counts (s := s) h.1
      rw [run_cons, (ih h.2).1, (ih h.2).2, hi, hp, List.countP_cons, List.countP_cons]
      cases p.header.isKeyframe with
      | true => simp [UInt32.ofNat_add, UInt32.add_assoc, UInt32.add_comm]
      | false => simp [UInt32.ofNat_add, UInt32.add_assoc, UInt32.add_comm]

theorem arrivals_plain (f : SentFrame) : ∀ p ∈ f.arrivals, p.Plain := by
  intro p hp
  obtain ⟨q, hq, rfl⟩ := List.mem_map.mp hp
  exact ⟨(f.ofFrame q hq).1, rfl⟩

theorem whole_plain (f : SentFrame) : f.whole.Plain :=
  ⟨(f.ofFrame f.first List.mem_cons_self).1, rfl⟩

theorem length_le_arrivals (fs : List SentFrame) :
    fs.length ≤ (fs.flatMap SentFrame.arrivals).length := by
  induction fs with
  | nil => exact Nat.le_refl 0
  | cons f fs ih =>
      rw [List.flatMap_cons, List.length_append, List.length_cons, SentFrame.arrivals,
        List.length_map, SentFrame.packets, List.length_cons]
      omega

/-- Every frame has a packet, and no other if there are as many packets as frames. -/
theorem all_whole (h : (fs.flatMap SentFrame.arrivals).length = fs.length) :
    ∀ f ∈ fs, f.rest = [] := by
  induction fs with
  | nil => exact fun f hf => absurd hf List.not_mem_nil
  | cons f fs ih =>
      rw [List.flatMap_cons, List.length_append, List.length_cons] at h
      have hle := length_le_arrivals fs
      have hlength : f.arrivals.length = f.rest.length + 1 := by
        rw [SentFrame.arrivals, List.length_map]
        rfl
      rw [List.forall_mem_cons]
      exact ⟨List.eq_nil_of_length_eq_zero (by omega), ih (by omega)⟩

/-- Equal counts are counts of equally many packets, as long as they fit. -/
theorem length_eq_of_counts (now : ℕ) {ps qs : List ScoredArrival} (hps : ∀ p ∈ ps, p.Plain)
    (hqs : ∀ q ∈ qs, q.Plain) (hsmall : ps.length < 2 ^ 32) (hsmall' : qs.length < 2 ^ 32)
    (hi : (run observe (new now) ps).iFrameCount = (run observe (new now) qs).iFrameCount)
    (hp : (run observe (new now) ps).pFrameCount = (run observe (new now) qs).pFrameCount) :
    ps.length = qs.length := by
  have hfit {rs : List ScoredArrival} (hsmall : rs.length < 2 ^ 32) (flag : ScoredArrival → Bool) :
      (UInt32.ofNat (rs.countP flag)).toNat = rs.countP flag :=
    Nat.mod_eq_of_lt (Nat.lt_of_le_of_lt List.countP_le_length hsmall)
  rw [(run_counts hps).1, (run_counts hqs).1] at hi
  rw [(run_counts hps).2, (run_counts hqs).2] at hp
  have hi' := congrArg UInt32.toNat ((UInt32.add_right_inj _).mp hi)
  have hp' := congrArg UInt32.toNat ((UInt32.add_right_inj _).mp hp)
  rw [hfit hsmall, hfit hsmall'] at hi' hp'
  rw [List.length_eq_countP_add_countP (·.header.isKeyframe),
    List.length_eq_countP_add_countP (·.header.isKeyframe) (l := qs), hi']
  simpa using hp'

theorem whole_of_single {f : SentFrame} (h : f.rest = []) : f.arrivals = [f.whole] := by
  have hpackets : f.packets = [f.first] := by
    rw [SentFrame.packets, h]
  rw [SentFrame.arrivals, SentFrame.whole, hpackets]
  rfl

theorem splitRun_of_single (now : ℕ) (h : ∀ f ∈ fs, f.rest = []) :
    splitRun now fs = wholeRun now fs := by
  have hsame : fs.flatMap SentFrame.arrivals = fs.map SentFrame.whole := by
    induction fs with
    | nil => rfl
    | cons f fs ih =>
        rw [List.forall_mem_cons] at h
        rw [List.flatMap_cons, List.map_cons, whole_of_single h.1, ih h.2]
        rfl
  rw [splitRun, wholeRun, hsame]

/-- A stream of up to 2^32 packets is scored by its frames exactly if each of them is one
packet. The condition is enough for longer ones too. -/
theorem frames_scored_iff (now : ℕ) (fs : List SentFrame) :
    ((∀ f ∈ fs, f.rest = []) → (splitRun now fs).ScoresAs (wholeRun now fs)) ∧
    ((fs.flatMap SentFrame.arrivals).length < 2 ^ 32 →
      (splitRun now fs).ScoresAs (wholeRun now fs) → ∀ f ∈ fs, f.rest = []) := by
  constructor
  · intro h
    rw [splitRun_of_single now h]
    exact ⟨rfl, rfl, rfl, fun _ _ => rfl⟩
  · intro hsmall hscores
    have hsmall' : (fs.map SentFrame.whole).length < 2 ^ 32 := by
      rw [List.length_map]
      exact Nat.lt_of_le_of_lt (length_le_arrivals fs) hsmall
    have hplain : ∀ p ∈ fs.flatMap SentFrame.arrivals, p.Plain := by
      intro p hp
      obtain ⟨f, _, hf⟩ := List.mem_flatMap.mp hp
      exact arrivals_plain f p hf
    have hplain' : ∀ p ∈ fs.map SentFrame.whole, p.Plain := by
      intro p hp
      obtain ⟨f, _, rfl⟩ := List.mem_map.mp hp
      exact whole_plain f
    have hlength := length_eq_of_counts now hplain hplain' hsmall hsmall' hscores.1 hscores.2.1
    rw [List.length_map] at hlength
    exact all_whole hlength

/-! ## A regular stream -/

def gopHeader (isKeyframe : Bool) : MediaHeader :=
  ⟨2, if isKeyframe then MediaHeader.flagKeyframe else 0, .video, .h264Baseline, 0, 0, 0, 0, 0⟩

/-- A frame of a stream with a keyframe in every 30 frames, 33 ms apart. -/
def gopFrame (keyframePackets i : ℕ) : SentFrame where
  isKeyframe := i % 30 == 0
  now := 33000000 * i
  first := (gopHeader (i % 30 == 0), 1168)
  rest := if i % 30 == 0 then List.replicate (keyframePackets - 1) (gopHeader true, 1168) else []
  ofFrame := by
    rw [List.forall_mem_cons]
    cases i % 30 == 0 with
    | true =>
        refine ⟨⟨rfl, rfl⟩, fun p hp => ?_⟩
        rw [List.eq_of_mem_replicate hp]
        exact ⟨rfl, rfl⟩
    | false => exact ⟨⟨rfl, rfl⟩, fun p hp => absurd hp List.not_mem_nil⟩

def gopStream (keyframePackets frames : ℕ) : List SentFrame :=
  (List.range frames).map (gopFrame keyframePackets)

/-- With keyframes of ten packets it is abusive, with the same keyframes whole legitimate. -/
theorem gop_of_large_keyframes :
    ¬ (splitRun 0 (gopStream 10 150)).ScoresAs (wholeRun 0 (gopStream 10 150)) ∧
      (splitRun 0 (gopStream 10 150)).verdict = some .abusive ∧
      (wholeRun 0 (gopStream 10 150)).verdict = some .legitimate := by
  refine ⟨fun h => absurd h.1 (by decide +kernel), by decide +kernel, by decide +kernel⟩

end VideoScorer
end Wzp.Relay
