import Wzp.Lib.Deadlines
import Wzp.Video.Reassembly

/-!
# The video send task

The task encodes the frames of the camera and sends them in packets. It asks the encoder
for a keyframe at the start, when the other side indicates a picture loss, and after 120
frames without a request. The encoder may take some more frames to answer.
-/
namespace Wzp.Video.VideoFrame

/-- The number behind those of the frame's packets. -/
def nextSeq (f : VideoFrame) : UInt32 :=
  (packetizeVideoFrame f.data f.codecId f.isKeyframe f.seq f.timestampMs f.width f.height).2

/-- Frames with data, each with the numbers behind those of the one before. -/
def Linked : UInt32 → List VideoFrame → Prop
  | _, [] => True
  | seq, f :: rest => f.data ≠ [] ∧ f.seq = seq ∧ Linked f.nextSeq rest

theorem isEmpty_packets {f : VideoFrame} (h : f.data ≠ []) : f.packets.isEmpty = false := by
  have hpos := pieces_pos h
  rw [← length_packets h] at hpos
  exact List.isEmpty_eq_false_iff.mpr (List.length_pos_iff.mp hpos)

theorem nextSeq_eq {f : VideoFrame} (h : f.data ≠ []) :
    f.nextSeq = f.seq + UInt32.ofNat f.pieces.length := by
  rw [nextSeq, packetizeVideoFrame, if_neg (by rw [List.isEmpty_iff]; exact h)]
  rfl

end Wzp.Video.VideoFrame

namespace Wzp.Desktop
open Bytes Proto Video Deadlines

def videoKeyframeIntervalFrames : ℕ := 120

/-- A frame of the camera, before it is encoded. -/
structure RawVideoFrame where
  width : UInt32
  height : UInt32
  data : Buf
  timestampMs : UInt64

def isStartupBlackI420 (data : Buf) (width height : UInt32) : Bool :=
  let ySize := width.toNat * height.toNat
  let uvSize := ySize / 4
  if data.length < ySize + uvSize * 2 then false
  else
    let y := data.take ySize
    let u := (data.drop ySize).take uvSize
    let v := (data.drop (ySize + uvSize)).take uvSize
    let yNonblack := y.any fun b => 3 < b
    let uChroma := u.any fun b => !(124 ≤ b && b ≤ 132)
    let vChroma := v.any fun b => !(124 ≤ b && b ≤ 132)
    !yNonblack && !uChroma && !vChroma

/-! ## Encoders -/

/-- An encoder of the platform. It may fail, or have no output for a frame yet. -/
structure VideoEncoder (E : Type*) where
  encode : E → RawVideoFrame → E × Option Buf
  requestKeyframe : E → E
  isKeyframe : E → Buf → Bool

inductive EncoderCall where
  | requestKeyframe
  | encode (frame : RawVideoFrame)

namespace VideoEncoder
variable {E : Type*}

/-- What a call does, and if there is output, whether it is a keyframe. -/
def call (enc : VideoEncoder E) (e : E) : EncoderCall → E × Option Bool
  | .requestKeyframe => (enc.requestKeyframe e, none)
  | .encode frame =>
      match enc.encode e frame with
      | (e, none) => (e, none)
      | (e, some encoded) =>
          (e, if encoded.isEmpty then none else some (enc.isKeyframe e encoded))

/-- However the encoder is used, at most `n` of its outputs come before a keyframe. -/
def KeyframeWithin (enc : VideoEncoder E) (n : ℕ) (e : E) : Prop := Within enc.call id n e

/-- A request is answered after at most `latency` other frames, so with latency 0 by
the next one that is encoded. -/
def AnswersRequests (enc : VideoEncoder E) (latency : ℕ) : Prop :=
  ∀ e, enc.KeyframeWithin latency (enc.requestKeyframe e)

variable {enc : VideoEncoder E} {n : ℕ} {e e' : E} {frame : RawVideoFrame} {encoded : Buf}

theorem KeyframeWithin.of_call {c : EncoderCall} (h : enc.KeyframeWithin n e)
    (hcall : enc.call e c = (e', none)) : enc.KeyframeWithin n e' := by
  have hnext := Within.of_none h (congrArg Prod.snd hcall)
  rwa [hcall] at hnext

theorem KeyframeWithin.request (h : enc.KeyframeWithin n e) :
    enc.KeyframeWithin n (enc.requestKeyframe e) :=
  h.of_call (c := .requestKeyframe) rfl

theorem KeyframeWithin.of_error (h : enc.KeyframeWithin n e)
    (hencode : enc.encode e frame = (e', none)) : enc.KeyframeWithin n e' :=
  h.of_call (c := .encode frame) (by rw [call, hencode])

theorem KeyframeWithin.of_empty (h : enc.KeyframeWithin n e)
    (hencode : enc.encode e frame = (e', some encoded)) (hempty : encoded.isEmpty = true) :
    enc.KeyframeWithin n e' := by
  apply h.of_call (c := .encode frame)
  rw [call, hencode]
  dsimp only
  rw [if_pos hempty]

theorem KeyframeWithin.of_encoded (h : enc.KeyframeWithin n e)
    (hencode : enc.encode e frame = (e', some encoded)) (hsome : encoded.isEmpty = false) :
    enc.isKeyframe e' encoded = true ∨ ∃ k, n = k + 1 ∧ enc.KeyframeWithin k e' := by
  have hcall : enc.call e (.encode frame) = (e', some (enc.isKeyframe e' encoded)) := by
    rw [call, hencode]
    dsimp only
    rw [if_neg (by rw [hsome]; exact Bool.false_ne_true)]
  have hnext := Within.of_some h (congrArg Prod.snd hcall)
  rwa [hcall] at hnext

end VideoEncoder

/-! ## The task -/

structure VideoSender (E : Type*) where
  codec : CodecId
  encoder : E
  seq : UInt32
  framesSinceKeyframe : ℕ
  firstSendLogged : Bool
  skippedStartupBlackFrames : ℕ
  /-- Set by the signal task, taken by the send task. -/
  forceVideoKeyframe : Bool

inductive VideoSenderEvent where
  | pictureLossIndication
  /-- A frame of the camera, the time at which it has been encoded, and if the transport
  refuses one of its packets, which. -/
  | camera (frame : RawVideoFrame) (elapsedMs : UInt32) (refused : Option ℕ)

inductive KeyframeReason where
  | pli
  | periodic
  deriving DecidableEq, Repr

/-- A frame that was encoded, and those of its packets that were sent. -/
structure SentVideo where
  frame : VideoFrame
  packets : List MediaPacket

/-- The transport takes all packets. -/
def VideoSenderEvent.Accepted : VideoSenderEvent → Prop
  | .pictureLossIndication => True
  | .camera _ _ refused => refused = none

def SentVideo.isKeyframe (sent : SentVideo) : Bool := sent.frame.isKeyframe

namespace VideoSender
variable {E : Type*} (enc : VideoEncoder E)

def start (codec : CodecId) (encoder : E) : VideoSender E where
  codec
  encoder := enc.requestKeyframe encoder
  seq := 0
  framesSinceKeyframe := 0
  firstSendLogged := false
  skippedStartupBlackFrames := 0
  forceVideoKeyframe := false

def pictureLossIndication (s : VideoSender E) : VideoSender E := { s with forceVideoKeyframe := true }

def keyframeReason (s : VideoSender E) : Option KeyframeReason :=
  if s.forceVideoKeyframe then some .pli
  else if videoKeyframeIntervalFrames ≤ s.framesSinceKeyframe then some .periodic
  else none

/-- The flag is taken, and the encoder is asked if there is a reason to. -/
def requestIfDue (s : VideoSender E) : VideoSender E :=
  let asked := { s with forceVideoKeyframe := false }
  match s.keyframeReason with
  | some _ => { asked with encoder := enc.requestKeyframe s.encoder, framesSinceKeyframe := 0 }
  | none => asked

def skipsStartupBlack (s : VideoSender E) (raw : RawVideoFrame) : Bool :=
  !s.firstSendLogged && s.skippedStartupBlackFrames < 30 &&
    isStartupBlackI420 raw.data raw.width raw.height

/-- The packets in order, up to the first that is refused. -/
def accepted (pkts : List MediaPacket) : Option ℕ → List MediaPacket
  | none => pkts
  | some n => pkts.take n

def sendEncoded (s : VideoSender E) (frame : VideoFrame) (refused : Option ℕ) :
    VideoSender E × Option SentVideo :=
  let (pkts, seq) := packetizeVideoFrame frame.data frame.codecId frame.isKeyframe frame.seq
    frame.timestampMs frame.width frame.height
  ({ s with
      seq
      firstSendLogged := s.firstSendLogged || !pkts.isEmpty
      framesSinceKeyframe := s.framesSinceKeyframe + 1 },
    some ⟨frame, accepted pkts refused⟩)

def encodeAndSend (s : VideoSender E) (raw : RawVideoFrame) (elapsedMs : UInt32)
    (refused : Option ℕ) : VideoSender E × Option SentVideo :=
  match enc.encode s.encoder raw with
  | (encoder, none) => ({ s with encoder }, none)
  | (encoder, some encoded) =>
      if encoded.isEmpty then ({ s with encoder }, none)
      else
        sendEncoded { s with encoder }
          ⟨encoded, s.codec, enc.isKeyframe encoder encoded, s.seq, elapsedMs, raw.width, raw.height⟩
          refused

def step (s : VideoSender E) : VideoSenderEvent → VideoSender E × Option SentVideo
  | .pictureLossIndication => (s.pictureLossIndication, none)
  | .camera raw elapsedMs refused =>
      if s.skipsStartupBlack raw then
        ({ s with
            skippedStartupBlackFrames := s.skippedStartupBlackFrames + 1
            encoder := enc.requestKeyframe s.encoder }, none)
      else (s.requestIfDue enc).encodeAndSend enc raw elapsedMs refused

/-! ## What a step does -/

variable {enc} {s : VideoSender E}

/-- Either the encoder is asked, or the flag is down and the interval is not over. -/
theorem requestIfDue_cases (enc : VideoEncoder E) (s : VideoSender E) :
    (s.requestIfDue enc = { s with
      forceVideoKeyframe := false
      encoder := enc.requestKeyframe s.encoder
      framesSinceKeyframe := 0 }) ∨
    (s.forceVideoKeyframe = false ∧ s.framesSinceKeyframe < videoKeyframeIntervalFrames ∧
      s.requestIfDue enc = { s with forceVideoKeyframe := false }) := by
  unfold requestIfDue keyframeReason
  by_cases hforce : s.forceVideoKeyframe = true
  · rw [if_pos hforce]
    exact .inl rfl
  rw [if_neg hforce]
  by_cases hcount : videoKeyframeIntervalFrames ≤ s.framesSinceKeyframe
  · rw [if_pos hcount]
    exact .inl rfl
  · rw [if_neg hcount]
    exact .inr ⟨Bool.eq_false_iff.mpr hforce, Nat.not_le.mp hcount, rfl⟩

theorem requestIfDue_counted (enc : VideoEncoder E) (s : VideoSender E) :
    (s.requestIfDue enc).framesSinceKeyframe < videoKeyframeIntervalFrames := by
  rcases s.requestIfDue_cases enc with hasked | ⟨-, hcount, hquiet⟩
  · rw [hasked]
    exact Nat.zero_lt_succ _
  · rw [hquiet]
    exact hcount

theorem requestIfDue_seq (enc : VideoEncoder E) (s : VideoSender E) :
    (s.requestIfDue enc).seq = s.seq := by
  rcases s.requestIfDue_cases enc with hasked | ⟨-, -, hquiet⟩
  · rw [hasked]
  · rw [hquiet]

/-- A frame is sent or not. If it is, the encoder may have answered a request with it. -/
theorem encodeAndSend_cases (enc : VideoEncoder E) (s : VideoSender E) (raw : RawVideoFrame)
    (elapsedMs : UInt32) (refused : Option ℕ) :
    (∃ encoder, s.encodeAndSend enc raw elapsedMs refused = ({ s with encoder }, none) ∧
      ∀ n, enc.KeyframeWithin n s.encoder → enc.KeyframeWithin n encoder) ∨
    ∃ encoder frame, frame.data ≠ [] ∧ frame.seq = s.seq ∧
      s.encodeAndSend enc raw elapsedMs refused = ({ s with
        encoder
        seq := frame.nextSeq
        firstSendLogged := true
        framesSinceKeyframe := s.framesSinceKeyframe + 1 },
        some ⟨frame, accepted frame.packets refused⟩) ∧
      ∀ n, enc.KeyframeWithin n s.encoder →
        frame.isKeyframe = true ∨ ∃ k, n = k + 1 ∧ enc.KeyframeWithin k encoder := by
  unfold encodeAndSend
  rcases hencode : enc.encode s.encoder raw with ⟨encoder, _ | encoded⟩
  · exact .inl ⟨encoder, rfl, fun n h => h.of_error hencode⟩
  dsimp only
  by_cases hempty : encoded.isEmpty = true
  · rw [if_pos hempty]
    exact .inl ⟨encoder, rfl, fun n h => h.of_empty hencode hempty⟩
  rw [if_neg hempty]
  let frame : VideoFrame := ⟨encoded, s.codec, enc.isKeyframe encoder encoded, s.seq, elapsedMs,
    raw.width, raw.height⟩
  have hdata : frame.data ≠ [] := fun h => hempty (List.isEmpty_iff.mpr h)
  refine .inr ⟨encoder, frame, hdata, rfl, ?_, fun n h =>
    h.of_encoded hencode (Bool.eq_false_iff.mpr hempty)⟩
  have hsend : sendEncoded { s with encoder } frame refused = ({ s with
      encoder
      seq := frame.nextSeq
      firstSendLogged := s.firstSendLogged || !frame.packets.isEmpty
      framesSinceKeyframe := s.framesSinceKeyframe + 1 },
      some ⟨frame, accepted frame.packets refused⟩) := rfl
  rw [VideoFrame.isEmpty_packets hdata, Bool.not_false, Bool.or_true] at hsend
  exact hsend

/-- All that a step can do. -/
theorem step_cases (enc : VideoEncoder E) (s : VideoSender E) (event : VideoSenderEvent) :
    s.step enc event = (s.pictureLossIndication, none) ∨
    (∃ skippedStartupBlackFrames, s.step enc event = ({ s with
      skippedStartupBlackFrames
      encoder := enc.requestKeyframe s.encoder }, none)) ∨
    (∃ encoder, s.step enc event = ({ s.requestIfDue enc with encoder }, none) ∧
      ∀ n, enc.KeyframeWithin n (s.requestIfDue enc).encoder → enc.KeyframeWithin n encoder) ∨
    ∃ encoder frame packets, frame.data ≠ [] ∧ frame.seq = s.seq ∧
      (event.Accepted → packets = frame.packets) ∧
      s.step enc event = ({ s.requestIfDue enc with
        encoder
        seq := frame.nextSeq
        firstSendLogged := true
        framesSinceKeyframe := (s.requestIfDue enc).framesSinceKeyframe + 1 },
        some ⟨frame, packets⟩) ∧
      ∀ n, enc.KeyframeWithin n (s.requestIfDue enc).encoder →
        frame.isKeyframe = true ∨ ∃ k, n = k + 1 ∧ enc.KeyframeWithin k encoder := by
  cases event with
  | pictureLossIndication => exact .inl rfl
  | camera raw elapsedMs refused =>
      rw [step]
      by_cases hskip : s.skipsStartupBlack raw = true
      · rw [if_pos hskip]
        exact .inr (.inl ⟨_, rfl⟩)
      rw [if_neg hskip]
      rcases (s.requestIfDue enc).encodeAndSend_cases enc raw elapsedMs refused with
        ⟨encoder, hnone, hkept⟩ | ⟨encoder, frame, hdata, hseq, hsome, hanswered⟩
      · exact .inr (.inr (.inl ⟨encoder, hnone, hkept⟩))
      · refine .inr (.inr (.inr ⟨encoder, frame, _, hdata, hseq.trans (s.requestIfDue_seq enc),
          ?_, hsome, hanswered⟩))
        rintro rfl
        rfl

/-- The numbers go on over what is sent. -/
theorem step_seq (enc : VideoEncoder E) (s : VideoSender E) (event : VideoSenderEvent) :
    (∃ s', s.step enc event = (s', none) ∧ s'.seq = s.seq) ∨
    ∃ s' sent, s.step enc event = (s', some sent) ∧ sent.frame.data ≠ [] ∧
      sent.frame.seq = s.seq ∧ s'.seq = sent.frame.nextSeq ∧
      (event.Accepted → sent.packets = sent.frame.packets) := by
  rcases s.step_cases enc event with hstep | ⟨_, hstep⟩ | ⟨_, hstep, -⟩ |
    ⟨_, _, _, hdata, hseq, haccepted, hstep, -⟩
  · exact .inl ⟨_, hstep, rfl⟩
  · exact .inl ⟨_, hstep, rfl⟩
  · exact .inl ⟨_, hstep, s.requestIfDue_seq enc⟩
  · exact .inr ⟨_, _, hstep, hdata, hseq, rfl, haccepted⟩

theorem outputs_linked (enc : VideoEncoder E) (s : VideoSender E) (events : List VideoSenderEvent) :
    VideoFrame.Linked s.seq ((outputs (step enc) s events).map SentVideo.frame) := by
  induction events generalizing s with
  | nil => trivial
  | cons event events ih =>
      rcases s.step_seq enc event with ⟨s', hstep, hseq⟩ | ⟨s', sent, hstep, hdata, hframe, hseq, -⟩
      · rw [outputs_of_none (congrArg Prod.snd hstep), hstep, ← hseq]
        exact ih s'
      · rw [outputs_of_some (congrArg Prod.snd hstep), hstep, List.map_cons]
        exact ⟨hdata, hframe, hseq ▸ ih s'⟩

theorem outputs_packets {events : List VideoSenderEvent}
    (haccepted : ∀ event ∈ events, event.Accepted) (enc : VideoEncoder E) (s : VideoSender E) :
    (outputs (step enc) s events).flatMap SentVideo.packets =
      ((outputs (step enc) s events).map SentVideo.frame).flatMap VideoFrame.packets := by
  induction events generalizing s with
  | nil => rfl
  | cons event events ih =>
      have hrest := ih fun e he => haccepted e (List.mem_cons_of_mem event he)
      rcases s.step_seq enc event with ⟨s', hstep, -⟩ | ⟨s', sent, hstep, -, -, -, hpackets⟩
      · rw [outputs_of_none (congrArg Prod.snd hstep)]
        exact hrest _
      · rw [outputs_of_some (congrArg Prod.snd hstep), List.map_cons, List.flatMap_cons,
          List.flatMap_cons, hpackets (haccepted event List.mem_cons_self), hrest]

/-! ## When the next keyframe is due -/

/-- At most `m` frames come before a keyframe: the encoder has been asked for it, or will
be when the interval is over, or at the next frame. -/
structure Due (enc : VideoEncoder E) (latency m : ℕ) (s : VideoSender E) : Prop where
  counted : s.framesSinceKeyframe ≤ videoKeyframeIntervalFrames
  due : enc.KeyframeWithin m s.encoder ∨
    videoKeyframeIntervalFrames - s.framesSinceKeyframe + latency ≤ m ∨
    s.forceVideoKeyframe = true ∧ latency ≤ m

variable {latency m : ℕ}

theorem Due.asked (hanswers : enc.AnswersRequests latency) (h : s.Due enc latency m) :
    enc.KeyframeWithin m (s.requestIfDue enc).encoder ∨
      videoKeyframeIntervalFrames - (s.requestIfDue enc).framesSinceKeyframe + latency ≤ m := by
  have hasking : enc.KeyframeWithin latency (enc.requestKeyframe s.encoder) := hanswers s.encoder
  rcases s.requestIfDue_cases enc with hasked | ⟨hforce, -, hquiet⟩
  · rw [hasked]
    refine .inl ?_
    rcases h.due with hwithin | hinterval | ⟨-, hle⟩
    · exact hwithin.request
    · exact Within.mono hasking (by omega)
    · exact Within.mono hasking hle
  · rw [hquiet]
    rcases h.due with hwithin | hinterval | ⟨hset, -⟩
    · exact .inl hwithin
    · exact .inr hinterval
    · rw [hforce] at hset
      cases hset

/-- A frame that is sent is a keyframe or brings the keyframe nearer, and nothing else
puts it off. -/
theorem Due.next (hanswers : enc.AnswersRequests latency) (h : s.Due enc latency m)
    (event : VideoSenderEvent) :
    ((s.step enc event).2 = none → (s.step enc event).1.Due enc latency m) ∧
      ∀ sent, (s.step enc event).2 = some sent →
        sent.isKeyframe = true ∨ ∃ k, m = k + 1 ∧ (s.step enc event).1.Due enc latency k := by
  have hcount := s.requestIfDue_counted enc
  rcases s.step_cases enc event with hstep | ⟨_, hstep⟩ | ⟨encoder, hstep, hkept⟩ |
    ⟨encoder, frame, packets, -, -, -, hstep, hanswered⟩
  all_goals
    rw [hstep]
    refine ⟨fun hnone => ?_, fun sent hsent => ?_⟩
  · exact ⟨h.counted, h.due.imp_right fun hlate => hlate.imp_right fun hset => ⟨rfl, hset.2⟩⟩
  · cases hsent
  · exact ⟨h.counted, h.due.imp_left (·.request)⟩
  · cases hsent
  · exact ⟨hcount.le, (h.asked hanswers).imp (hkept m) .inl⟩
  · cases hsent
  · cases hnone
  · cases hsent
    rcases h.asked hanswers with hwithin | hinterval
    · rcases hanswered m hwithin with hkey | ⟨k, rfl, hk⟩
      · exact .inl hkey
      · exact .inr ⟨k, rfl, hcount, .inl hk⟩
    · refine .inr ⟨m - 1, by omega, hcount, .inr (.inl ?_)⟩
      dsimp only
      omega

theorem Due.within (hanswers : enc.AnswersRequests latency) (h : s.Due enc latency m) :
    Within (step enc) SentVideo.isKeyframe m s :=
  within_of_rank (Due enc latency) (fun _ _ event hdue => (hdue.next hanswers event).1)
    (fun _ _ event sent hdue => (hdue.next hanswers event).2 sent) h

theorem step_counted (h : s.framesSinceKeyframe ≤ videoKeyframeIntervalFrames)
    (event : VideoSenderEvent) :
    (s.step enc event).1.framesSinceKeyframe ≤ videoKeyframeIntervalFrames := by
  have hcount := s.requestIfDue_counted enc
  rcases s.step_cases enc event with hstep | ⟨_, hstep⟩ | ⟨_, hstep, -⟩ | ⟨_, _, _, -, -, -, hstep, -⟩
  · rw [hstep]
    exact h
  · rw [hstep]
    exact h
  · rw [hstep]
    exact hcount.le
  · rw [hstep]
    exact hcount

theorem reached_counted (enc : VideoEncoder E) (codec : CodecId) (encoder : E)
    (events : List VideoSenderEvent) :
    (reached (step enc) (start enc codec encoder) events).framesSinceKeyframe ≤
      videoKeyframeIntervalFrames := by
  induction events using List.reverseRecOn with
  | nil => exact Nat.zero_le _
  | append_singleton events event ih =>
      rw [reached_append_singleton]
      exact step_counted ih event

theorem within_start (hanswers : enc.AnswersRequests latency) (codec : CodecId) (encoder : E) :
    Within (step enc) SentVideo.isKeyframe latency (start enc codec encoder) :=
  Due.within hanswers ⟨Nat.zero_le _, .inl (hanswers encoder)⟩

theorem within_indicated (hanswers : enc.AnswersRequests latency)
    (h : s.framesSinceKeyframe ≤ videoKeyframeIntervalFrames) :
    Within (step enc) SentVideo.isKeyframe latency s.pictureLossIndication :=
  Due.within hanswers ⟨h, .inr (.inr ⟨rfl, Nat.le_refl latency⟩)⟩

theorem within_interval (hanswers : enc.AnswersRequests latency)
    (h : s.framesSinceKeyframe ≤ videoKeyframeIntervalFrames) :
    Within (step enc) SentVideo.isKeyframe
      (videoKeyframeIntervalFrames - s.framesSinceKeyframe + latency) s :=
  Due.within hanswers ⟨h, .inr (.inl (Nat.le_refl _))⟩

/-- An encoder that answers a request at once, with the header of a frame as its output. -/
def promptEncoder : VideoEncoder Bool where
  encode := fun forceKeyframe _ => (false, some [0, 0, 0, 1, if forceKeyframe then 0x65 else 0x41])
  requestKeyframe := fun _ => true
  isKeyframe := fun _ packet => packet.getD 4 0 &&& 0x1F == 5

theorem promptEncoder_answers : promptEncoder.AnswersRequests 0 := by
  intro e
  refine within_of_rank (fun _ forceKeyframe => forceKeyframe = true) ?_ ?_ (n := 0) rfl
  · rintro m e (_ | frame) rfl hnone
    · rfl
    · exact absurd hnone (Option.some_ne_none _)
  · rintro m e (_ | frame) out rfl hsome
    · exact absurd hsome.symm (Option.some_ne_none _)
    · exact .inl (Option.some.inj hsome).symm

end VideoSender
end Wzp.Desktop
