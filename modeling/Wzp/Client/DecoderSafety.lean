import Wzp.Client.CallPlayer
import Wzp.Lib.Runs

/-!
# Panics of the receiving side

Bytes from the network and calls to decode come in any order.
-/
namespace Wzp.Client
open Bytes Proto Runs

inductive ReceiveEvent where
  | received (now : ℕ) (data : Buf) (available : Option ℤ)
  | receivedCompact (now : ℕ) (data : Buf) (available : Option ℤ)
  | decodeNext (pcmLen : ℕ) (codec : CodecResults)

namespace CallPlayer

def ingestIfSome (p : CallPlayer) (now : ℕ) (packet : Option MediaPacket) (available : Option ℤ) :
    Except Panic CallPlayer :=
  match packet with
  | none => .ok p
  | some packet => p.ingest now packet available

def receive (p : CallPlayer) : ReceiveEvent → Except Panic CallPlayer
  | .received now data available => p.ingestIfSome now (MediaPacket.fromBytes data) available
  | .receivedCompact now data available =>
      (p.deserializeCompact data).2.ingestIfSome now (p.deserializeCompact data).1 available
  | .decodeNext pcmLen codec => (p.decodeNext pcmLen codec).map Prod.snd

/-- After a panic nothing more is done. -/
def receiveAfter (s : Except Panic CallPlayer) (e : ReceiveEvent) : Except Panic CallPlayer :=
  s.bind fun p => p.receive e

def Running (s : Except Panic CallPlayer) : Prop := s.isOk = true

instance (s : Except Panic CallPlayer) : Decidable (Running s) :=
  inferInstanceAs (Decidable (s.isOk = true))

/-- A source packet that the buffer takes does not find an empty range. -/
def KeepsRange (p : CallPlayer) (now : ℕ) (packet : Option MediaPacket) : Prop :=
  ∀ source ∈ packet, source.header.isRepair = false → p.jitter.pushPanics now source = false

/-- A packet whose turn it is has no video codec, unless the profile has the same. -/
def PlaysAudio (p : CallPlayer) : Prop :=
  ∀ packet, p.jitter.pop.1 = .packet packet → packet.header.codecId.isVideo = true →
    packet.header.codecId = p.dec.profile.codec

instance (p : CallPlayer) : Decidable p.PlaysAudio :=
  match h : p.jitter.pop.1 with
  | .packet packet => decidable_of_iff (packet.header.codecId.isVideo = true →
        packet.header.codecId = p.dec.profile.codec)
      ⟨fun hplays _ heq => PlayoutResult.packet.inj (h.symm.trans heq) ▸ hplays,
        fun hplays => hplays packet h⟩
  | .missing _ => isTrue fun _ heq => PlayoutResult.noConfusion (h.symm.trans heq)
  | .notReady => isTrue fun _ heq => PlayoutResult.noConfusion (h.symm.trans heq)

def SafeEvent (p : CallPlayer) : ReceiveEvent → Prop
  | .received now data _ => p.KeepsRange now (MediaPacket.fromBytes data)
  | .receivedCompact now data _ => p.KeepsRange now (p.deserializeCompact data).1
  | .decodeNext _ _ => p.PlaysAudio

def SafeAfter (s : Except Panic CallPlayer) (e : ReceiveEvent) : Prop :=
  ∀ p, s = .ok p → p.SafeEvent e

variable {p : CallPlayer} {packet : MediaPacket} {codec : CodecResults} {seq : UInt32}

/-! ## Taking packets in -/

theorem ingest_running (now : ℕ) (available : Option ℤ) :
    Running (p.ingest now packet available) ↔
      (packet.header.isRepair = false → p.jitter.pushPanics now packet = false) := by
  unfold ingest
  split
  · rename_i hpanics
    rw [Bool.and_eq_true, Bool.not_eq_true'] at hpanics
    constructor
    · intro hrunning
      exact absurd hrunning Bool.false_ne_true
    · intro hkeeps
      exact absurd (hpanics.2.symm.trans (hkeeps hpanics.1)) Bool.false_ne_true.symm
  · rename_i hfine
    rw [Bool.and_eq_true, Bool.not_eq_true'] at hfine
    constructor
    · intro _ hsource
      exact Bool.eq_false_of_not_eq_true fun hpanics => hfine ⟨hsource, hpanics⟩
    · intro _
      rfl

theorem ingestIfSome_running (now : ℕ) (packet : Option MediaPacket) (available : Option ℤ) :
    Running (p.ingestIfSome now packet available) ↔ p.KeepsRange now packet := by
  cases packet with
  | none => exact ⟨fun _ source hsource => absurd hsource (Option.not_mem_none source), fun _ => rfl⟩
  | some packet =>
      unfold ingestIfSome KeepsRange
      rw [ingest_running]
      constructor
      · rintro h source hsource
        rw [← Option.mem_some_iff.mp hsource]
        exact h
      · intro h
        exact h packet rfl

/-! ## Decoding -/

theorem profileForCodec_running (codecId : CodecId) :
    (profileForCodec codecId).isOk = !codecId.isVideo := by
  cases codecId <;> rfl

theorem i32Mul_ok {a b : ℤ} (hlo : 0 ≤ a * b) (hhi : a * b < 2 ^ 31) : i32Mul a b = .ok (a * b) :=
  if_pos ⟨by omega, hhi⟩

/-- Within reach the offset is far from the bound of 32 bits. -/
theorem offsetSamples_ok (profile : QualityProfile) {seqDelta : UInt32} (h : seqDelta ≤ maxSeqDelta) :
    ∃ offset, offsetSamples profile seqDelta = .ok offset := by
  have hmax : maxSeqDelta.toNat = 128 := rfl
  have hdelta := UInt32.le_iff_toNat_le.mp h
  rw [hmax] at hdelta
  have hframe : profile.frameDurationMs.toNat < 256 := UInt8.toNat_lt _
  unfold offsetSamples
  generalize profile.frameDurationMs.toNat = duration at hframe
  generalize seqDelta.toNat = delta at hdelta
  have hsamples : i32Mul 48000 duration = .ok (48000 * duration) :=
    i32Mul_ok (by omega) (by omega)
  have hnonneg : (0 : ℤ) ≤ 48000 * duration / 1000 := by omega
  have hle : (48000 * duration / 1000 : ℤ) ≤ 12240 := by omega
  have hbound : (delta : ℤ) * (48000 * duration / 1000) ≤ 128 * 12240 :=
    Int.mul_le_mul (by omega) hle hnonneg (by omega)
  have hoffset : i32Mul delta (48000 * duration / 1000) = .ok (delta * (48000 * duration / 1000)) :=
    i32Mul_ok (Int.mul_nonneg (by omega) hnonneg) (by omega)
  refine ⟨delta * (48000 * duration / 1000), ?_⟩
  rw [hsamples, ok_bind]
  exact hoffset

theorem reconstructGap_ok (p : CallPlayer) (seq : UInt32) (reconstructed : Option ℕ) :
    ∃ result, p.reconstructGap seq reconstructed = .ok result := by
  unfold reconstructGap
  split
  · exact ⟨none, rfl⟩
  · rename_i lastSeq _
    dsimp only
    split
    · rename_i hreach
      rw [Bool.and_eq_true, decide_eq_true_eq] at hreach
      obtain ⟨offset, hoffset⟩ := offsetSamples_ok p.dec.profile hreach.2
      rw [hoffset, ok_bind]
      split
      · exact ⟨reconstructed, rfl⟩
      · exact ⟨none, rfl⟩
    · exact ⟨none, rfl⟩

theorem concealGap_running (p : CallPlayer) (seq : UInt32) (codec : CodecResults) :
    (p.concealGap seq codec).isOk = true := by
  unfold concealGap
  split
  · rfl
  · obtain ⟨result, hresult⟩ := reconstructGap_ok p seq codec.reconstructFromDred
    rw [hresult, ok_bind]
    cases result with
    | none => rfl
    | some n => rfl

theorem switchDecoderIfNeeded_running (p : CallPlayer) (codecId : CodecId) (accepted : Bool) :
    (p.switchDecoderIfNeeded codecId accepted).isOk = true ↔
      (codecId.isVideo = true → codecId = p.dec.profile.codec) := by
  unfold switchDecoderIfNeeded
  split
  · rename_i hkeep
    refine ⟨fun _ hvideo => ?_, fun _ => rfl⟩
    cases hkeep with
    | inl heq => exact heq
    | inr hnoise =>
        rw [hnoise] at hvideo
        exact absurd hvideo Bool.false_ne_true
  · rename_i hother
    have hrunning := profileForCodec_running codecId
    cases hprofile : profileForCodec codecId with
    | error panic =>
        rw [hprofile] at hrunning
        have hvideo : codecId.isVideo = true := by
          cases h : codecId.isVideo with
          | true => rfl
          | false =>
              rw [h] at hrunning
              exact absurd hrunning Bool.false_ne_true
        constructor
        · intro hok
          exact absurd hok Bool.false_ne_true
        · intro hsame
          exact absurd (Or.inl (hsame hvideo)) hother
    | ok profile =>
        rw [hprofile] at hrunning
        rw [ok_bind]
        constructor
        · intro _ hvideo
          rw [hvideo] at hrunning
          exact absurd hrunning.symm Bool.false_ne_true
        · intro _
          split
          · rfl
          · rfl

theorem decodePacket_running (p : CallPlayer) (packet : MediaPacket) (pcmLen : ℕ)
    (codec : CodecResults) :
    (p.decodePacket packet pcmLen codec).isOk = true ↔
      (packet.header.codecId.isVideo = true → packet.header.codecId = p.dec.profile.codec) := by
  unfold decodePacket
  split
  · rename_i hnoise
    refine ⟨fun _ hvideo => ?_, fun _ => rfl⟩
    rw [hnoise] at hvideo
    exact absurd hvideo Bool.false_ne_true
  · rw [← switchDecoderIfNeeded_running p packet.header.codecId codec.setProfile]
    cases p.switchDecoderIfNeeded packet.header.codecId codec.setProfile with
    | error panic => exact Iff.rfl
    | ok switched => exact ⟨fun _ => rfl, fun _ => rfl⟩

theorem decodeNext_running (p : CallPlayer) (pcmLen : ℕ) (codec : CodecResults) :
    (p.decodeNext pcmLen codec).isOk = true ↔ p.PlaysAudio := by
  unfold decodeNext PlaysAudio
  dsimp only
  cases p.jitter.pop.1 with
  | packet packet =>
      dsimp only
      rw [decodePacket_running]
      constructor
      · intro h other heq
        rw [← PlayoutResult.packet.inj heq]
        exact h
      · intro h
        exact h packet rfl
  | missing seq =>
      refine ⟨fun _ packet heq => ?_, fun _ => concealGap_running _ seq codec⟩
      exact PlayoutResult.noConfusion heq
  | notReady =>
      refine ⟨fun _ packet heq => ?_, fun _ => rfl⟩
      exact PlayoutResult.noConfusion heq

/-! ## Runs -/

theorem receive_running (p : CallPlayer) (e : ReceiveEvent) :
    Running (p.receive e) ↔ p.SafeEvent e := by
  cases e with
  | received now data available => exact ingestIfSome_running now _ available
  | receivedCompact now data available =>
      exact ingestIfSome_running now _ available
  | decodeNext pcmLen codec =>
      have hmap : (p.receive (.decodeNext pcmLen codec)).isOk = (p.decodeNext pcmLen codec).isOk := by
        simp only [receive]
        cases p.decodeNext pcmLen codec with
        | error panic => rfl
        | ok result => rfl
      rw [Running, hmap]
      exact decodeNext_running p pcmLen codec

theorem receiveAfter_running {s : Except Panic CallPlayer} (h : Running s) (e : ReceiveEvent) :
    Running (receiveAfter s e) ↔ SafeAfter s e := by
  cases s with
  | error panic => exact absurd h Bool.false_ne_true
  | ok p =>
      unfold receiveAfter SafeAfter
      rw [Except.bind, receive_running]
      constructor
      · intro hsafe q hq
        rw [← Except.ok.inj hq]
        exact hsafe
      · intro hsafe
        exact hsafe p rfl

/-- The receiving side does not panic exactly if no packet of a foreign video
codec comes to be played and the estimator has depths to choose from. -/
theorem running_throughout_iff (config : CallConfig) (es : List ReceiveEvent) :
    Throughout receiveAfter Running (.ok (new config)) es ↔
      EachStep receiveAfter SafeAfter (.ok (new config)) es := by
  have hinv : ∀ (s : Except Panic CallPlayer) (e : ReceiveEvent), True → Running s →
      Running (receiveAfter s e) → True := fun _ _ _ _ _ => trivial
  exact throughout_iff_eachStep hinv (fun s e _ h => receiveAfter_running h e) trivial rfl

/-- A media packet with a header of codec 9, H.264 baseline. -/
def h264Datagram (seq : UInt8) : Buf := [2, 0, 0, 9, 0, 0, 0, 0, 0, seq, 0, 0, 0, 0, 0, 0, 1]

theorem h264_packet_panics : ¬ Throughout receiveAfter Running
    (.ok (new { CallConfig.default with adaptiveJitter := false }))
    [.received 0 (h264Datagram 0) none, .received 0 (h264Datagram 1) none,
      .received 0 (h264Datagram 2) none, .decodeNext 960 ⟨true, some 960, some 960, none⟩] := by
  decide

/-! ## The range of the estimator -/

/-- Where calls to decode go wrong. -/
def PlaysAudioAfter (s : Except Panic CallPlayer) : ReceiveEvent → Prop
  | .decodeNext _ _ => ∀ p, s = .ok p → p.PlaysAudio
  | _ => True

def RangeAfter (s : Except Panic CallPlayer) : Prop := ∀ p, s = .ok p → p.jitter.HasRange

theorem ingest_hasRange {q : CallPlayer} (h : p.jitter.HasRange) {now : ℕ} {available : Option ℤ}
    (hok : p.ingest now packet available = .ok q) : q.jitter.HasRange := by
  unfold ingest at hok
  split at hok
  · cases hok
  · rw [← Except.ok.inj hok]
    change (if packet.header.isRepair then p.jitter else p.jitter.push now packet).HasRange
    split
    · exact h
    · exact JitterBuffer.push_hasRange h now packet

theorem ingestIfSome_hasRange {q : CallPlayer} (h : p.jitter.HasRange) {now : ℕ}
    {packet : Option MediaPacket} {available : Option ℤ}
    (hok : p.ingestIfSome now packet available = .ok q) : q.jitter.HasRange := by
  cases packet with
  | none =>
      rw [← Except.ok.inj hok]
      exact h
  | some packet => exact ingest_hasRange h hok

theorem keepsRange_of_hasRange (h : p.jitter.HasRange) (now : ℕ) (packet : Option MediaPacket) :
    p.KeepsRange now packet := by
  intro source _ _
  exact JitterBuffer.pushPanics_eq_false h now source

theorem new_hasRange {config : CallConfig}
    (h : config.adaptiveJitter = true → config.jitterMin ≤ config.jitterMax) :
    (new config).jitter.HasRange := by
  intro d hd
  have hjitter : (new config).jitter = if config.adaptiveJitter
      then .newAdaptive config.jitterMin config.jitterMax
      else .new config.jitterTarget config.jitterMax config.jitterMin := rfl
  rw [hjitter] at hd
  split at hd
  · rename_i hadaptive
    rw [← Option.some.inj hd]
    exact h hadaptive
  · exact absurd hd.symm (Option.some_ne_none d)

theorem receiveAfter_range {s : Except Panic CallPlayer} (h : RangeAfter s) (e : ReceiveEvent) :
    RangeAfter (receiveAfter s e) := by
  cases s with
  | error panic =>
      intro q hq
      cases hq
  | ok p =>
      have hrange : p.jitter.HasRange := h p rfl
      intro q hq
      have hreceive : p.receive e = .ok q := hq
      cases e with
      | received now data available => exact ingestIfSome_hasRange hrange hreceive
      | receivedCompact now data available =>
          have hsame : (p.deserializeCompact data).2.jitter.HasRange := hrange
          exact ingestIfSome_hasRange hsame hreceive
      | decodeNext pcmLen codec =>
          unfold receive at hreceive
          dsimp only at hreceive
          cases hdecode : p.decodeNext pcmLen codec with
          | error panic =>
              rw [hdecode] at hreceive
              cases hreceive
          | ok r =>
              rw [hdecode] at hreceive
              rw [← Except.ok.inj hreceive]
              have hpop : p.jitter.pop.2.HasRange := by
                intro d hd
                rw [JitterBuffer.pop_adaptive] at hd
                exact hrange d hd
              obtain hr | hr | hr := decodeNext_recorded hdecode
              · rw [hr]
                exact hpop
              · rw [hr]
                exact hpop
              · rw [hr]
                exact hpop

theorem safeAfter_iff {s : Except Panic CallPlayer} (h : RangeAfter s) (e : ReceiveEvent) :
    SafeAfter s e ↔ PlaysAudioAfter s e := by
  cases e with
  | received now data available =>
      exact ⟨fun _ => trivial, fun _ p hp => keepsRange_of_hasRange (h p hp) now _⟩
  | receivedCompact now data available =>
      refine ⟨fun _ => trivial, fun _ p hp => ?_⟩
      exact keepsRange_of_hasRange (h p hp) now _
  | decodeNext pcmLen codec => exact Iff.rfl

/-- With a range of depths only the packets that come to be played matter. -/
theorem running_throughout_iff_of_range {config : CallConfig}
    (h : config.adaptiveJitter = true → config.jitterMin ≤ config.jitterMax)
    (es : List ReceiveEvent) :
    Throughout receiveAfter Running (.ok (new config)) es ↔
      EachStep receiveAfter PlaysAudioAfter (.ok (new config)) es := by
  have hstart : RangeAfter (.ok (new config)) := by
    intro p hp
    rw [← Except.ok.inj hp]
    exact new_hasRange h
  have hinv : ∀ s e, RangeAfter s → Running s → Running (receiveAfter s e) →
      RangeAfter (receiveAfter s e) := fun s e hrange _ _ => receiveAfter_range hrange e
  refine throughout_iff_eachStep hinv ?_ hstart rfl
  intro s e hrange hrunning
  rw [receiveAfter_running hrunning, safeAfter_iff hrange]

end CallPlayer
end Wzp.Client
