import Wzp.Client.FecRecovery
import Wzp.Codec.ProfileSwitch

/-!
# Switching the profile of a call

The encoder of a call names the codec of its profile in every packet. The audio encoder
inside encodes with the codec that is active there, and a switch that fails reaches only
the audio encoder.
-/
namespace Wzp.Client
open Bytes Proto Fec Codec Runs Writes

/-- The encoder of a call with its audio encoder. -/
structure VoiceEncoder where
  audioEnc : AdaptiveEncoder
  call : CallEncoder

inductive VoiceEvent where
  | setProfile (libopus : Libopus) (profile : QualityProfile)
  | encodeFrame (rq : RaptorQ) (frame : CapturedFrame)
  | applyDredTuning (libopus : Libopus) (dredFrames expectedLossPct : UInt8)
  | setPendingQualityReport (report : QualityReport)

namespace VoiceEncoder

/-- No encoder if there is no audio encoder. -/
def new (libopus : Libopus) (created : Except String OpusSettings) (legacyFecMode : Bool)
    (config : CallConfig) : Option VoiceEncoder :=
  match AdaptiveEncoder.new libopus created legacyFecMode config.profile with
  | .ok audioEnc => some ⟨audioEnc, .new config⟩
  | .error _ => none

/-- The rest of the call is changed after the audio encoder, if that took the profile. -/
def setProfile (libopus : Libopus) (profile : QualityProfile) (enc : VoiceEncoder) :
    VoiceEncoder × Except CodecError Unit :=
  let r := enc.audioEnc.setProfile libopus profile
  (⟨r.1, enc.call.setProfile profile r.2.isOk⟩, r.2)

def applyDredTuning (libopus : Libopus) (dredFrames expectedLossPct : UInt8) (enc : VoiceEncoder) :
    VoiceEncoder :=
  { enc with audioEnc :=
    (enc.audioEnc.setDredDuration libopus dredFrames).setExpectedLoss libopus expectedLossPct }

def step (enc : VoiceEncoder) : VoiceEvent → VoiceEncoder
  | .setProfile libopus profile => (enc.setProfile libopus profile).1
  | .encodeFrame rq frame => { enc with call := (enc.call.encodeFrame rq frame).1 }
  | .applyDredTuning libopus frames lossPct => enc.applyDredTuning libopus frames lossPct
  | .setPendingQualityReport report =>
      { enc with call := enc.call.setPendingQualityReport report }

/-- A frame encoded now is encoded with the codec that its packet names. -/
def Labelled (enc : VoiceEncoder) : Prop :=
  ∀ encoded, enc.audioEnc.Encodes (enc.call.sourcePacket encoded).header.codecId

/-- A switch that fails changes nothing, and the packets of a frame that is not suppressed
name the codec it is encoded with. -/
def KeepsAt (enc : VoiceEncoder) : VoiceEvent → Prop
  | .setProfile libopus profile => Atomic (VoiceEncoder.setProfile libopus profile) enc
  | .encodeFrame rq frame =>
      (enc.call.suppressionEnabled && frame.silent) = false →
        ∀ packets, (enc.call.encodeFrame rq frame).2 = some packets →
          ∀ p ∈ packets, enc.audioEnc.Encodes p.header.codecId
  | _ => True

/-- The condition on an event: that of a switch. -/
def HarmlessAt (enc : VoiceEncoder) : VoiceEvent → Prop
  | .setProfile libopus profile =>
      AdaptiveEncoder.Takes libopus enc.audioEnc profile ∨
        AdaptiveEncoder.Has libopus enc.audioEnc profile
  | _ => True

variable {libopus : Libopus} {profile : QualityProfile} {enc : VoiceEncoder}

theorem labelled_iff : enc.Labelled ↔ enc.audioEnc.Encodes enc.call.profile.codec :=
  ⟨fun h => h [], fun h _ => h⟩

theorem setProfile_taken (h : AdaptiveEncoder.Takes libopus enc.audioEnc profile) :
    enc.setProfile libopus profile = (⟨(enc.audioEnc.setProfile libopus profile).1,
      enc.call.setProfile profile true⟩, .ok ()) := by
  simp only [setProfile, AdaptiveEncoder.setProfile_ok_iff.mpr h]
  rfl

theorem setProfile_refused (h : ¬ AdaptiveEncoder.Takes libopus enc.audioEnc profile) :
    (enc.setProfile libopus profile).1 =
      ⟨(enc.audioEnc.setProfile libopus profile).1, enc.call⟩ := by
  rw [← AdaptiveEncoder.setProfile_ok_iff] at h
  unfold VoiceEncoder.setProfile
  cases hr : (enc.audioEnc.setProfile libopus profile).2 with
  | ok u => exact absurd hr h
  | error e =>
      simp only [hr]
      rfl

/-- The call fails together with the audio encoder. -/
theorem setProfile_atomic_iff : Atomic (VoiceEncoder.setProfile libopus profile) enc ↔
    AdaptiveEncoder.Takes libopus enc.audioEnc profile ∨
      AdaptiveEncoder.Has libopus enc.audioEnc profile := by
  by_cases htakes : AdaptiveEncoder.Takes libopus enc.audioEnc profile
  · simp [atomic_iff, setProfile_taken htakes, htakes]
  · rw [← AdaptiveEncoder.setProfile_atomic_iff, atomic_iff, atomic_iff,
      setProfile_refused htakes]
    apply or_congr Iff.rfl
    constructor
    · intro heq
      exact congrArg audioEnc heq
    · intro heq
      rw [heq]

theorem applyDredTuning_encodes {codec : CodecId} (h : enc.audioEnc.Encodes codec)
    (frames lossPct : UInt8) :
    (enc.applyDredTuning libopus frames lossPct).audioEnc.Encodes codec := by
  apply h.of_same
  · rfl
  · rfl
  · exact (OpusEncoder.setExpectedLoss_bitrate lossPct).trans
      (OpusEncoder.setDredDuration_bitrate frames)

/-- Each packet of a frame that is not suppressed names the codec of the profile. -/
theorem encodeFrame_codec {rq : RaptorQ} {call : CallEncoder} {frame : CapturedFrame}
    (hspoken : (call.suppressionEnabled && frame.silent) = false) {packets : List MediaPacket}
    (hpackets : (call.encodeFrame rq frame).2 = some packets) :
    ∀ p ∈ packets, p.header.codecId = call.profile.codec := by
  cases hopus : call.profile.codec.isOpus with
  | false =>
      obtain ⟨_, _, _, hall⟩ := encodeFrame_speech rq hspoken hopus
      rw [hpackets] at hall
      exact fun p hp => (hall p hp).1
  | true =>
      cases hencoded : frame.encoded with
      | none =>
          rw [CallEncoder.encodeFrame_failed hspoken hencoded] at hpackets
          cases hpackets
      | some encoded =>
          rw [CallEncoder.encodeFrame_opus hspoken hencoded hopus] at hpackets
          cases hpackets
          intro p hp
          rw [List.mem_singleton.mp hp]
          rfl

/-! ## One step -/

def Sound (enc : VoiceEncoder) : Prop := enc.audioEnc.codec2.Sound .encodeFailed

theorem step_sound (enc : VoiceEncoder) (e : VoiceEvent) (h : enc.Sound) : (enc.step e).Sound := by
  cases e with
  | setProfile libopus profile => exact AdaptiveEncoder.setProfile_sound h
  | _ => exact h

theorem step_iff (e : VoiceEvent) (hsound : enc.Sound) (h : enc.Labelled) :
    (enc.step e).Labelled ∧ enc.KeepsAt e ↔ enc.HarmlessAt e := by
  rw [labelled_iff] at h ⊢
  cases e with
  | setProfile libopus profile =>
      rw [KeepsAt, HarmlessAt, setProfile_atomic_iff, step, and_iff_right_iff_imp]
      intro hharmless
      by_cases htakes : AdaptiveEncoder.Takes libopus enc.audioEnc profile
      · rw [setProfile_taken htakes]
        exact AdaptiveEncoder.setProfile_encodes hsound htakes
      · rcases (atomic_iff.mp (setProfile_atomic_iff.mpr hharmless)) with hok | hsame
        · exact absurd (AdaptiveEncoder.setProfile_ok_iff.mp hok) htakes
        · rwa [hsame]
  | encodeFrame rq frame =>
      refine ⟨fun _ => trivial, fun _ => ⟨?_, fun hspoken packets hpackets p hp => ?_⟩⟩
      · rw [step, (CallEncoder.encodeFrame_keeps rq enc.call frame).1]
        exact h
      · rw [encodeFrame_codec hspoken hpackets p hp]
        exact h
  | applyDredTuning libopus frames lossPct =>
      exact ⟨fun _ => trivial, fun _ => ⟨applyDredTuning_encodes h frames lossPct, trivial⟩⟩
  | setPendingQualityReport report => exact ⟨fun _ => trivial, fun _ => ⟨h, trivial⟩⟩

/-! ## Every run -/

theorem run_iff {created : Except String OpusSettings} {legacyFecMode : Bool}
    {config : CallConfig} (h : VoiceEncoder.new libopus created legacyFecMode config = some enc)
    (events : List VoiceEvent) :
    Throughout step Labelled enc events ∧ EachStep step KeepsAt enc events ↔
      IsAudio config.profile.codec ∧ EachStep step HarmlessAt enc events := by
  unfold VoiceEncoder.new at h
  cases hnew : AdaptiveEncoder.new libopus created legacyFecMode config.profile with
  | error e => simp [hnew] at h
  | ok audioEnc =>
      simp only [hnew, Option.some.injEq] at h
      obtain ⟨hsound, hencodes⟩ := AdaptiveEncoder.new_encodes hnew
      have hlabelled : enc.Labelled ↔ IsAudio config.profile.codec := by
        subst h
        exact labelled_iff.trans hencodes
      have hstart : enc.Sound := by
        subst h
        exact hsound
      have hpossible : EachStep step (fun _ _ => True) enc events :=
        eachStep_of_forall fun _ _ _ => trivial
      have hiff (hP : enc.Labelled) :
          Throughout step Labelled enc events ∧ EachStep step KeepsAt enc events ↔
            EachStep step HarmlessAt enc events :=
        throughout_and_eachStep_iff (I := Sound) (fun enc e henc _ => step_sound enc e henc)
          (fun _ e henc _ hP => step_iff e henc hP) hstart hpossible hP
      rw [← hlabelled]
      constructor
      · intro hall
        exact ⟨hall.1.head, (hiff hall.1.head).mp hall⟩
      · intro hall
        exact (hiff hall.1).mpr hall.2

/-- The encoders and the decoder switch as a whole, and a call names the codec it encodes
with, exactly if the call starts with an audio codec and each profile that is not taken has
nothing left to change when it is refused. -/
theorem switches_atomic_iff (adaptive : AdaptiveEncoder) (calls : List AdaptiveEncoder.Call)
    (dec : AdaptiveDecoder) (profiles : List QualityProfile) {created : Except String OpusSettings}
    {legacyFecMode : Bool} {config : CallConfig}
    (h : VoiceEncoder.new libopus created legacyFecMode config = some enc)
    (events : List VoiceEvent) :
    (EachStep AdaptiveEncoder.step AdaptiveEncoder.AtomicAt adaptive calls ↔
      EachStep AdaptiveEncoder.step AdaptiveEncoder.HarmlessAt adaptive calls) ∧
    (EachStep AdaptiveDecoder.step AdaptiveDecoder.AtomicAt dec profiles ↔
      EachStep AdaptiveDecoder.step AdaptiveDecoder.HarmlessAt dec profiles) ∧
    (Throughout step Labelled enc events ∧ EachStep step KeepsAt enc events ↔
      IsAudio config.profile.codec ∧ EachStep step HarmlessAt enc events) :=
  ⟨AdaptiveEncoder.run_atomic_iff adaptive calls, AdaptiveDecoder.run_atomic_iff dec profiles,
    run_iff h events⟩

/-- What libopus starts with. -/
def opusDefaults : OpusSettings := ⟨64000, false, false, 9, false, 0, 0⟩

/-- From Opus to Codec2 and back, libopus taking every setting. -/
theorem switch_back_and_forth : ∃ enc dec,
    VoiceEncoder.new (fun _ => none) (.ok opusDefaults) false .default = some enc ∧
      AdaptiveDecoder.new (.ok ()) .good = .ok dec ∧
      EachStep AdaptiveEncoder.step AdaptiveEncoder.AtomicAt enc.audioEnc
        [.setProfile (fun _ => none) .catastrophic, .setProfile (fun _ => none) .good] ∧
      EachStep AdaptiveDecoder.step AdaptiveDecoder.AtomicAt dec [.catastrophic, .good] ∧
      Throughout step Labelled enc [.setProfile (fun _ => none) .catastrophic,
        .setProfile (fun _ => none) .good] ∧
      EachStep step KeepsAt enc [.setProfile (fun _ => none) .catastrophic,
        .setProfile (fun _ => none) .good] := by
  obtain ⟨enc, henc⟩ : ∃ enc,
      VoiceEncoder.new (fun _ => none) (.ok opusDefaults) false .default = some enc := ⟨_, rfl⟩
  obtain ⟨dec, hdec⟩ : ∃ dec, AdaptiveDecoder.new (.ok ()) .good = .ok dec := ⟨_, rfl⟩
  obtain ⟨hencoder, hdecoder, hcall⟩ := switches_atomic_iff enc.audioEnc
    [.setProfile (fun _ => none) .catastrophic, .setProfile (fun _ => none) .good] dec
    [.catastrophic, .good] henc
    [.setProfile (fun _ => none) .catastrophic, .setProfile (fun _ => none) .good]
  refine ⟨enc, dec, henc, hdec, hencoder.mpr ?_, hdecoder.mpr ?_, hcall.mpr ?_⟩
  · exact ⟨Or.inl (Or.inl rfl), Or.inl (Or.inr ⟨rfl, fun _ _ => rfl⟩), trivial⟩
  · exact ⟨Or.inl (Or.inl rfl), Or.inl (Or.inr rfl), trivial⟩
  · exact ⟨Or.inr rfl, Or.inl (Or.inl rfl), Or.inl (Or.inr ⟨rfl, fun _ _ => rfl⟩), trivial⟩

/-- A profile of comfort noise. -/
def noiseProfile : QualityProfile := { QualityProfile.good with codec := .comfortNoise }

/-- On a Codec2 call a profile of comfort noise is refused, but it is the active codec from
then on, so that Opus encodes the frames of the packets that name Codec2. -/
theorem refused_switch_mislabels : ∃ enc,
    VoiceEncoder.new (fun _ => none) (.ok opusDefaults) false
      { CallConfig.default with profile := .catastrophic } = some enc ∧
      ¬ EachStep step KeepsAt enc [.setProfile (fun _ => none) noiseProfile] ∧
      ¬ Throughout step Labelled enc [.setProfile (fun _ => none) noiseProfile] := by
  refine ⟨_, rfl, ?_, ?_⟩
  · rintro ⟨hatomic, _⟩
    have hsame := congrArg (fun enc => enc.audioEnc.active) (hatomic _ rfl)
    exact absurd hsame (by decide)
  · intro h
    have hencodes := labelled_iff.mp h.last
    exact absurd hencodes.1 (by decide)

end VoiceEncoder
end Wzp.Client
